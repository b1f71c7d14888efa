/-
Evlampy/FanOut.lean

A message to a group, when nothing goes wrong: the observers return without doing
anything, and the library calls succeed.  Every member is sent a copy with the same
payload and a session key of its own, in the order of the names; the receive
handlers of those who are online are called, once each; and nothing else changes
(`group_fan_out`).

Two facts about every reachable state make the loop skip nobody: members of groups
have accounts (`directory_run`), and no account has an empty key (`keyed_run`).
-/
import Evlampy.Directory
import Evlampy.Exceptions
import Evlampy.Lifetimes

namespace Evlampy

open Cxx Callback Prog System ChatServer ChatClient MessageProtocol OpenSSLKeyFactory

variable {env : Env} {h : History} {i : Nat} {c : ClientId}

/-! ### Keys on record -/

/-- The action registers nobody under an empty key. -/
def Keyed (e : Eff) : Prop :=
  ∀ u passwordHash pem, e = .server (.registerUser u passwordHash pem) → pem ≠ []

theorem registerOnServer_keyed (env : Env) (c : ClientId) (rawPassword : Str) :
    (registerOnServer env c rawPassword).AllActs Keyed (fun _ => True) := by
  refine .act_bind (fun _ _ _ e => by cases e) fun self => ?_
  split
  · trivial
  · refine .act_bind (fun _ _ _ e => by cases e) fun n => .ofExcept_bind fun keyPair hgen => ?_
    have hpem : keyPair.publicKeyPem ≠ [] := (OpenSSL.Generated.ne_nil ⟨n, hgen⟩).1
    refine .act_bind (fun _ _ _ e => by cases e) fun _ => (allActs_ofExcept _).bind fun _ => ?_
    refine .act_bind (fun u passwordHash pem e => by cases e; exact hpem) fun registered => ?_
    refine .act_bind (fun _ _ _ e => by cases e) fun _ => ?_
    split
    · exact (saveKeyPairToDisk_allActs env c (fun _ _ _ e => by cases e)
        (fun _ _ _ _ e => by cases e) (fun _ _ _ _ _ e => by cases e)).bind fun _ => trivial
    · trivial

theorem body_keyed (env : Env) (q : Call) : (Call.body env q).AllActs Keyed (fun _ => True) := by
  by_cases hregister : ∃ rawPassword, q.op = .registerOnServer rawPassword
  · obtain ⟨c, op⟩ := q
    obtain ⟨rawPassword, rfl⟩ := hregister
    exact (registerOnServer_keyed env c rawPassword).bind fun _ => trivial
  · refine (body_allActs env q).mono (fun e he => ?_) fun _ _ => trivial
    rintro u passwordHash pem rfl
    obtain ⟨c, op⟩ := q
    cases op with
    | registerOnServer rawPassword => exact absurd ⟨rawPassword, rfl⟩ hregister
    | _ => exact he.elim

/-- No account has an empty key. -/
def KeysGiven (s : ChatServer) : Prop :=
  ∀ u record, s.users.lookup u = some record → record.publicKeyPem ≠ []

theorem KeysGiven.insert {s : ChatServer} (hk : KeysGiven s) {o : Str} {record : UserRecord}
    (hrecord : record.publicKeyPem ≠ []) :
    KeysGiven { s with users := s.users.insert o record } := by
  intro u record' hu
  rcases UnorderedMap.lookup_insert_cases hu with ⟨-, rfl⟩ | ⟨-, hold⟩
  · exact hrecord
  · exact hk u record' hold

theorem KeysGiven.change {q : ServerCall} {s s' : ChatServer} (hk : KeysGiven s)
    (hq : Keyed (.server q)) (h : ServerCall.Change s q s') : KeysGiven s' := by
  cases h with
  | user u passwordHash pem free => exact hk.insert (hq u passwordHash pem rfl)
  | contactAdded owner contact record old known new => exact hk.insert (hk owner record old)
  | contactRemoved owner contact record old mem => exact hk.insert (hk owner record old)
  | stored m =>
      intro u record hu
      rw [ChatServer.storeMessage_users] at hu
      exact hk u record hu
  | _ => exact hk

theorem keysGiven_run (env : Env) (names : ClientId → Str) (disk : Str → Option Str)
    (ms : List (Move Exn Call)) : KeysGiven (env.run names disk ms).hist.1.server := by
  have hpush : ∀ i (a : Act Eff Notice Exn Call Value) (h : History), (∀ e, a ≠ .did e) →
      KeysGiven h.1.server → KeysGiven (env.system.push h i a).1.server := by
    intro i a h ha hk
    cases a with
    | did e => exact absurd rfl (ha e)
    | _ => exact hk
  refine run_keeps env.system (I := fun h : History => KeysGiven h.1.server)
    (fun u record hu => by cases hu) (fun q => .of_allActs (body_keyed env q) ?_ hpush) hpush ms
  intro i e h he hk
  cases e with
  | server q => exact hk.change he (q.exec_change h.1.server)
  | _ => exact hk

/-- A user with an account has a key. -/
theorem getPublicKey_ne_nil {s : ChatServer} (hk : KeysGiven s) {u : Str} (hu : u ∈ s.users) :
    s.getPublicKey u ≠ [] := by
  obtain ⟨record, hrecord⟩ := Option.isSome_iff_exists.mp (AList.lookup_isSome.mpr hu)
  unfold ChatServer.getPublicKey
  rw [hrecord]
  exact hk u record hrecord

/-! ### Receive handlers -/

/-- The clients whose receive handlers have been called, in this order. -/
def heard (h : History) : List ClientId := h.2.reverse.filterMap fun x => invokedClient x.act

theorem heard_push (a : Act Eff Notice Exn Call Value) :
    heard (env.system.push h i a) = heard h ++ (invokedClient a).toList := by
  rw [heard, System.push, List.reverse_cons, List.filterMap_append, heard]
  cases hact : invokedClient a <;> simp [hact]

/-- From `h` to `h'` receive handlers were called as listed, and only the server's
histories and the counter of draws have changed besides. -/
structure Later (h h' : History) (list : List ClientId) : Prop where
  heard : heard h' = heard h ++ list
  clients : h'.1.clients = h.1.clients
  disk : h'.1.disk = h.1.disk

theorem Later.refl (h : History) : Later h h [] := ⟨(List.append_nil _).symm, rfl, rfl⟩

/-- One more act, of those that touch neither clients nor files. -/
theorem Later.push {h h' : History} {list : List ClientId} (hl : Later h h' list)
    {a : Act Eff Notice Exn Call Value}
    (hclients : (env.system.push h' i a).1.clients = h'.1.clients)
    (hdisk : (env.system.push h' i a).1.disk = h'.1.disk) :
    Later h (env.system.push h' i a) (list ++ (invokedClient a).toList) := by
  refine ⟨?_, hclients.trans hl.clients, hdisk.trans hl.disk⟩
  rw [heard_push, hl.heard, List.append_assoc]

/-- An act that calls no handler. -/
theorem Later.quiet {h h' : History} {list : List ClientId} (hl : Later h h' list)
    {a : Act Eff Notice Exn Call Value}
    (hclients : (env.system.push h' i a).1.clients = h'.1.clients)
    (hdisk : (env.system.push h' i a).1.disk = h'.1.disk) (ha : invokedClient a = none) :
    Later h (env.system.push h' i a) list := by
  have hpush := hl.push hclients hdisk
  rw [ha, Option.toList_none, List.append_nil] at hpush
  exact hpush

theorem Later.trans {h h' h'' : History} {list list' : List ClientId} (hl : Later h h' list)
    (hl' : Later h' h'' list') : Later h h'' (list ++ list') := by
  refine ⟨?_, hl'.clients.trans hl.clients, hl'.disk.trans hl.disk⟩
  rw [hl'.heard, hl.heard, List.append_assoc]

/-! ### Sending a copy -/

/-- A receiver that cannot read the payload does not notice it, and one that can has
observers that return. -/
theorem calmly_handleIncoming (d : ClientId) (fromUser payload : Str) :
    env.system.calmly i (handleIncoming env d fromUser payload)
      (fun r h' => r = .ok () ∧ Later h h' [] ∧ h'.1.server = h.1.server) h := by
  refine calmly_tryCatch.mpr (calmly_step fun self h1 _ hh1 => ?_)
  have hl1 : Later h h1 [] ∧ h1.1.server = h.1.server := by
    rw [hh1]
    exact ⟨(Later.refl h).quiet rfl rfl rfl, rfl⟩
  refine calmly_step fun n h2 _ hh2 => ?_
  have hl2 : Later h h2 [] ∧ h2.1.server = h.1.server := by
    rw [hh2]
    exact ⟨hl1.1.quiet rfl rfl rfl, hl1.2⟩
  refine calmly_ofExcept_bind (fun r _ => ?_) fun x hx => ?_
  · exact ⟨rfl, (hl2.1.quiet rfl rfl rfl).quiet rfl rfl rfl, hl2.2⟩
  · obtain ⟨e, rfl⟩ := throwsStd_readIncoming self n payload x hx
    exact ⟨rfl, hl2⟩

/-- The transport calls the handler of the receiver, if that is online. -/
theorem calmly_send (hconnected : (h.1.clients c).transport.connected = true)
    (toUser payload : Str) :
    env.system.calmly i (send env c toUser payload)
      (fun r h' => r = .ok (h.1.server.transport.findHandler toUser).isSome ∧
        Later h h' (h.1.server.transport.findHandler toUser).toList ∧
        h'.1.server = h.1.server) h := by
  refine calmly_step fun self h1 hself hh1 => ?_
  obtain rfl : self = h.1.clients c := hself
  have hl1 : Later h h1 [] ∧ h1.1.server = h.1.server := by
    rw [hh1]
    exact ⟨(Later.refl h).quiet rfl rfl rfl, rfl⟩
  rw [if_pos hconnected]
  refine calmly_step fun handler h2 hhandler hh2 => ?_
  have hl2 : Later h h2 [] ∧ h2.1.server = h.1.server := by
    rw [hh2]
    exact ⟨hl1.1.quiet rfl rfl rfl, hl1.2⟩
  obtain rfl : handler = h.1.server.transport.findHandler toUser := by
    rw [hhandler, ← hl1.2]
    rfl
  rcases h.1.server.transport.findHandler toUser with - | receiver
  · exact ⟨rfl, hl2⟩
  · refine calmly_step fun _ h3 _ hh3 => ?_
    have hl3 : Later h h3 [receiver] ∧ h3.1.server = h.1.server := by
      rw [hh3]
      exact ⟨hl2.1.push rfl rfl, hl2.2⟩
    refine calmly_bind.mpr (calmly_mono (fun r h4 hr => ?_) (calmly_handleIncoming receiver _ payload))
    obtain ⟨rfl, hl4, hserver⟩ := hr
    exact ⟨rfl, hl3.1.trans hl4, hserver.trans hl3.2⟩

theorem calmly_deliver (hconnected : (h.1.clients c).transport.connected = true) {toUser wire : Str}
    {message : Message} (hwire : serialize env.ssl.base64 message = .ok wire) :
    env.system.calmly i (deliver env c toUser message)
      (fun r h' => r = .ok () ∧ Later h h' (h.1.server.transport.findHandler toUser).toList ∧
        h'.1.server = h.1.server.storeMessage { message with
          status := if (h.1.server.transport.findHandler toUser).isSome then .delivered
            else .sent }) h := by
  refine calmly_ofExcept_bind (fun wire' _ => ?_) fun x hx => ?_
  · refine calmly_bind.mpr (calmly_mono (fun r h1 hr => ?_) (calmly_send hconnected toUser wire'))
    obtain ⟨rfl, hl1, hserver⟩ := hr
    refine ⟨rfl, hl1.quiet rfl rfl rfl, ?_⟩
    rw [← hserver]
    rfl
  · rw [hwire] at hx
    cases hx

/-! ### The loop over the members -/

/-- The message `m` is the copy for `member` of a group message: it carries the common
payload and a session key encrypted under the member's public key, and is marked
delivered if the member is online. -/
structure IsCopyFor (env : Env) (s : ChatServer) (client : ChatClient) (groupId : Str)
    (sessionKey encryptedPayload : Bytes) (member : Str) (m : Message) : Prop where
  receiver : m.receiver = member
  sender : m.sender = client.username
  chatId : m.chatId = groupId
  isGroupMessage : m.isGroupMessage = true
  payload : m.encryptedPayload = encryptedPayload
  key : ∃ n, encryptWithPublicKey env.ssl n (s.getPublicKey member) sessionKey
    = .ok m.encryptedSessionKey
  status : m.status = if (s.transport.findHandler member).isSome then .delivered else .sent

/-- The library makes a copy for every member. -/
def CopiesMade (env : Env) (s : ChatServer) (self : ChatClient) (groupId : Str)
    (sessionKey encryptedPayload : Bytes) (members : List Str) : Prop :=
  ∀ member ∈ members, ∀ n, ∃ message wire,
    composeCopy env self n member (s.getPublicKey member) groupId sessionKey encryptedPayload
      = .ok message ∧ serialize env.ssl.base64 message = .ok wire

theorem getPublicKey_congr {s s' : ChatServer} (husers : s'.users = s.users) (u : Str) :
    s'.getPublicKey u = s.getPublicKey u := by
  unfold ChatServer.getPublicKey
  rw [husers]

/-- What a copy is depends on the accounts and on who is online. -/
theorem IsCopyFor.congr {s s' : ChatServer} {self : ChatClient} {groupId : Str}
    {sessionKey encryptedPayload : Bytes} {member : Str} {m : Message}
    (hm : IsCopyFor env s' self groupId sessionKey encryptedPayload member m)
    (husers : s'.users = s.users) (htransport : s'.transport = s.transport) :
    IsCopyFor env s self groupId sessionKey encryptedPayload member m := by
  refine { hm with key := ?_, status := ?_ }
  · rw [← getPublicKey_congr husers]
    exact hm.key
  · rw [← htransport]
    exact hm.status

/-- From `h` to `h'` each of the members has been sent a copy. -/
structure Copied (env : Env) (client : ChatClient) (groupId : Str)
    (sessionKey encryptedPayload : Bytes) (members : List Str) (h h' : History) : Prop where
  later : Later h h' (members.filterMap h.1.server.transport.findHandler)
  stored : ∃ copies, List.Forall₂ (IsCopyFor env h.1.server client groupId sessionKey
      encryptedPayload) members copies ∧
    h'.1.server = copies.foldl ChatServer.storeMessage h.1.server

theorem calmly_sendCopies {self : ChatClient} {groupId : Str} {sessionKey encryptedPayload : Bytes}
    (members : List Str) (anySent : Bool)
    (hconnected : (h.1.clients c).transport.connected = true)
    (hkeys : ∀ member ∈ members, h.1.server.getPublicKey member ≠ [])
    (hmade : CopiesMade env h.1.server self groupId sessionKey encryptedPayload members) :
    env.system.calmly i (sendCopies env c self groupId sessionKey encryptedPayload members anySent)
      (fun r h' => r = .ok (anySent || !members.isEmpty) ∧
        Copied env self groupId sessionKey encryptedPayload members h h') h := by
  induction members generalizing anySent h with
  | nil =>
      refine ⟨?_, Later.refl h, [], .nil, rfl⟩
      rw [List.isEmpty_nil, Bool.not_true, Bool.or_false]
  | cons member members ih =>
      refine calmly_step fun receiverPublicKey h1 hpem hh1 => ?_
      obtain rfl : receiverPublicKey = h.1.server.getPublicKey member := hpem
      have hl1 : Later h h1 [] ∧ h1.1.server = h.1.server := by
        rw [hh1]
        exact ⟨(Later.refl h).quiet rfl rfl rfl, rfl⟩
      rw [if_neg (hkeys member List.mem_cons_self)]
      refine calmly_step fun n h2 _ hh2 => ?_
      have hl2 : Later h h2 [] ∧ h2.1.server = h.1.server := by
        rw [hh2]
        exact ⟨hl1.1.quiet rfl rfl rfl, hl1.2⟩
      obtain ⟨message, wire, hmessage, hwire⟩ := hmade member List.mem_cons_self n
      refine calmly_ofExcept_bind (fun message' hmessage' => ?_) fun x hx => ?_
      swap
      · rw [hmessage] at hx
        cases hx
      cases hmessage.symm.trans hmessage'
      have hconnected2 : (h2.1.clients c).transport.connected = true := by
        rw [hl2.1.clients]
        exact hconnected
      refine calmly_bind.mpr (calmly_mono (fun r h3 hr => ?_) (calmly_deliver hconnected2 hwire))
      obtain ⟨rfl, hl3, hserver3⟩ := hr
      rw [hl2.2] at hl3 hserver3
      replace hl3 := hl2.1.trans hl3
      have husers3 : h3.1.server.users = h.1.server.users := by
        rw [hserver3, ChatServer.storeMessage_users]
      have htransport3 : h3.1.server.transport = h.1.server.transport := by
        rw [hserver3, ChatServer.storeMessage_transport]
      -- the rest of the loop runs in the world with one message more
      have hrest := ih (h := h3) true (by rw [hl3.clients]; exact hconnected)
        (fun u hu => by
          rw [getPublicKey_congr husers3]
          exact hkeys u (List.mem_cons_of_mem _ hu))
        (fun u hu => by
          rw [getPublicKey_congr husers3]
          exact hmade u (List.mem_cons_of_mem _ hu))
      refine calmly_mono (fun r h4 hr => ?_) hrest
      obtain ⟨rfl, hl4, copies, hcopies, hserver4⟩ := hr
      rw [htransport3] at hl4
      refine ⟨?_, ?_, { message with
          status := if (h.1.server.transport.findHandler member).isSome then .delivered
            else .sent } :: copies, .cons ?_ ?_, ?_⟩
      · rw [List.isEmpty_cons, Bool.not_false, Bool.or_true, Bool.true_or]
      · have hall := hl3.trans hl4
        rw [List.filterMap_cons]
        generalize h.1.server.transport.findHandler member = handler at hall ⊢
        rcases handler with - | d
        · exact hall
        · exact hall
      · obtain ⟨hkey, hpayload, -, -, hsender, hreceiver, hchat, hgroup⟩ := composeCopy_eq_ok hmessage
        exact ⟨hreceiver, hsender, hchat, hgroup, hpayload, ⟨n, hkey⟩, rfl⟩
      · exact hcopies.imp fun u m hm => hm.congr husers3 htransport3
      · rw [List.foldl_cons, ← hserver3]
        exact hserver4

/-! ### The whole send -/

/-- What storing messages of one group does to a server. -/
theorem storeCopies {s : ChatServer} {groupId : Str} {copies : List Message}
    (hcopies : ∀ m ∈ copies, m.isGroupMessage = true ∧ m.chatId = groupId) :
    (copies.foldl ChatServer.storeMessage s).getGroupConversation groupId
        = s.getGroupConversation groupId ++ copies ∧
      (∀ g, g ≠ groupId → (copies.foldl ChatServer.storeMessage s).getGroupConversation g
        = s.getGroupConversation g) ∧
      (copies.foldl ChatServer.storeMessage s).history = s.history ∧
      (copies.foldl ChatServer.storeMessage s).users = s.users ∧
      (copies.foldl ChatServer.storeMessage s).groups = s.groups ∧
      (copies.foldl ChatServer.storeMessage s).nextGroupId = s.nextGroupId ∧
      (copies.foldl ChatServer.storeMessage s).transport = s.transport := by
  induction copies generalizing s with
  | nil => exact ⟨(List.append_nil _).symm, fun _ _ => rfl, rfl, rfl, rfl, rfl, rfl⟩
  | cons m copies ih =>
      obtain ⟨⟨hgroup, hchat⟩, hcopies⟩ := List.forall_mem_cons.mp hcopies
      have hstore : s.storeMessage m
          = { s with groupHistory := UnorderedMap.pushBack groupId m s.groupHistory } := by
        unfold ChatServer.storeMessage
        rw [if_pos hgroup, hchat]
      obtain ⟨hself, hother, hrest⟩ := ih (s := s.storeMessage m) hcopies
      rw [List.foldl_cons]
      refine ⟨?_, fun g hg => ?_, ?_⟩
      · rw [hself, hstore]
        show UnorderedMap.bucket (UnorderedMap.pushBack _ m s.groupHistory) _ ++ copies = _
        rw [UnorderedMap.bucket_pushBack_self, List.append_assoc]
        rfl
      · rw [hother g hg, hstore]
        exact UnorderedMap.bucket_pushBack_ne hg m s.groupHistory
      · rw [hrest.1, hrest.2.1, hrest.2.2.1, hrest.2.2.2.1, hrest.2.2.2.2, hstore]
        exact ⟨rfl, rfl, rfl, rfl, rfl⟩

/-- What is related to something holds of every element. -/
theorem forall_mem_of_forall₂ {α β : Type} {S : α → β → Prop} {P : β → Prop} {l : List α}
    {l' : List β} (h : List.Forall₂ S l l') (hP : ∀ a b, S a b → P b) : ∀ b ∈ l', P b := by
  induction h with
  | nil => exact fun b hb => nomatch hb
  | cons hab _ ih => exact List.forall_mem_cons.mpr ⟨hP _ _ hab, ih⟩

/-- The group message of the client `c` has gone out: from the configuration `cfg`, where
it was called, to `cfg'`. -/
structure FannedOut (env : Env) (c : ClientId) (groupId : Str) (sessionKey encryptedPayload : Bytes)
    (cfg cfg' : Configuration) : Prop where
  returned : resultOf cfg'.hist = some (.bool true)
  /-- Each member is sent a copy, in this order. -/
  stored : ∃ copies, List.Forall₂ (IsCopyFor env cfg.hist.1.server (cfg.hist.1.clients c) groupId
      sessionKey encryptedPayload) (cfg.hist.1.server.getGroupMembers groupId) copies ∧
    cfg'.hist.1.server.getGroupConversation groupId
      = cfg.hist.1.server.getGroupConversation groupId ++ copies
  /-- The handlers of the members that are online are called, in this order. -/
  heard : heard cfg'.hist = heard cfg.hist ++
    (cfg.hist.1.server.getGroupMembers groupId).filterMap cfg.hist.1.server.transport.findHandler
  /-- And nobody's is called twice. -/
  once : ((cfg.hist.1.server.getGroupMembers groupId).filterMap
    cfg.hist.1.server.transport.findHandler).Nodup
  others : ∀ g, g ≠ groupId → cfg'.hist.1.server.getGroupConversation g
    = cfg.hist.1.server.getGroupConversation g
  history : cfg'.hist.1.server.history = cfg.hist.1.server.history
  users : cfg'.hist.1.server.users = cfg.hist.1.server.users
  groups : cfg'.hist.1.server.groups = cfg.hist.1.server.groups
  nextGroupId : cfg'.hist.1.server.nextGroupId = cfg.hist.1.server.nextGroupId
  transport : cfg'.hist.1.server.transport = cfg.hist.1.server.transport
  clients : cfg'.hist.1.clients = cfg.hist.1.clients
  disk : cfg'.hist.1.disk = cfg.hist.1.disk
  stack : cfg'.stack = cfg.stack

theorem Copied.fannedOut {groupId : Str} {sessionKey encryptedPayload : Bytes} {q : Call}
    {cfg : Configuration} {h' : History} (hc : Copied env (cfg.hist.1.clients c) groupId sessionKey
      encryptedPayload (cfg.hist.1.server.getGroupMembers groupId)
      (env.system.push cfg.hist cfg.next (.called q)) h') (hsessions : SessionInv cfg.hist.1) :
    FannedOut env c groupId sessionKey encryptedPayload cfg
      ⟨env.system.push h' cfg.next (.returned (.ok (.bool true))), cfg.stack, cfg.next + 1⟩ := by
  obtain ⟨hl, copies, hcopies, hserver⟩ := hc
  obtain ⟨hself, hothers, hhistory, husers, hgroups, hnext, htransport⟩ :=
    storeCopies (s := cfg.hist.1.server)
      (forall_mem_of_forall₂ hcopies fun _ _ hm => ⟨hm.isGroupMessage, hm.chatId⟩)
  replace hserver : h'.1.server = copies.foldl ChatServer.storeMessage cfg.hist.1.server := hserver
  rw [← hserver] at hself hothers hhistory husers hgroups hnext htransport
  refine ⟨rfl, ⟨copies, hcopies, hself⟩, ?_, ?_, hothers, hhistory, husers, hgroups, hnext,
    htransport, hl.clients, hl.disk, rfl⟩
  · rw [heard_push, hl.heard, heard_push]
    show heard cfg.hist ++ [] ++ _ ++ [] = _
    rw [List.append_nil, List.append_nil]
    rfl
  · have hnodup : (cfg.hist.1.server.getGroupMembers groupId).Nodup :=
      ChatServer.getGroupMembers_strict.imp fun hlt heq => absurd (heq ▸ hlt) (List.lt_irrefl _)
    -- a handler is in the table under the name of its client
    refine List.Nodup.filterMap (fun u v d hu hv => ?_) hnodup
    rw [← ((hsessions.handler u d).mp hu).2, ((hsessions.handler v d).mp hv).2]

theorem calmly_sendGroupMessage {groupId plaintext : Str} {sessionKey encryptedPayload : Bytes}
    (hin : (h.1.clients c).loggedIn = true)
    (hconnected : (h.1.clients c).transport.connected = true)
    (hmembers : h.1.server.getGroupMembers groupId ≠ [])
    (hkeys : ∀ member ∈ h.1.server.getGroupMembers groupId, h.1.server.getPublicKey member ≠ [])
    (hpayload : composePayload env h.1.draws plaintext = .ok (sessionKey, encryptedPayload))
    (hmade : CopiesMade env h.1.server (h.1.clients c) groupId sessionKey encryptedPayload
      (h.1.server.getGroupMembers groupId)) :
    env.system.calmly i (sendGroupMessage env c groupId plaintext)
      (fun r h' => r = .ok true ∧ Copied env (h.1.clients c) groupId sessionKey encryptedPayload
        (h.1.server.getGroupMembers groupId) h h') h := by
  refine calmly_step fun self h1 hself hh1 => ?_
  obtain rfl : self = h.1.clients c := hself
  rw [if_pos hin]
  refine calmly_step fun members h2 hmem hh2 => ?_
  obtain rfl : members = h.1.server.getGroupMembers groupId := by
    rw [hmem, hh1]
    rfl
  rw [if_neg hmembers]
  refine calmly_step fun n h3 hn hh3 => ?_
  obtain rfl : n = h.1.draws := by
    rw [hn, hh2, hh1]
    rfl
  have hl3 : Later h h3 [] ∧ h3.1.server = h.1.server := by
    rw [hh3, hh2, hh1]
    exact ⟨(((Later.refl h).quiet rfl rfl rfl).quiet rfl rfl rfl).quiet rfl rfl rfl, rfl⟩
  refine calmly_ofExcept_bind (fun r hr => ?_) fun x hx => ?_
  swap
  · rw [hpayload] at hx
    cases hx
  cases hpayload.symm.trans hr
  refine calmly_mono (fun r h' hr => ?_) (calmly_sendCopies (h := h3)
    (h.1.server.getGroupMembers groupId) false (by rw [hl3.1.clients]; exact hconnected)
    (by rw [hl3.2]; exact hkeys) (by rw [hl3.2]; exact hmade))
  obtain ⟨rfl, hl, copies, hcopies, hserver⟩ := hr
  rw [hl3.2] at hl hcopies hserver
  refine ⟨?_, hl3.1.trans hl, copies, hcopies, hserver⟩
  rw [Bool.false_or]
  rcases hlist : h.1.server.getGroupMembers groupId with - | ⟨member, members⟩
  · exact absurd hlist hmembers
  · rfl

/-- **A group message goes out to every member.**  In every reachable state, if a client
that is logged in sends to a group that exists, the library calls succeed and all
observers return, then the call returns true after as many answers of observers as it
asks for, and the message has gone out. -/
theorem group_fan_out (env : Env) (names : ClientId → Str) (disk : Str → Option Str)
    (ms : List (Move Exn Call)) (c : ClientId) (groupId plaintext : Str)
    {sessionKey encryptedPayload : Bytes}
    (hin : ((env.run names disk ms).hist.1.clients c).loggedIn = true)
    (hgroup : groupId ∈ (env.run names disk ms).hist.1.server.groups)
    (hpayload : composePayload env (env.run names disk ms).hist.1.draws plaintext
      = .ok (sessionKey, encryptedPayload))
    (hmade : CopiesMade env (env.run names disk ms).hist.1.server
      ((env.run names disk ms).hist.1.clients c) groupId sessionKey encryptedPayload
      ((env.run names disk ms).hist.1.server.getGroupMembers groupId)) :
    ∃ k, FannedOut env c groupId sessionKey encryptedPayload (env.run names disk ms)
      (env.run names disk (ms ++ .call ⟨c, .sendGroupMessage groupId plaintext⟩ ::
        List.replicate k (.answer (.ok ())))) := by
  have hsessions := sessionInv_run env names disk ms
  have hdirectory := directory_run env names disk ms
  have hgiven := keysGiven_run env names disk ms
  have hrun : ∀ k, env.run names disk (ms ++ .call ⟨c, .sendGroupMessage groupId plaintext⟩ ::
      List.replicate k (.answer (.ok ()))) = (List.replicate k (.answer (.ok ()))).foldl
        env.system.step (env.system.step (env.run names disk ms)
          (.call ⟨c, .sendGroupMessage groupId plaintext⟩)) := by
    intro k
    rw [Env.run, System.run, List.foldl_append, List.foldl_cons]
    rfl
  simp only [hrun]
  generalize env.run names disk ms = cfg at *
  clear hrun
  obtain ⟨record, hrecord⟩ := Option.isSome_iff_exists.mp (AList.lookup_isSome.mpr hgroup)
  -- the owner is a member, so the group is not empty and the check on its members passes
  have howner : record.owner ∈ cfg.hist.1.server.getGroupMembers groupId :=
    mem_getGroupMembers_iff.mpr ⟨record, hrecord, hdirectory.owner groupId record hrecord⟩
  have hkeys : ∀ member ∈ cfg.hist.1.server.getGroupMembers groupId,
      cfg.hist.1.server.getPublicKey member ≠ [] := by
    intro member hmember
    obtain ⟨record', hrecord', hin'⟩ := mem_getGroupMembers_iff.mp hmember
    exact getPublicKey_ne_nil hgiven (hdirectory.members groupId record' hrecord' member hin')
  -- the call by itself, when every observer returns
  have hbody : env.system.calmly cfg.next (Call.body env ⟨c, .sendGroupMessage groupId plaintext⟩)
      (fun r h' => r = .ok (.bool true) ∧ Copied env (cfg.hist.1.clients c) groupId sessionKey
        encryptedPayload (cfg.hist.1.server.getGroupMembers groupId)
        (env.system.push cfg.hist cfg.next (.called ⟨c, .sendGroupMessage groupId plaintext⟩)) h')
      (env.system.push cfg.hist cfg.next (.called ⟨c, .sendGroupMessage groupId plaintext⟩)) := by
    refine calmly_bind.mpr (calmly_mono (fun r h' hr => ?_) (calmly_sendGroupMessage hin
      ((hsessions.connected c).symm.trans hin) (List.ne_nil_of_mem howner) hkeys hpayload hmade))
    obtain ⟨rfl, hcopied⟩ := hr
    exact ⟨rfl, hcopied⟩
  -- the run that answers each notice of it, `k` of them
  obtain ⟨k, r, h', ⟨rfl, hcopied⟩, hend⟩ := run_of_calmly env.system hbody cfg.stack (cfg.next + 1)
  refine ⟨k, ?_⟩
  replace hend : (List.replicate k (.answer (.ok ()))).foldl env.system.step (env.system.step cfg
      (.call ⟨c, .sendGroupMessage groupId plaintext⟩))
        = ⟨env.system.push h' cfg.next (.returned (.ok (.bool true))), cfg.stack, cfg.next + 1⟩ :=
    hend
  rw [hend]
  exact hcopied.fannedOut hsessions

/-- The reference environment makes copies of short messages. -/
theorem reference_copiesMade {s : ChatServer} {self : ChatClient} {groupId : Str}
    {sessionKey encryptedPayload : Bytes} {members : List Str}
    (hkeys : ∀ member ∈ members, ∃ b, s.getPublicKey member = pub ++ [b])
    (hkey : sessionKey.length ≤ 214) (hpayload : encryptedPayload.length ≤ maxBytes) :
    CopiesMade Env.reference s self groupId sessionKey encryptedPayload members := by
  intro member hmember n
  obtain ⟨b, hb⟩ := hkeys member hmember
  have henc : encryptWithPublicKey Env.reference.ssl n (s.getPublicKey member) sessionKey
      = .ok (b :: sessionKey) := by
    rw [hb]
    exact OpenSSL.reference_encryptWithPublicKey.mpr ⟨hkey, rfl⟩
  refine ⟨_, _, bind_eq_ok.mpr ⟨_, henc, rfl⟩,
    serialize_eq EvpBase64.reference_documented ⟨?_, hpayload, ?_⟩⟩
  · show (b :: sessionKey).length ≤ maxBytes
    rw [List.length_cons, maxBytes]
    omega
  · exact Nat.zero_le _

/-- Alice and Bob are online, Carol has an account but is not, and Alice makes a group of
the three. -/
def clubbing : List (Move Exn Call) :=
  .call ⟨2, .registerOnServer (str "pw")⟩ :: opening ++
    [.call ⟨0, .createGroup (str "club") [str "carol", str "bob"]⟩]

theorem group_fan_out_clubbing : ∃ sessionKey encryptedPayload k,
    FannedOut Env.reference 0 (str "group-1-club") sessionKey encryptedPayload
      (Env.reference.run Env.names Env.noFiles clubbing)
      (Env.reference.run Env.names Env.noFiles (clubbing ++
        .call ⟨0, .sendGroupMessage (str "group-1-club") (str "hi")⟩ ::
          List.replicate k (.answer (.ok ())))) := by
  have hpayload : ∃ sessionKey encryptedPayload, composePayload Env.reference
      (Env.reference.run Env.names Env.noFiles clubbing).hist.1.draws (str "hi")
        = .ok (sessionKey, encryptedPayload) ∧ sessionKey.length ≤ 214 ∧
          encryptedPayload.length ≤ maxBytes := by
    refine ⟨_, _, rfl, ?_, ?_⟩
    · decide +kernel
    · decide +kernel
  obtain ⟨sessionKey, encryptedPayload, hpayload, hkey, hlen⟩ := hpayload
  refine ⟨sessionKey, encryptedPayload, group_fan_out Env.reference Env.names Env.noFiles clubbing 0
    (str "group-1-club") (str "hi") (by decide +kernel) (by decide +kernel) hpayload
    (reference_copiesMade (fun member hmember => ?_) hkey hlen)⟩
  have hkeys : ∀ member ∈ (Env.reference.run Env.names Env.noFiles
      clubbing).hist.1.server.getGroupMembers (str "group-1-club"),
      (Env.reference.run Env.names Env.noFiles clubbing).hist.1.server.getPublicKey member
        = pub ++ [((Env.reference.run Env.names Env.noFiles
          clubbing).hist.1.server.getPublicKey member).getD 3 0] := by decide +kernel
  exact ⟨_, hkeys member hmember⟩

end Evlampy
