/-
Evlampy/Echoes.lean

What a send tells its sender.  A client that is logged in sends, for one listener that
is attached to this client alone.  The listener hears of a copy exactly if the copy is
addressed to the sender and no name in it contains a bar (`ownEvents`): the receiver
of any other copy is another client, and a copy with a bar in it cannot be read back
from the wire.

The specs of `sendMessage` and `sendGroupMessage` say in addition what is stored, and
that nothing else changes.
-/
import Evlampy.FanOut
import Evlampy.Listener

namespace Evlampy

open Cxx Callback Prog System ChatServer ChatClient MessageProtocol
open AES256GCMStrategy OpenSSLKeyFactory

variable {env : Env} {w w' : World} {h : History} {i : Nat} {c : ClientId} {m : Message}
  {text : Str} {ω : Type} {react : Notice → World → ω → ω} {K : ω → Prop} {x y z : ω}

/-! ### What a send leaves alone -/

/-- The worlds differ in the histories and in the number of draws at most. -/
structure Alike (w w' : World) : Prop where
  clients : w'.clients = w.clients
  disk : w'.disk = w.disk
  users : w'.server.users = w.server.users
  transport : w'.server.transport = w.server.transport

theorem Alike.refl (w : World) : Alike w w := ⟨rfl, rfl, rfl, rfl⟩

theorem Alike.trans {w'' : World} (ha : Alike w w') (ha' : Alike w' w'') : Alike w w'' :=
  ⟨ha'.clients.trans ha.clients, ha'.disk.trans ha.disk, ha'.users.trans ha.users,
    ha'.transport.trans ha.transport⟩

theorem Alike.publicKeyOf (ha : Alike w w') (u : Str) :
    w'.server.publicKeyOf u = w.server.publicKeyOf u := by
  rw [ChatServer.publicKeyOf, ha.users]
  rfl

theorem Alike.recorded (ha : Alike w w') : w.server.recorded = w'.server.recorded := by
  unfold ChatServer.recorded
  simp only [ha.publicKeyOf]

/-- The client is logged in, and its session and its keys are in order. -/
structure Online (env : Env) (c : ClientId) (w : World) : Prop where
  sessions : SessionInv w
  files : env.FilesWork w.server.recorded
  keys : KeyInv env w
  loggedIn : (w.clients c).loggedIn = true

theorem Online.alike (ho : Online env c w) (ha : Alike w w') : Online env c w' := by
  refine ⟨ho.sessions.congr ⟨ha.transport, ?_, ?_, ?_⟩, ha.recorded ▸ ho.files,
    ho.keys.congr ⟨ha.publicKeyOf, ha.disk, ?_, ?_, ?_, ?_⟩, ?_⟩
  all_goals simp only [ha.clients, implies_true]
  exact ho.loggedIn

theorem Online.connected (ho : Online env c w) : (w.clients c).transport.connected = true :=
  (ho.sessions.connected c).symm.trans ho.loggedIn

/-- The handler of a name is the client that is logged in under it. -/
theorem Online.findHandler_eq (ho : Online env c w) {d : ClientId} {u : Str}
    (hd : w.server.transport.findHandler u = some d) :
    (w.clients d).username = u ∧ (u = (w.clients c).username → d = c) := by
  obtain ⟨hin, hu⟩ := (ho.sessions.handler u d).mp hd
  refine ⟨hu, fun hself => ?_⟩
  exact ho.sessions.unique hin ho.loggedIn (hu.trans hself)

theorem Online.findHandler_self (ho : Online env c w) :
    w.server.transport.findHandler (w.clients c).username = some c :=
  (ho.sessions.handler _ c).mpr ⟨ho.loggedIn, rfl⟩

/-! ### Hearing -/

/-- The listener hears the events of the client `c`, from `x` to `y`, one after another,
while the clients are as given. -/
inductive Hears (react : Notice → World → ω → ω) (c : ClientId) (clients : ClientId → ChatClient) :
    List DecryptedMessageEvent → ω → ω → Prop
  | nil {x : ω} : Hears react c clients [] x x
  | cons {e : DecryptedMessageEvent} {es : List DecryptedMessageEvent} {x y : ω} (w : World)
      (same : w.clients = clients) (rest : Hears react c clients es (react ⟨c, e⟩ w x) y) :
      Hears react c clients (e :: es) x y

theorem Hears.trans {clients : ClientId → ChatClient} {es es' : List DecryptedMessageEvent}
    (h : Hears react c clients es x y) (h' : Hears react c clients es' y z) :
    Hears react c clients (es ++ es') x z := by
  induction h with
  | nil => exact h'
  | cons w same _ ih => exact .cons w same (ih h')

/-- In its states `K`, which it never leaves, the listener is attached to the client `c`
alone. -/
structure AttachedTo (react : Notice → World → ω → ω) (c : ClientId) (K : ω → Prop) : Prop where
  alone : ∀ n w x, K x → n.receiver ≠ c → react n w x = x
  keeps : ∀ n w x, K x → K (react n w x)

theorem Hears.keeps (hreact : AttachedTo react c K) {d : ClientId}
    {clients : ClientId → ChatClient} {es : List DecryptedMessageEvent}
    (h : Hears react d clients es x y) (hx : K x) : K y := by
  induction h with
  | nil => exact hx
  | cons w same _ ih => exact ih (hreact.keeps _ w _ hx)

/-- Events of other clients do not reach the listener. -/
theorem Hears.of_ne (hreact : AttachedTo react c K) {d : ClientId} (hd : d ≠ c)
    {clients : ClientId → ChatClient} {es : List DecryptedMessageEvent}
    (h : Hears react d clients es x y) (hx : K x) : y = x := by
  induction h with
  | nil => rfl
  | cons w same _ ih => exact (ih (hreact.keeps _ w _ hx)).trans (hreact.alone _ w _ hx hd)

/-- The event a payload causes at its receiver. -/
def eventsOf (fromUser : Str) : Except Exn (Message × Bytes) → List DecryptedMessageEvent
  | .ok r => [⟨fromUser, r.2, r.1.chatId, r.1.messageId, r.1.isGroupMessage⟩]
  | .error _ => []

instance (m : Message) : Decidable (NoBar m) :=
  inferInstanceAs (Decidable (_ ∧ _ ∧ _ ∧ _))

/-- What the sender `u` hears of a copy of the given text. -/
def ownEvents (u text : Str) (m : Message) : List DecryptedMessageEvent :=
  if m.receiver = u ∧ NoBar m then [⟨u, text, m.chatId, m.messageId, m.isGroupMessage⟩] else []

/-! ### Receiving -/

theorem attended_handleIncoming (d : ClientId) (fromUser payload : Str) :
    env.system.attended react i (handleIncoming env d fromUser payload)
      (fun r h' y => r = .ok () ∧ Alike h.1 h'.1 ∧ h'.1.server = h.1.server ∧
        Hears react d h.1.clients
          (eventsOf fromUser (readIncoming env (h.1.clients d) h.1.draws payload)) x y) h x := by
  refine attended_tryCatch.mpr (attended_step fun self h1 hself hh1 => ?_)
  obtain rfl : self = h.1.clients d := hself
  refine attended_step fun n h2 hn hh2 => ?_
  obtain rfl : n = h.1.draws := by
    rw [hn, hh1]
    rfl
  have h2world : h2.1 = { h.1 with draws := h.1.draws + 1 } := by
    rw [hh2, hh1]
    rfl
  have halike : Alike h.1 h2.1 ∧ h2.1.server = h.1.server := by
    rw [h2world]
    exact ⟨⟨rfl, rfl, rfl, rfl⟩, rfl⟩
  rcases hread : readIncoming env (h.1.clients d) h.1.draws payload with e | r
  · obtain ⟨e, rfl⟩ := throwsStd_readIncoming _ _ _ _ hread
    exact ⟨rfl, halike.1, halike.2, .nil⟩
  · exact ⟨rfl, halike.1, halike.2, .cons h2.1 halike.1.clients .nil⟩

/-- A payload goes to the receiver that is online. -/
theorem attended_send (ho : Online env c h.1) (toUser payload : Str) :
    env.system.attended react i (send env c toUser payload)
      (fun r h' y => (∃ b, r = .ok b) ∧ Alike h.1 h'.1 ∧ h'.1.server = h.1.server ∧
        ((h.1.server.transport.findHandler toUser = none ∧ y = x) ∨
          ∃ d n, h.1.server.transport.findHandler toUser = some d ∧
            Hears react d h.1.clients (eventsOf (h.1.clients c).username
              (readIncoming env (h.1.clients d) n payload)) x y)) h x := by
  refine attended_step fun self h1 hself hh1 => ?_
  obtain rfl : self = h.1.clients c := hself
  rw [if_pos ho.connected, ho.sessions.username c ho.loggedIn]
  refine attended_step fun handler h2 hhandler hh2 => ?_
  obtain rfl : handler = h.1.server.transport.findHandler toUser := by
    rw [hhandler, hh1]
    rfl
  have h2world : h2.1 = h.1 := by
    rw [hh2, hh1]
    rfl
  have halike : Alike h.1 h2.1 ∧ h2.1.server = h.1.server := by
    rw [h2world]
    exact ⟨.refl _, rfl⟩
  rcases hd : h.1.server.transport.findHandler toUser with - | d
  · exact ⟨⟨_, rfl⟩, halike.1, halike.2, Or.inl ⟨rfl, rfl⟩⟩
  · refine attended_step fun _ h3 _ hh3 => ?_
    have h3world : h3.1 = h.1 := by
      rw [hh3]
      exact h2world
    refine attended_bind.mpr
      (attended_mono (fun r h4 y hr => ?_) (attended_handleIncoming d _ payload))
    obtain ⟨rfl, halike, hserver, hhears⟩ := hr
    rw [h3world] at halike hserver hhears
    exact ⟨⟨_, rfl⟩, halike, hserver, Or.inr ⟨d, h.1.draws, rfl, hhears⟩⟩

/-- The library does what it is documented to do, and the text fits the wire. -/
structure Assumed (env : Env) (text : Str) : Prop where
  base64 : env.ssl.base64.Documented
  inverts : env.ssl.Inverts (maxText + 1)
  sized : env.ssl.Sized
  fits : text.length ≤ maxText

/-- What a client reads from the wire of a message to it: the message itself if no name in
it contains a bar, otherwise nothing. -/
theorem eventsOf_readIncoming (ha : Assumed env text) (ho : Online env c w) {sessionKey : Bytes}
    (hs : Sealed env w.server m text sessionKey) (hreceiver : m.receiver = (w.clients c).username)
    {wire : Str}
    (hwire : serialize env.ssl.base64 m = .ok wire) (n : Nat) :
    eventsOf (w.clients c).username (readIncoming env (w.clients c) n wire)
      = ownEvents (w.clients c).username text m := by
  by_cases hbar : NoBar m
  · have hde : deserialize env.ssl.base64 wire = .ok m := by
      have h := deserialize_serialize ha.base64
        (hs.fits ho.files ha.sized ho.keys ha.fits) hbar
      rwa [hwire] at h
    obtain ⟨hkey, hdec⟩ :=
      hs.opens ho.files ha.inverts ho.keys ho.loggedIn (Or.inl hreceiver.symm) n
    have hread : readIncoming env (w.clients c) n wire = .ok (m, text) :=
      readIncoming_eq_ok.mpr ⟨hde, sessionKey, hkey, hdec (Nat.lt_succ_of_le ha.fits)⟩
    rw [hread, ownEvents, if_pos ⟨hreceiver, hbar⟩]
    rfl
  · rw [ownEvents, if_neg fun h => hbar h.2]
    rcases hread : readIncoming env (w.clients c) n wire with e | r
    · rfl
    · exact absurd (header_eq ha.base64 hwire (readIncoming_eq_ok.mp hread).1).1 hbar

/-! ### Sending a copy -/

/-- A message of the given text that the client `u` makes. -/
structure Composed (env : Env) (s : ChatServer) (u toUser chatId : Str) (isGroup : Bool)
    (text : Str) (m : Message) : Prop where
  sender : m.sender = u
  receiver : m.receiver = toUser
  chatId : m.chatId = chatId
  isGroupMessage : m.isGroupMessage = isGroup
  id : ∃ k, m.messageId = env.messageId k
  sealed : ∃ sessionKey, Sealed env s m text sessionKey

theorem Composed.setStatus {s : ChatServer} {u toUser chatId : Str} {isGroup : Bool}
    (hm : Composed env s u toUser chatId isGroup text m) (status : MessageStatus) :
    Composed env s u toUser chatId isGroup text { m with status := status } := by
  obtain ⟨sessionKey, hs⟩ := hm.sealed
  exact ⟨hm.sender, hm.receiver, hm.chatId, hm.isGroupMessage, hm.id, sessionKey, hs.payload,
    hs.key, hs.selfKey, hs.noSelfKey⟩

/-- What a message is sealed with are the keys on record. -/
theorem Composed.alike {u toUser chatId : Str} {isGroup : Bool} (ha : Alike w w')
    (hm : Composed env w'.server u toUser chatId isGroup text m) :
    Composed env w.server u toUser chatId isGroup text m := by
  obtain ⟨sessionKey, hs⟩ := hm.sealed
  have hsealed : ∀ {v : Str} {data out : Bytes}, SealedFor env w'.server v data out →
      SealedFor env w.server v data out := by
    rintro v data out ⟨n, pem, hpem, henc⟩
    exact ⟨n, pem, (ha.publicKeyOf v).symm.trans hpem, henc⟩
  exact { hm with
    sealed := ⟨sessionKey, hs.payload, hsealed hs.key,
      fun hfw hd => hsealed (hs.selfKey (ha.recorded ▸ hfw) hd), hs.noSelfKey⟩ }

/-- The sender hears of the copy if it is for the sender, and the copy is stored. -/
theorem attended_deliver (hreact : AttachedTo react c K) (hx : K x) (ha : Assumed env text)
    (ho : Online env c h.1) {toUser chatId : Str} {isGroup : Bool}
    (hm : Composed env h.1.server (h.1.clients c).username toUser chatId isGroup text m) :
    env.system.attended react i (deliver env c toUser m)
      (fun r h' y => r = .ok () → Alike h.1 h'.1 ∧ ∃ status,
        h'.1.server = h.1.server.storeMessage { m with status := status } ∧
        Hears react c h.1.clients (ownEvents (h.1.clients c).username text m) x y) h x := by
  refine attended_ofExcept_bind (fun wire hwire => ?_) fun e _ hr => by cases hr
  refine attended_bind.mpr (attended_mono (fun r h1 y hr => ?_) (attended_send ho toUser wire))
  obtain ⟨⟨delivered, rfl⟩, halike, hserver, hheard⟩ := hr
  intro _
  refine ⟨halike.trans ⟨rfl, rfl, storeMessage_users _ _, storeMessage_transport _ _⟩,
    if delivered then .delivered else .sent, ?_, ?_⟩
  · rw [← hserver]
    rfl
  · show Hears react c h.1.clients _ x y
    have hnone : toUser ≠ (h.1.clients c).username →
        ownEvents (h.1.clients c).username text m = [] := fun hne =>
      if_neg fun h => hne (hm.receiver.symm.trans h.1)
    rcases hheard with ⟨hoff, rfl⟩ | ⟨d, n, hd, hheard⟩
    · rw [hnone]
      · exact .nil
      · rintro rfl
        rw [ho.findHandler_self] at hoff
        cases hoff
    · obtain ⟨hname, hself⟩ := ho.findHandler_eq hd
      by_cases hto : toUser = (h.1.clients c).username
      · obtain rfl := hself hto
        obtain ⟨sessionKey, hs⟩ := hm.sealed
        rwa [eventsOf_readIncoming ha ho hs (hm.receiver.trans hto) hwire n] at hheard
      · have hdc : d ≠ c := by
          rintro rfl
          exact hto hname.symm
        rw [hheard.of_ne hreact hdc hx, hnone hto]
        exact .nil

/-! ### Sending -/

/-- A direct message is sent, or there is nobody to send it to. -/
theorem attended_sendMessage (hreact : AttachedTo react c K) (hx : K x) (ha : Assumed env text)
    (ho : Online env c h.1) (toUser : Str) :
    env.system.attended react i (sendMessage env c toUser text)
      (fun r h' y => ∀ b, r = .ok b → Alike h.1 h'.1 ∧
        ((b = false ∧ h.1.server.getPublicKey toUser = [] ∧ h'.1.server = h.1.server ∧ y = x) ∨
          (b = true ∧ ∃ m, Composed env h.1.server (h.1.clients c).username toUser [] false text m ∧
            h'.1.server = h.1.server.storeMessage m ∧
            Hears react c h.1.clients (ownEvents (h.1.clients c).username text m) x y))) h x := by
  refine attended_step fun self h1 hself hh1 => ?_
  obtain rfl : self = h.1.clients c := hself
  rw [if_pos ho.loggedIn]
  refine attended_step fun pem h2 hpem hh2 => ?_
  replace hpem : pem = h.1.server.getPublicKey toUser := by
    rw [hpem, hh1]
    rfl
  have h2world : h2.1 = h.1 := by
    rw [hh2, hh1]
    rfl
  split
  -- nobody holds the name: nothing is stored and nothing is told
  · next hnil =>
    intro b hb
    cases hb
    have halike : Alike h.1 h2.1 ∧ h2.1.server = h.1.server := by
      rw [h2world]
      exact ⟨.refl _, rfl⟩
    exact ⟨halike.1, Or.inl ⟨rfl, hpem.symm.trans hnil, halike.2, rfl⟩⟩
  · next hne =>
    refine attended_step fun n h3 _ hh3 => ?_
    have hl3 : Alike h.1 h3.1 ∧ h3.1.server = h.1.server := by
      rw [hh3, hh2, hh1]
      exact ⟨⟨rfl, rfl, rfl, rfl⟩, rfl⟩
    refine attended_ofExcept_bind (fun m hm => ?_) fun e _ b hb => by cases hb
    -- the message is composed of what the server and the client hold in this state
    obtain ⟨-, hid, hsender, hreceiver, hchat, hdirect⟩ := composeMessage_eq_ok hm
    have hmade : Composed env h.1.server (h.1.clients c).username toUser [] false text m :=
      ⟨hsender, hreceiver, hchat, hdirect, ⟨_, hid⟩, sealed_of_composeMessage hm
        (publicKeyOf_of_getPublicKey hpem hne) fun _ => (ho.keys.inHand c ho.loggedIn).2.2⟩
    have hclients := hl3.1.clients
    rw [← hl3.2, ← hclients] at hmade
    refine attended_bind.mpr (attended_mono (fun r h4 y hr => ?_)
      (attended_deliver hreact hx ha (ho.alike hl3.1) hmade))
    -- an exception of storing answers nothing, so only the return is left
    rcases r with e | _
    · intro b hb
      cases hb
    · obtain ⟨halike, status, hserver, hheard⟩ := hr rfl
      rw [hl3.2] at hmade hserver
      rw [hclients] at hmade hheard
      intro b hb
      cases hb
      exact ⟨hl3.1.trans halike, Or.inr ⟨rfl, _, hmade.setStatus status, hserver, hheard⟩⟩

/-- The loop over the members sends a copy to each that has a key. -/
theorem attended_sendCopies (hreact : AttachedTo react c K) (hx : K x) (ha : Assumed env text)
    {self : ChatClient} (groupId : Str) {sessionKey payload : Bytes}
    (hpayload : ∃ k, encrypt env.ssl k text sessionKey = .ok payload) (members : List Str)
    (anySent : Bool) (ho : Online env c h.1) (hself : self = h.1.clients c) :
    env.system.attended react i (sendCopies env c self groupId sessionKey payload members anySent)
      (fun r h' y => ∀ b, r = .ok b → Alike h.1 h'.1 ∧ ∃ copies,
        List.Forall₂ (fun member => Composed env h.1.server self.username member groupId true text)
          (members.filter fun member => h.1.server.getPublicKey member ≠ []) copies ∧
        b = (anySent || !copies.isEmpty) ∧
        h'.1.server = copies.foldl ChatServer.storeMessage h.1.server ∧
        Hears react c h.1.clients (copies.flatMap (ownEvents self.username text)) x y) h x := by
  induction members generalizing anySent h x with
  | nil =>
      intro b hb
      cases hb
      refine ⟨.refl _, [], .nil, ?_, rfl, .nil⟩
      rw [List.isEmpty_nil, Bool.not_true, Bool.or_false]
  | cons member members ih =>
      refine attended_step fun pem h1 hpem hh1 => ?_
      replace hpem : pem = h.1.server.getPublicKey member := hpem
      have h1world : h1.1 = h.1 := by
        rw [hh1]
        rfl
      split
      · next hnil =>
        have hrest := ih (h := h1) hx anySent (h1world ▸ ho) (by rw [hself, h1world])
        simp only [h1world] at hrest
        rw [List.filter_cons_of_neg (by simpa [← hpem] using hnil)]
        exact hrest
      · next hne =>
        refine attended_step fun n h2 _ hh2 => ?_
        have hl2 : Alike h.1 h2.1 ∧ h2.1.server = h.1.server := by
          rw [hh2, hh1]
          exact ⟨⟨rfl, rfl, rfl, rfl⟩, rfl⟩
        refine attended_ofExcept_bind (fun m hm => ?_) fun e _ b hb => by cases hb
        obtain ⟨-, -, -, hid, hsender, hreceiver, hchat, hgroup⟩ := composeCopy_eq_ok hm
        have hmade : Composed env h.1.server (h.1.clients c).username member groupId true text m :=
          ⟨hsender.trans (congrArg _ hself), hreceiver, hchat, hgroup, ⟨_, hid⟩, sessionKey,
            sealed_of_composeCopy hm (publicKeyOf_of_getPublicKey hpem hne) hpayload⟩
        have hclients := hl2.1.clients
        rw [← hl2.2, ← hclients] at hmade
        refine attended_bind.mpr (attended_mono (fun r h3 y hr => ?_)
          (attended_deliver hreact hx ha (ho.alike hl2.1) hmade))
        rcases r with e | _
        · intro b hb
          cases hb
        · obtain ⟨halike, status, hserver, hheard⟩ := hr rfl
          replace halike := hl2.1.trans halike
          rw [hl2.2] at hmade hserver
          rw [hclients] at hmade hheard
          -- the rest of the loop starts with one message more
          refine attended_mono (fun r h4 z hr b hb => ?_)
            (ih (h := h3) (x := y) (hheard.keeps hreact hx) true (ho.alike halike)
              (by rw [hself, halike.clients]))
          obtain ⟨halike4, copies, hcopies, rfl, hserver4, hheard4⟩ := hr b hb
          rw [halike.clients] at hheard4
          refine ⟨halike.trans halike4, { m with status := status } :: copies, ?_, ?_, ?_, ?_⟩
          · rw [List.filter_cons_of_pos (by simpa [← hpem] using hne)]
            refine .cons ?_ ?_
            · rw [hself]
              exact hmade.setStatus status
            · simp only [getPublicKey_congr halike.users] at hcopies
              exact hcopies.imp fun u m hm => hm.alike halike
          · rw [Bool.true_or, List.isEmpty_cons, Bool.not_false, Bool.or_true]
          · rw [hserver4, hserver, List.foldl_cons]
          · rw [hself] at hheard4 ⊢
            exact hheard.trans hheard4

/-- A group message is sent to the members that have a key, if there are any. -/
theorem attended_sendGroupMessage (hreact : AttachedTo react c K) (hx : K x) (ha : Assumed env text)
    (ho : Online env c h.1) (groupId : Str) :
    env.system.attended react i (sendGroupMessage env c groupId text)
      (fun r h' y => ∀ b, r = .ok b → Alike h.1 h'.1 ∧ ∃ copies,
        List.Forall₂ (fun member =>
            Composed env h.1.server (h.1.clients c).username member groupId true text)
          ((h.1.server.getGroupMembers groupId).filter fun member =>
            h.1.server.getPublicKey member ≠ []) copies ∧
        b = !copies.isEmpty ∧
        h'.1.server = copies.foldl ChatServer.storeMessage h.1.server ∧
        Hears react c h.1.clients (copies.flatMap (ownEvents (h.1.clients c).username text)) x y)
      h x := by
  refine attended_step fun self h1 hself hh1 => ?_
  obtain rfl : self = h.1.clients c := hself
  rw [if_pos ho.loggedIn]
  refine attended_step fun members h2 hmembers hh2 => ?_
  obtain rfl : members = h.1.server.getGroupMembers groupId := by
    rw [hmembers, hh1]
    rfl
  split
  · next hnil =>
    intro b hb
    cases hb
    have halike : Alike h.1 h2.1 ∧ h2.1.server = h.1.server := by
      rw [hh2, hh1]
      exact ⟨⟨rfl, rfl, rfl, rfl⟩, rfl⟩
    refine ⟨halike.1, [], ?_, rfl, halike.2, .nil⟩
    rw [hnil]
    exact .nil
  · refine attended_step fun n h3 _ hh3 => ?_
    have hl3 : Alike h.1 h3.1 ∧ h3.1.server = h.1.server := by
      rw [hh3, hh2, hh1]
      exact ⟨⟨rfl, rfl, rfl, rfl⟩, rfl⟩
    refine attended_ofExcept_bind (fun r hr => ?_) fun e _ b hb => by cases hb
    have hsend := attended_sendCopies (h := h3) (i := i) hreact hx ha groupId
      ⟨_, (composePayload_eq_ok hr).2⟩ (h.1.server.getGroupMembers groupId) false (ho.alike hl3.1)
      (by rw [hl3.1.clients])
    rw [hl3.2, hl3.1.clients] at hsend
    refine attended_mono (fun r h4 y hr b hb => ?_) hsend
    obtain ⟨halike, hrest⟩ := hr b hb
    exact ⟨hl3.1.trans halike, hrest⟩

end Evlampy
