/-
Evlampy/Groups.lean

Group messages.  A group send stores one copy for each member.  A copy in a
group's history belongs to a group that exists, and its receiver is a member;
its sender is one only if the client that sent it was, since the sending
function does not check (`group_history_members`).

The copies of one send have ids of their own, and deleting for all goes by the
id.  So deleting the copy a sender sees deletes that copy alone
(`delete_for_all_iff`).
-/
import Evlampy.Delivery

namespace Evlampy

open Cxx Callback System ChatServer

variable {env : Env} {names : ClientId → Str} {h : History} {i : Nat} {c : ClientId} {m : Message}
  {g text : Str}

theorem mem_getGroupConversation {s : ChatServer} {L : List Message} (hL : Logged s L) :
    m ∈ s.getGroupConversation g ↔ m ∈ L ∧ m.isGroupMessage = true ∧ m.chatId = g := by
  rw [getGroupConversation, hL.group.mem_bucket]
  cases hm : m.isGroupMessage <;> simp [groupKey, hm]

theorem mem_getGroupMembers {s : ChatServer} {record : GroupRecord}
    (hg : s.groups.lookup g = some record) {u : Str} :
    u ∈ s.getGroupMembers g ↔ u ∈ record.members := by
  unfold ChatServer.getGroupMembers
  rw [hg]
  exact mem_sortedFromSet

/-! ### Members -/

/-- Every group message was sent by some call of a client that was logged in, to
a group that existed, and its receiver is a member. -/
theorem Sends.groupMessage (hs : Sends env names h) (hm : m ∈ h.1.server.getGroupConversation g) :
    ∃ i c w text record, CalledAt h i ⟨c, .sendGroupMessage g text⟩ w ∧
      (w.clients c).loggedIn = true ∧ w.server.groups.lookup g = some record ∧
      h.1.server.groups.lookup g = some record ∧ m.chatId = g ∧ m.sender = names c ∧
      m.receiver ∈ record.members := by
  obtain ⟨L, hL, hmem⟩ := hs.log
  obtain ⟨hmL, hgroup, hchat⟩ := (mem_getGroupConversation hL).mp hm
  obtain ⟨i, hi⟩ := hmem m hmL
  obtain ⟨text, hcopy, -⟩ := hs.copies i m hi
  cases hcopy.origin with
  | direct c w sender loggedIn isGroup chatId called =>
      rw [hgroup] at isGroup
      cases isGroup
  | group c w record sender loggedIn isGroup called before now member =>
      rw [hchat] at called before now
      exact ⟨i, c, w, text, record, called, loggedIn, before, now, hchat, sender, member⟩

/-- Whoever is logged in and sends to a group that exists is a member of it. -/
def SentByMembers (names : ClientId → Str) (h : History) : Prop :=
  ∀ x ∈ h.2, ∀ c g text, x.act = .called ⟨c, .sendGroupMessage g text⟩ →
    (x.before.clients c).loggedIn = true → x.before.server.getGroupMembers g ≠ [] →
      names c ∈ x.before.server.getGroupMembers g

/-- A message in the history of a group is a message between members of it. -/
def AmongMembers (s : ChatServer) (g : Str) (m : Message) : Prop :=
  g ∈ s.groups ∧ m.chatId = g ∧ m.sender ∈ s.getGroupMembers g ∧ m.receiver ∈ s.getGroupMembers g

instance (s : ChatServer) (g : Str) (m : Message) : Decidable (AmongMembers s g m) :=
  inferInstanceAs (Decidable (_ ∧ _ ∧ _ ∧ _))

/-- **When only members post.**  In a run whose group sends are all by members,
every group history holds messages between members only, in every state the run
goes through. -/
theorem group_history_members (env : Env) (names : ClientId → Str) (disk : Str → Option Str)
    (ms : List (Move Exn Call)) (hby : SentByMembers names (env.run names disk ms).hist) :
    ∀ n g, ∀ m ∈ (env.run names disk (ms.take n)).hist.1.server.getGroupConversation g,
      AmongMembers (env.run names disk (ms.take n)).hist.1.server g m := by
  intro n g m hm
  have hs := sends_run env names disk (ms.take n)
  obtain ⟨i, c, w, text, record, ⟨x, hx, -, hact, rfl⟩, hlog, hbefore, hnow, hchat, hsender,
    hreceiver⟩ := hs.groupMessage hm
  have hmember : names c ∈ x.before.server.getGroupMembers g := by
    refine hby x (mem_run_of_take env.system _ ms n hx) c g text hact hlog ?_
    -- the receiver is a member, so there are some
    exact List.ne_nil_of_mem ((mem_getGroupMembers hbefore).mpr hreceiver)
  refine ⟨AList.lookup_isSome.mp (by rw [hnow]; rfl), hchat, ?_,
    (mem_getGroupMembers hnow).mpr hreceiver⟩
  rw [hsender, mem_getGroupMembers hnow]
  exact (mem_getGroupMembers hbefore).mp hmember

/-- Alice, Bob and Carol register; Alice makes a group with Bob. -/
def grouping : List (Move Exn Call) :=
  [.call ⟨0, .registerOnServer (str "pw")⟩, .call ⟨1, .registerOnServer (str "pw")⟩,
    .call ⟨2, .registerOnServer (str "pw")⟩, .call ⟨0, .login (str "pw")⟩,
    .call ⟨0, .createGroup (str "club") [str "bob"]⟩]

/-- The group send of a run, if an entry is one. -/
def groupSendOf (x : Entry Eff Notice Exn Call Value World) : Option (ClientId × Str) :=
  match x.act with
  | .called ⟨c, .sendGroupMessage g _⟩ => some (c, g)
  | _ => none

theorem sentByMembers_of_groupSendOf (hall : ∀ x ∈ h.2, ∀ s ∈ groupSendOf x,
    names s.1 ∈ x.before.server.getGroupMembers s.2) : SentByMembers names h := by
  intro x hx c g text hact _ _
  exact hall x hx (c, g) (by rw [groupSendOf, hact]; rfl)

/-- Alice sends to the group. -/
def groupSend : List (Move Exn Call) :=
  grouping ++ [.call ⟨0, .sendGroupMessage (str "group-1-club") (str "hi")⟩, .answer (.ok ())]

theorem group_history_members_sample :
    ∃ m ∈ (Env.reference.run Env.names Env.noFiles groupSend).hist.1.server.getGroupConversation
        (str "group-1-club"),
      AmongMembers (Env.reference.run Env.names Env.noFiles groupSend).hist.1.server
        (str "group-1-club") m := by
  have hby : SentByMembers Env.names (Env.reference.run Env.names Env.noFiles groupSend).hist :=
    sentByMembers_of_groupSendOf (by decide +kernel)
  have hne : (Env.reference.run Env.names Env.noFiles
      groupSend).hist.1.server.getGroupConversation (str "group-1-club") ≠ [] := by decide +kernel
  obtain ⟨m, hm⟩ := List.exists_mem_of_ne_nil _ hne
  exact ⟨m, hm, group_history_members Env.reference Env.names Env.noFiles groupSend hby 7 _ m hm⟩

/-- Carol, no member, sends to the group. -/
def intrusion : List (Move Exn Call) :=
  grouping ++ [.call ⟨0, .logout⟩, .call ⟨2, .login (str "pw")⟩,
    .call ⟨2, .sendGroupMessage (str "group-1-club") (str "hi")⟩]

/-- Her messages are in the group's history. -/
theorem group_history_intruder : ¬ ∀ ms g,
    ∀ m ∈ (Env.reference.run Env.names Env.noFiles ms).hist.1.server.getGroupConversation g,
      AmongMembers (Env.reference.run Env.names Env.noFiles ms).hist.1.server g m := by
  intro h
  exact absurd (h intrusion (str "group-1-club")) (by decide +kernel)

/-! ### Deleting for all -/

/-- What `deleteMessageForAll` of a client that is logged in does. -/
theorem step_deleteMessageForAll (env : Env) (cfg : Configuration) {messageId : Str}
    (hlog : (cfg.hist.1.clients c).loggedIn = true) (hid : messageId ≠ []) :
    (env.system.step cfg (.call ⟨c, .deleteMessageForAll messageId⟩)).hist
      = env.system.push (env.system.push (env.system.push
          (env.system.push cfg.hist cfg.next (.called ⟨c, .deleteMessageForAll messageId⟩))
          cfg.next (.did (.get c))) cfg.next
          (.did (.server (.deleteMessageForAll (cfg.hist.1.clients c).username messageId))))
          cfg.next (.returned (.ok (.bool (cfg.hist.1.server.deleteMessageForAll
            (cfg.hist.1.clients c).username messageId).1))) := by
  have hgo : ¬ ((cfg.hist.1.clients c).loggedIn = false ∨ messageId = []) := by
    rintro (hout | hnil)
    · rw [hlog] at hout
      cases hout
    · exact hid hnil
  show (env.system.advance cfg.next cfg.stack
    ((if (cfg.hist.1.clients c).loggedIn = false ∨ messageId = [] then pure false
      else Code.server (.deleteMessageForAll (cfg.hist.1.clients c).username messageId) :
        Code Bool) >>= fun b => pure (Value.bool b)) _).1 = _
  rw [if_neg hgo]
  rfl

/-- A message id is not the empty text that stands for none. -/
theorem messageId_ne_nil (env : Env) (k : Nat) : env.messageId k ≠ [] := by
  intro hnil
  have hdash : (45 : UInt8) ∈ env.messageId k := by
    apply List.mem_append_left
    apply List.mem_append_right
    decide
  rw [hnil] at hdash
  cases hdash

theorem getGroupConversation_delete {s : ChatServer} {L : List Message} (hL : Logged s L)
    {requester messageId : Str} :
    m ∈ (s.deleteMessageForAll requester messageId).2.getGroupConversation g ↔
      m ∈ s.getGroupConversation g ∧ ¬ (m.messageId = messageId ∧ m.sender = requester) := by
  rw [mem_getGroupConversation hL,
    mem_getGroupConversation (hL.deleteMessageForAll requester messageId), List.mem_filter,
    decide_eq_true_eq]
  constructor
  · rintro ⟨⟨hm, hkeep⟩, hrest⟩
    exact ⟨⟨hm, hrest⟩, hkeep⟩
  · rintro ⟨⟨hm, hrest⟩, hkeep⟩
    exact ⟨⟨hm, hkeep⟩, hrest⟩

/-- The copies of a group send are from the client that made it. -/
theorem Sends.sender_eq (hs : Sends env names h) {w : World}
    (hcalled : CalledAt h i ⟨c, .sendGroupMessage g text⟩ w) (hm : m ∈ copiesOf i h) :
    m.sender = names c := by
  obtain ⟨text', hcopy, -⟩ := hs.copies i m hm
  cases hcopy.origin with
  | direct d w' sender loggedIn isGroup chatId called => cases hs.called i _ _ _ _ called hcalled
  | group d w' record sender loggedIn isGroup called before now member =>
      cases hs.called i _ _ _ _ called hcalled
      exact sender

theorem Sends.messageId_ne_nil (hs : Sends env names h) (hm : m ∈ copiesOf i h) :
    m.messageId ≠ [] := by
  obtain ⟨text, ⟨⟨k, -, hid⟩, -, -⟩, -⟩ := hs.copies i m hm
  rw [hid]
  exact Evlampy.messageId_ne_nil env k

/-- **When delete-for-all deletes for all.**  A client that is logged in deletes
the message of its group send `i` under the id of the copy addressed to it.  The
deletion succeeds; and afterwards no member finds a copy of the send if and only
if before it the group's history held no copy addressed to another member. -/
theorem delete_for_all_iff (names : ClientId → Str) (disk : Str → Option Str)
    (ms : List (Move Exn Call)) (hf : env.FreshIds (env.run names disk ms).hist.1.draws) {w : World}
    (hcalled : CalledAt (env.run names disk ms).hist i ⟨c, .sendGroupMessage g text⟩ w)
    (hlog : ((env.run names disk ms).hist.1.clients c).loggedIn = true)
    (hm : m ∈ copiesOf i (env.run names disk ms).hist)
    (hshown : m ∈ (env.run names disk ms).hist.1.server.getGroupConversation g)
    (hown : m.receiver = names c) :
    resultOf (env.run names disk (ms ++ [.call ⟨c, .deleteMessageForAll m.messageId⟩])).hist
        = some (.bool true) ∧
      ((∀ member, ∀ m' ∈ ((env.run names disk
            (ms ++ [.call ⟨c, .deleteMessageForAll m.messageId⟩])).hist.1.server.getGroupConversation
              g).filter (fun m => m.receiver = member),
          m' ∉ copiesOf i (env.run names disk ms).hist) ↔
        ∀ m' ∈ (env.run names disk ms).hist.1.server.getGroupConversation g,
          m' ∈ copiesOf i (env.run names disk ms).hist → m'.receiver = names c) := by
  have hs := sends_run env names disk ms
  have hnamed := named_run env names disk ms
  obtain ⟨L, hL, hmem⟩ := hs.log
  have hstep := step_deleteMessageForAll env (env.run names disk ms) hlog
    (hs.messageId_ne_nil hm)
  rw [hnamed c] at hstep
  have hserver : (env.run names disk
      (ms ++ [.call ⟨c, .deleteMessageForAll m.messageId⟩])).hist.1.server
      = ((env.run names disk ms).hist.1.server.deleteMessageForAll (names c) m.messageId).2 := by
    rw [Env.run_append_singleton, hstep]
    rfl
  refine ⟨?_, ?_⟩
  · have hdeleted := (hL.deleteMessageForAll_fst (names c) m.messageId).mpr
      ⟨m, ((mem_getGroupConversation hL).mp hshown).1, rfl, hs.sender_eq hcalled hm⟩
    rw [Env.run_append_singleton, hstep, hdeleted]
    rfl
  · rw [hserver]
    constructor
    · intro hgone m' hm' hm'i
      by_contra hother
      -- another member's copy has an id of its own, so it is still there
      have hne : m'.messageId ≠ m.messageId := by
        intro he
        rw [List.inj_on_of_nodup_map (hs.ids hf i) hm'i hm he] at hother
        exact hother hown
      refine hgone m'.receiver m' (List.mem_filter.mpr ⟨?_, decide_eq_true rfl⟩) hm'i
      exact (getGroupConversation_delete hL).mpr ⟨hm', fun htarget => hne htarget.1⟩
    · intro honly member m' hm' hm'i
      obtain ⟨hkept, hnot⟩ := (getGroupConversation_delete hL).mp (List.mem_filter.mp hm').1
      -- a copy that is left would be the sender's own, which is gone
      have heq := List.inj_on_of_nodup_map (hs.receivers i) hm'i hm
        ((honly m' hkept hm'i).trans hown.symm)
      exact hnot ⟨congrArg Message.messageId heq, hs.sender_eq hcalled hm'i⟩

/-- Alice makes a group of her own and sends to it. -/
def monologue : List (Move Exn Call) :=
  [.call ⟨0, .registerOnServer (str "pw")⟩, .call ⟨0, .login (str "pw")⟩,
    .call ⟨0, .createGroup (str "solo") []⟩,
    .call ⟨0, .sendGroupMessage (str "group-1-solo") (str "hi")⟩, .answer (.ok ())]

/-- Her own copy is the only one, and it is deleted. -/
theorem delete_for_all_solo : ∃ m ∈ copiesOf 3
      (Env.reference.run Env.names Env.noFiles monologue).hist,
    ∀ member, ∀ m' ∈ ((Env.reference.run Env.names Env.noFiles
        (monologue ++ [.call ⟨0, .deleteMessageForAll m.messageId⟩])).hist.1.server.getGroupConversation
          (str "group-1-solo")).filter (fun m => m.receiver = member),
      m' ∉ copiesOf 3 (Env.reference.run Env.names Env.noFiles monologue).hist := by
  have hcall : ∃ x ∈ (Env.reference.run Env.names Env.noFiles monologue).hist.2, x.inst = 3 ∧
      callOf x.act = some ⟨0, .sendGroupMessage (str "group-1-solo") (str "hi")⟩ := by
    decide +kernel
  have hlog : ((Env.reference.run Env.names Env.noFiles monologue).hist.1.clients 0).loggedIn
      = true := by decide +kernel
  have hcopy : ∃ m ∈ copiesOf 3 (Env.reference.run Env.names Env.noFiles monologue).hist,
      m ∈ (Env.reference.run Env.names Env.noFiles monologue).hist.1.server.getGroupConversation
        (str "group-1-solo") ∧ m.receiver = Env.names 0 := by decide +kernel
  have honly : ∀ m' ∈ (Env.reference.run Env.names Env.noFiles
        monologue).hist.1.server.getGroupConversation (str "group-1-solo"),
      m' ∈ copiesOf 3 (Env.reference.run Env.names Env.noFiles monologue).hist →
        m'.receiver = Env.names 0 := by decide +kernel
  obtain ⟨w, hcalled⟩ := calledAt_of_callOf hcall
  obtain ⟨m, hm, hshown, hown⟩ := hcopy
  exact ⟨m, hm, (delete_for_all_iff Env.names Env.noFiles monologue Env.reference_freshIds hcalled
    hlog hm hshown hown).2.mpr honly⟩

/-- In a group of two, the other member keeps a copy. -/
theorem delete_for_all_leaves : ¬ ∀ ms i c g text m w,
    CalledAt (Env.reference.run Env.names Env.noFiles ms).hist i ⟨c, .sendGroupMessage g text⟩ w →
    ((Env.reference.run Env.names Env.noFiles ms).hist.1.clients c).loggedIn = true →
    m ∈ copiesOf i (Env.reference.run Env.names Env.noFiles ms).hist →
    m ∈ (Env.reference.run Env.names Env.noFiles ms).hist.1.server.getGroupConversation g →
    m.receiver = Env.names c →
    resultOf (Env.reference.run Env.names Env.noFiles
      (ms ++ [.call ⟨c, .deleteMessageForAll m.messageId⟩])).hist = some (.bool true) →
    ∀ member, ∀ m' ∈ ((Env.reference.run Env.names Env.noFiles
        (ms ++ [.call ⟨c, .deleteMessageForAll m.messageId⟩])).hist.1.server.getGroupConversation
          g).filter (fun m => m.receiver = member),
      m' ∉ copiesOf i (Env.reference.run Env.names Env.noFiles ms).hist := by
  intro h
  have hcall : ∃ x ∈ (Env.reference.run Env.names Env.noFiles groupSend).hist.2, x.inst = 5 ∧
      callOf x.act = some ⟨0, .sendGroupMessage (str "group-1-club") (str "hi")⟩ := by
    decide +kernel
  have hlog : ((Env.reference.run Env.names Env.noFiles groupSend).hist.1.clients 0).loggedIn
      = true := by decide +kernel
  have hcopy : ∃ m ∈ copiesOf 5 (Env.reference.run Env.names Env.noFiles groupSend).hist,
      m ∈ (Env.reference.run Env.names Env.noFiles groupSend).hist.1.server.getGroupConversation
        (str "group-1-club") ∧ m.receiver = Env.names 0 ∧ m.messageId = str "1-15" := by
    decide +kernel
  have hresult : resultOf (Env.reference.run Env.names Env.noFiles
      (groupSend ++ [.call ⟨0, .deleteMessageForAll (str "1-15")⟩])).hist = some (.bool true) := by
    decide +kernel
  have hleft : ∃ m' ∈ ((Env.reference.run Env.names Env.noFiles
        (groupSend ++ [.call ⟨0, .deleteMessageForAll (str "1-15")⟩])).hist.1.server.getGroupConversation
          (str "group-1-club")).filter (fun m => m.receiver = str "bob"),
      m' ∈ copiesOf 5 (Env.reference.run Env.names Env.noFiles groupSend).hist := by decide +kernel
  obtain ⟨w, hcalled⟩ := calledAt_of_callOf hcall
  obtain ⟨m, hm, hshown, hown, hid⟩ := hcopy
  obtain ⟨m', hm', hm'i⟩ := hleft
  rw [← hid] at hm' hresult
  exact h groupSend 5 0 _ _ m w hcalled hlog hm hshown hown hresult (str "bob") m' hm' hm'i

end Evlampy
