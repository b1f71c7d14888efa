/-
Evlampy/Interleavings.lean

Sends side by side.  Every client runs its calls on a thread of its own, and a
send is a series of separately locked steps: the lookup of a key, the snapshot of
a group's members, the lookup and the call of a handler, the store.  The threads
interleave between these steps in any way.

The histories are what the trace says they are (`logged_interleaving`): the log of
the stores in their order, less what was deleted.  Since the ids of messages are
never drawn twice, whoever draws them (`Filed`), every message stored is in the
history of its chat exactly once, unless its sender's deletion of its id came
later, and nothing else is in any history (`concurrent_sends`).  Where observers do
not call clients, the messages of one client stand in the order of its calls.

The sends and the deletion only read the members of the clients.  The theorem is
about all functions, but where a client logs in or registers while another one
calls its handler the program reads what is being written.
-/
import Evlampy.Delivery
import Evlampy.Parallel

namespace Evlampy

open Cxx Callback Prog System ChatServer

/-! ### Interleavings -/

/-- Calls of clients that share a server, each client on its own thread, from the
world `w`. -/
def Env.interleave (env : Env) (w : World) (ms : List (PoolMove Exn Call ClientId)) : History :=
  (env.system.runPool Call.client w ms).hist

/-- The history a message belongs to. -/
def chatOf (s : ChatServer) (m : Message) : List Message :=
  if m.isGroupMessage then s.getGroupConversation m.chatId
  else s.getConversation m.sender m.receiver

/-- Instance `i` has stored `m`; `later` is what has happened since. -/
def StoredSince (h : History) (i : Nat) (m : Message)
    (later : List (Entry Eff Notice Exn Call Value World)) : Prop :=
  ∃ w earlier, h.2 = later ++ ⟨i, .did (.server (.storeMessage m)), w⟩ :: earlier

/-- Instance `i` is a call that sends `m`. -/
inductive SentBy (names : ClientId → Str) (h : History) (i : Nat) (m : Message) : Prop
  | direct (c : ClientId) (text : Str) (sender : m.sender = names c)
      (isGroup : m.isGroupMessage = false) (call : IsCall h i ⟨c, .sendMessage m.receiver text⟩)
  | group (c : ClientId) (text : Str) (sender : m.sender = names c)
      (isGroup : m.isGroupMessage = true) (call : IsCall h i ⟨c, .sendGroupMessage m.chatId text⟩)

/-- One of the acts is the deletion of `m` by a call of its sender. -/
def DeletedIn (names : ClientId → Str) (h : History)
    (acts : List (Entry Eff Notice Exn Call Value World)) (m : Message) : Prop :=
  ∃ x ∈ acts, x.act = .did (.server (.deleteMessageForAll m.sender m.messageId)) ∧
    ∃ c, names c = m.sender ∧ IsCall h x.inst ⟨c, .deleteMessageForAll m.messageId⟩

variable {env : Env} {names : ClientId → Str} {h h' : History} {i j : Nat} {m : Message}
  {a : Act Eff Notice Exn Call Value}

/-! ### The log of a trace -/

/-- What an act erases: the requester and the id. -/
def erasedBy : Act Eff Notice Exn Call Value → Option (Str × Str)
  | .did (.server (.deleteMessageForAll requester messageId)) => some (requester, messageId)
  | _ => none

/-- What has been stored and not deleted, with the instance that stored it. -/
def logOfTrace : List (Entry Eff Notice Exn Call Value World) → List (Nat × Message)
  | [] => []
  | x :: t =>
      match storedBy x.act, erasedBy x.act with
      | some m, _ => logOfTrace t ++ [(x.inst, m)]
      | none, some e => (logOfTrace t).filter fun p => ¬ (p.2.messageId = e.2 ∧ p.2.sender = e.1)
      | none, none => logOfTrace t

theorem stored_of_storedBy (hm : storedBy a = some m) : a = .did (.server (.storeMessage m)) := by
  cases a with
  | did e =>
      cases e with
      | server q =>
          cases q with
          | storeMessage m' =>
              cases hm
              rfl
          | _ => cases hm
      | _ => cases hm
  | _ => cases hm

theorem erased_of_erasedBy {e : Str × Str} (he : erasedBy a = some e) :
    a = .did (.server (.deleteMessageForAll e.1 e.2)) := by
  cases a with
  | did e' =>
      cases e' with
      | server q =>
          cases q with
          | deleteMessageForAll requester messageId =>
              cases he
              rfl
          | _ => cases he
      | _ => cases he
  | _ => cases he

/-- An act that neither stores nor deletes leaves the histories alone. -/
theorem logged_after_of_none {w : World} {L : List Message} (hL : Logged w.server L)
    (hstore : storedBy a = none) (herase : erasedBy a = none) :
    Logged (env.system.after a w).server L := by
  cases a with
  | did e =>
      cases e with
      | server q =>
          have hchange := q.exec_change w.server
          show Logged (q.exec w.server).2 L
          revert hchange
          generalize (q.exec w.server).2 = s'
          intro hchange
          cases hchange with
          | stored m => cases hstore
          | deleted requester messageId => cases herase
          | _ => exact hL.congr rfl rfl
      | _ => exact hL.congr rfl rfl
  | _ => exact hL

theorem Logged.push (hL : Logged h.1.server ((logOfTrace h.2).map Prod.snd)) (i : Nat)
    (a : Act Eff Notice Exn Call Value) :
    Logged (env.system.push h i a).1.server
      ((logOfTrace (env.system.push h i a).2).map Prod.snd) := by
  show Logged (env.system.after a h.1).server ((logOfTrace (⟨i, a, h.1⟩ :: h.2)).map Prod.snd)
  rcases hstore : storedBy a with - | m
  · rcases herase : erasedBy a with - | e
    · simp only [logOfTrace, hstore, herase]
      exact logged_after_of_none hL hstore herase
    · simp only [logOfTrace, hstore, herase]
      obtain rfl := erased_of_erasedBy herase
      have hdelete := hL.deleteMessageForAll e.1 e.2
      rw [List.filter_map] at hdelete
      exact hdelete
  · simp only [logOfTrace, hstore]
    obtain rfl := stored_of_storedBy hstore
    rw [List.map_append]
    exact hL.storeMessage m

/-- Nested calls keep the log as well. -/
theorem logged_run (env : Env) (names : ClientId → Str) (disk : Str → Option Str)
    (ms : List (Move Exn Call)) : Logged (env.run names disk ms).hist.1.server
      ((logOfTrace (env.run names disk ms).hist.2).map Prod.snd) :=
  run_keeps env.system (I := fun h => Logged h.1.server ((logOfTrace h.2).map Prod.snd))
    logged_empty (fun _ => .of_push (fun i a _ hL => Logged.push hL i a) _)
    (fun i a _ _ hL => Logged.push hL i a) ms

/-- Calls are not restricted. -/
theorem body_allActs_true (env : Env) (q : Call) :
    (env.system.body q).AllActs (fun _ => True) fun _ => True :=
  .of_forall (fun _ => trivial) (fun _ => trivial) _

/-- **The histories are the log of the trace.** -/
theorem logged_interleaving (env : Env) {w : World} (hw : Logged w.server [])
    (ms : List (PoolMove Exn Call ClientId)) :
    Logged (env.interleave w ms).1.server ((logOfTrace (env.interleave w ms).2).map Prod.snd) :=
  pool_keeps env.system Call.client (P := fun _ _ => True)
    (I := fun h => Logged h.1.server ((logOfTrace h.2).map Prod.snd)) (body_allActs_true env) hw
    (fun _ _ i a hL _ => Logged.push hL i a) ms

/-- What one act does to the log. -/
theorem mem_logOfTrace_cons {x : Entry Eff Notice Exn Call Value World}
    {t : List (Entry Eff Notice Exn Call Value World)} :
    (i, m) ∈ logOfTrace (x :: t) ↔ (x.inst = i ∧ storedBy x.act = some m) ∨
      ((i, m) ∈ logOfTrace t ∧ erasedBy x.act ≠ some (m.sender, m.messageId)) := by
  rcases hstore : storedBy x.act with - | m'
  · rcases herase : erasedBy x.act with - | ⟨requester, messageId⟩
    · simp [logOfTrace, hstore, herase]
    · simp only [logOfTrace, hstore, herase, List.mem_filter, decide_eq_true_eq]
      constructor
      · rintro ⟨hmem, hne⟩
        refine Or.inr ⟨hmem, fun heq => hne ?_⟩
        cases heq
        exact ⟨rfl, rfl⟩
      · rintro (⟨-, e⟩ | ⟨hmem, hne⟩)
        · cases e
        · refine ⟨hmem, ?_⟩
          rintro ⟨rfl, rfl⟩
          exact hne rfl
  · have herase : erasedBy x.act = none := by
      rw [stored_of_storedBy hstore]
      rfl
    simp only [logOfTrace, hstore, herase, List.mem_append, List.mem_singleton, Prod.mk.injEq,
      Option.some.injEq]
    constructor
    · rintro (hmem | ⟨rfl, rfl⟩)
      · exact Or.inr ⟨hmem, fun e => by cases e⟩
      · exact Or.inl ⟨rfl, rfl⟩
    · rintro (⟨rfl, rfl⟩ | ⟨hmem, -⟩)
      · exact Or.inr ⟨rfl, rfl⟩
      · exact Or.inl hmem

/-- What is logged is what was stored lately, and what was logged before and has
not been deleted since. -/
theorem mem_logOfTrace_append {later t : List (Entry Eff Notice Exn Call Value World)} :
    (i, m) ∈ logOfTrace (later ++ t) ↔ (i, m) ∈ logOfTrace later ∨
      ((i, m) ∈ logOfTrace t ∧ ∀ x ∈ later, erasedBy x.act ≠ some (m.sender, m.messageId)) := by
  induction later with
  | nil => simp [logOfTrace]
  | cons x later ih =>
      rw [List.cons_append, mem_logOfTrace_cons, mem_logOfTrace_cons, ih, List.forall_mem_cons]
      tauto

/-- All messages that have been stored, the newest first. -/
def storesIn (t : List (Entry Eff Notice Exn Call Value World)) : List Message :=
  t.filterMap fun x => storedBy x.act

/-- The log is part of what was stored, in its order. -/
theorem logOfTrace_sublist (t : List (Entry Eff Notice Exn Call Value World)) :
    ((logOfTrace t).map Prod.snd).Sublist (storesIn t).reverse := by
  induction t with
  | nil => exact List.Sublist.slnil
  | cons x t ih =>
      rw [storesIn, List.filterMap_cons]
      rcases hstore : storedBy x.act with - | m
      · rcases herase : erasedBy x.act with - | e
        · simp only [logOfTrace, hstore, herase]
          exact ih
        · simp only [logOfTrace, hstore, herase]
          exact (List.filter_sublist.map Prod.snd).trans ih
      · simp only [logOfTrace, hstore]
        rw [List.map_append, List.reverse_cons]
        exact ih.append (List.Sublist.refl _)

theorem mem_storesIn {t : List (Entry Eff Notice Exn Call Value World)} (hmem : (i, m) ∈ logOfTrace t) :
    m ∈ storesIn t :=
  List.mem_reverse.mp ((logOfTrace_sublist t).subset (List.mem_map_of_mem hmem))

theorem inst_of_mem_logOfTrace {t : List (Entry Eff Notice Exn Call Value World)}
    {p : Nat × Message} (hp : p ∈ logOfTrace t) :
    ∃ x ∈ t, x.inst = p.1 ∧ storedBy x.act = some p.2 := by
  induction t with
  | nil => cases hp
  | cons x t ih =>
      rcases mem_logOfTrace_cons.mp hp with ⟨hinst, hact⟩ | ⟨hp, -⟩
      · exact ⟨x, List.mem_cons_self, hinst, hact⟩
      · obtain ⟨y, hy, hrest⟩ := ih hp
        exact ⟨y, List.mem_cons_of_mem _ hy, hrest⟩

/-- What orders the acts orders the log. -/
theorem pairwise_logOfTrace {S : Nat → Nat → Prop}
    {t : List (Entry Eff Notice Exn Call Value World)}
    (ht : t.Pairwise fun x y => S y.inst x.inst) :
    (logOfTrace t).Pairwise fun p p' => S p.1 p'.1 := by
  induction t with
  | nil => exact .nil
  | cons x t ih =>
      obtain ⟨hx, ht⟩ := List.pairwise_cons.mp ht
      rcases hstore : storedBy x.act with - | m
      · rcases herase : erasedBy x.act with - | e
        · simp only [logOfTrace, hstore, herase]
          exact ih ht
        · simp only [logOfTrace, hstore, herase]
          exact (ih ht).filter _
      · simp only [logOfTrace, hstore]
        refine List.pairwise_append.mpr ⟨ih ht, List.pairwise_singleton _ _, fun p hp p' hp' => ?_⟩
        obtain rfl := List.mem_singleton.mp hp'
        obtain ⟨y, hy, hinst, -⟩ := inst_of_mem_logOfTrace hp
        rw [← hinst]
        exact hx y hy

/-! ### Ids -/

/-- What is known of the trace: the ids of the messages are all different, the
numbers they are made of belong to the calls that stored them, messages are stored
by sends, and deletions are by calls of the requester. -/
structure Filed (env : Env) (names : ClientId → Str) (h : History) : Prop where
  ids : env.FreshIds h.1.draws → ((storesIn h.2).map Message.messageId).Nodup
  owned : ∀ i, ∀ m ∈ copiesOf i h, ∃ k, Owns h i k ∧ m.messageId = env.messageId k
  sent : ∀ i, ∀ m ∈ copiesOf i h, SentBy names h i m
  deleted : ∀ x ∈ h.2, ∀ e, erasedBy x.act = some e →
    ∃ c, names c = e.1 ∧ IsCall h x.inst ⟨c, .deleteMessageForAll e.2⟩

/-- What the sends rely on: numbers are drawn once, and clients keep their names. -/
structure Ready (names : ClientId → Str) (h : History) : Prop where
  drawn : Drawn h
  named : Named names h.1

/-- A message that instance `i` is about to store. -/
structure Drafted (env : Env) (names : ClientId → Str) (h : History) (i : Nat) (m : Message) :
    Prop where
  id : ∃ k, Owns h i k ∧ m.messageId = env.messageId k
  unused : env.FreshIds h.1.draws → ∀ m' ∈ copiesOf i h, m'.messageId ≠ m.messageId
  sent : SentBy names h i m

theorem SentBy.push (hs : SentBy names h i m) (j : Nat) (a : Act Eff Notice Exn Call Value) :
    SentBy names (env.system.push h j a) i m := by
  cases hs with
  | direct c text sender isGroup call => exact .direct c text sender isGroup (call.push j a)
  | group c text sender isGroup call => exact .group c text sender isGroup (call.push j a)

theorem mem_storesIn_iff : m ∈ storesIn h.2 ↔ ∃ i, m ∈ copiesOf i h := by
  simp only [storesIn, List.mem_filterMap, mem_copiesOf]
  constructor
  · rintro ⟨x, hx, hm⟩
    exact ⟨x.inst, x, hx, rfl, stored_of_storedBy hm⟩
  · rintro ⟨i, x, hx, -, ha⟩
    exact ⟨x, hx, by rw [ha]; rfl⟩

/-- An act that stores nothing, and deletes nothing that is not the requester's. -/
theorem Filed.push (hf : Filed env names h) (hstore : storedBy a = none)
    (herase : ∀ e, erasedBy a = some e →
      ∃ c, names c = e.1 ∧ IsCall h i ⟨c, .deleteMessageForAll e.2⟩) :
    Filed env names (env.system.push h i a) := by
  have hcopies : ∀ j, copiesOf j (env.system.push h i a) = copiesOf j h :=
    fun j => copiesOf_push_of_none hstore
  refine ⟨fun hfresh => ?_, fun j m hm => ?_, fun j m hm => ?_, fun x hx e he => ?_⟩
  · show ((storesIn (⟨i, a, h.1⟩ :: h.2)).map Message.messageId).Nodup
    rw [storesIn, List.filterMap_cons]
    simp only [hstore]
    exact hf.ids (hfresh.mono (Grows.push env h i a).draws)
  · rw [hcopies] at hm
    obtain ⟨k, hk, hid⟩ := hf.owned j m hm
    exact ⟨k, hk.mono (Grows.push env h i a), hid⟩
  · rw [hcopies] at hm
    exact (hf.sent j m hm).push i a
  · rcases List.mem_cons.mp hx with rfl | hx
    · obtain ⟨c, hc, hcall⟩ := herase e he
      exact ⟨c, hc, hcall.push i a⟩
    · obtain ⟨c, hc, hcall⟩ := hf.deleted x hx e he
      exact ⟨c, hc, hcall.push i a⟩

/-- Storing what has been drafted. -/
theorem Filed.store (hf : Filed env names h) (hr : Ready names h)
    (hd : Drafted env names h i m) :
    Filed env names (env.system.push h i (.did (.server (.storeMessage m)))) := by
  refine ⟨fun hfresh => ?_, fun j m' hm' => ?_, fun j m' hm' => ?_, fun x hx e he => ?_⟩
  · show (m.messageId :: (storesIn h.2).map Message.messageId).Nodup
    refine List.nodup_cons.mpr ⟨fun hmem => ?_, hf.ids hfresh⟩
    obtain ⟨m', hm', heq⟩ := List.mem_map.mp hmem
    obtain ⟨j, hj⟩ := mem_storesIn_iff.mp hm'
    -- the number of the id is of one call only
    obtain ⟨k, hk, hid⟩ := hd.id
    obtain ⟨k', hk', hid'⟩ := hf.owned j m' hj
    obtain rfl := hfresh k' (hr.drawn.drawn j k' hk') k (hr.drawn.drawn i k hk)
      (hid'.symm.trans (heq.trans hid))
    obtain rfl : j = i := hr.drawn.owner j i k' hk' hk
    exact hd.unused hfresh m' hj heq
  · rcases mem_copiesOf_stored.mp hm' with hm' | ⟨rfl, rfl⟩
    · obtain ⟨k, hk, hid⟩ := hf.owned j m' hm'
      exact ⟨k, hk.mono (Grows.push env h i _), hid⟩
    · obtain ⟨k, hk, hid⟩ := hd.id
      exact ⟨k, hk.mono (Grows.push env h i _), hid⟩
  · rcases mem_copiesOf_stored.mp hm' with hm' | ⟨rfl, rfl⟩
    · exact (hf.sent j m' hm').push i _
    · exact hd.sent.push i _
  · rcases List.mem_cons.mp hx with rfl | hx
    · cases he
    · obtain ⟨c, hc, hcall⟩ := hf.deleted x hx e he
      exact ⟨c, hc, hcall.push i _⟩

/-- Acts that store nothing leave a draft, whoever does them. -/
theorem Drafted.push (hd : Drafted env names h i m) (ha : j = i → storedBy a = none) :
    Drafted env names (env.system.push h j a) i m := by
  obtain ⟨⟨k, hk, hid⟩, hunused, hsent⟩ := hd
  refine ⟨⟨k, hk.mono (Grows.push env h j a), hid⟩, fun hfresh m' hm' => ?_, hsent.push j a⟩
  have hfresh' := hfresh.mono (Grows.push env h j a).draws
  rcases eq_or_ne j i with rfl | hne
  · rw [copiesOf_push_of_none (ha rfl)] at hm'
    exact hunused hfresh' m' hm'
  · rw [copiesOf_push_ne hne] at hm'
    exact hunused hfresh' m' hm'

theorem Drafted.others (hd : Drafted env names h i m) (ho : env.system.Others i h h') :
    Drafted env names h' i m := by
  induction ho with
  | refl => exact hd
  | tail _ hstep ih =>
      obtain ⟨j, a, hne, rfl⟩ := hstep
      exact ih.push fun e => absurd e hne

/-- The status is no part of a draft. -/
theorem Drafted.setStatus (hd : Drafted env names h i m) (status : MessageStatus) :
    Drafted env names h i { m with status := status } := by
  obtain ⟨hid, hunused, hsent⟩ := hd
  refine ⟨hid, hunused, ?_⟩
  cases hsent with
  | direct c text sender isGroup call => exact .direct c text sender isGroup call
  | group c text sender isGroup call => exact .group c text sender isGroup call

/-! ### Calls -/

variable {t c : ClientId}

/-- The weakest precondition of a call on the thread `t`. -/
abbrev ppre (env : Env) (names : ClientId → Str) (t : ClientId) (i : Nat) {α : Type} (p : Code α)
    (post : Except Exn α → History → Prop) (h : History) : Prop :=
  pwp env.system Call.client (fun _ _ => True) (Ready names) (Filed env names) t i p post h

theorem isCall_meanwhile {q : Call}
    (hm : Meanwhile env.system (fun _ _ => True) (Ready names) (Filed env names) i h h')
    (hc : IsCall h j q) : IsCall h' j q := by
  obtain ⟨x, hx, hinst, hact⟩ := hc
  exact ⟨x, (Grows.of_others hm.others).trace x hx, hinst, hact⟩

theorem ppre_deliver {q : Call} (hc : IsCall h i q) (hd : Drafted env names h i m) (toUser : Str) :
    ppre env names t i (ChatClient.deliver env c toUser m) (fun _ h' => IsCall h' i q) h := by
  refine pwp_ofExcept_bind (fun wire _ => ?_) fun _ _ => hc
  have hsend : ppre env names t i (ChatClient.send env c toUser wire)
      (fun _ h => IsCall h i q ∧ Drafted env names h i m) h := by
    refine pwp_of_allActs (K := fun h => IsCall h i q ∧ Drafted env names h i m)
      (fun h h' hm hK => ⟨isCall_meanwhile hm hK.1, hK.2.others hm.others⟩) ?_
      (ChatClient.send_allActs env c toUser wire) ⟨hc, hd⟩
    intro h' a _ hI hK ha _ hcalled
    -- the transport stores and deletes nothing
    have hquiet : storedBy a = none ∧ erasedBy a = none := by
      cases a with
      | did e =>
          have hacts := ha e rfl
          cases e with
          | server q => exact hacts.elim
          | _ => exact ⟨rfl, rfl⟩
      | _ => exact ⟨rfl, rfl⟩
    refine ⟨hI.push hquiet.1 ?_, hK.1.push i a, hK.2.push fun _ => hquiet.1⟩
    intro e he
    rw [hquiet.2] at he
    cases he
  refine pwp_bind (pwp_mono (fun r h1 hK => ?_) hsend)
  obtain ⟨hc1, hd1⟩ := hK
  rcases r with x | delivered
  · exact hc1
  · intro h2 hJ hI he
    have hc2 : IsCall h2 i q := isCall_meanwhile he.meanwhile hc1
    exact ⟨hI.store hJ ((hd1.others he.meanwhile.others).setStatus _), hc2.push i _⟩

/-- What is drawn is used by no message yet. -/
theorem drafted_of_draw {count k : Nat} (hr : Ready names h) (hf : Filed env names h)
    (hk : k < count) (hid : m.messageId = env.messageId (h.1.draws + k))
    (hs : SentBy names h i m) :
    Drafted env names (env.system.push h i (.did (.draw count))) i m := by
  refine ⟨⟨h.1.draws + k, ?_, hid⟩, fun hfresh m' hm' heq => ?_, hs.push i _⟩
  · exact owns_push.mpr (Or.inr ⟨rfl, count, rfl, Nat.le_add_right _ _,
      Nat.add_lt_add_left hk _⟩)
  · rw [copiesOf_push_of_none rfl] at hm'
    obtain ⟨k', hk', hid'⟩ := hf.owned i m' hm'
    have hlt := hr.drawn.drawn i k' hk'
    obtain rfl := hfresh k' (Nat.lt_of_lt_of_le hlt (Nat.le_add_right _ _)) (h.1.draws + k)
      (Nat.add_lt_add_left hk _) (hid'.symm.trans (heq.trans hid))
    exact absurd hlt (Nat.not_lt.mpr (Nat.le_add_right _ _))

/-- One act of a call, which neither stores nor deletes. -/
theorem ppre_quiet {α : Type} {e : Eff} {f : e.Res → Code α} {post : Except Exn α → History → Prop}
    {q : Call} (hc : IsCall h i q) (hstore : storedBy (.did e) = none)
    (herase : erasedBy (.did e) = none)
    (k : ∀ h' h'', Ready names h' → Filed env names h' → IsCall h' i q →
      h'' = env.system.push h' i (.did e) → ppre env names t i (f (e.exec env h'.1).1) post h'') :
    ppre env names t i ((Prog.act e : Code e.Res) >>= f) post h := by
  refine pwp_step fun h' h'' hJ hI he hh'' => ⟨?_, k h' h'' hJ hI (isCall_meanwhile he.meanwhile hc) hh''⟩
  subst hh''
  refine hI.push hstore fun e' he' => ?_
  rw [herase] at he'
  cases he'

theorem ppre_sendMessage {toUser text : Str} (hc : IsCall h i ⟨c, .sendMessage toUser text⟩) :
    ppre env names t i (ChatClient.sendMessage env c toUser text) (fun _ _ => True) h := by
  refine ppre_quiet hc rfl rfl fun h1 h2 hJ1 _ hc1 hh2 => ?_
  have hname : (h1.1.clients c).username = names c := hJ1.named c
  subst hh2
  split
  · refine ppre_quiet (hc1.push i _) rfl rfl fun h3 h4 _ _ hc3 hh4 => ?_
    subst hh4
    split
    · trivial
    · refine ppre_quiet (hc3.push i _) rfl rfl fun h5 h6 hJ5 hI5 hc5 hh6 => ?_
      subst hh6
      refine pwp_ofExcept_bind (fun m hm => ?_) fun _ _ => trivial
      obtain ⟨-, hid, hsender, rfl, -, hdirect⟩ := composeMessage_eq_ok hm
      have hsent : SentBy names h5 i m :=
        .direct c text (hsender.trans hname) hdirect hc5
      have hdraft := drafted_of_draw hJ5 hI5 (show 4 < 5 by decide) hid hsent
      refine pwp_bind (pwp_mono (fun r h' _ => ?_) (ppre_deliver (hc5.push i _) hdraft _))
      rcases r with x | _ <;> trivial
  · trivial

theorem ppre_sendCopies {self : ChatClient} (hname : self.username = names c)
    {groupId text : Str} {sessionKey payload : Bytes} (members : List Str)
    (hc : IsCall h i ⟨c, .sendGroupMessage groupId text⟩) (anySent : Bool) :
    ppre env names t i (ChatClient.sendCopies env c self groupId sessionKey payload members anySent)
      (fun _ _ => True) h := by
  induction members generalizing h anySent with
  | nil => trivial
  | cons member members ih =>
      refine ppre_quiet hc rfl rfl fun h1 h2 _ _ hc1 hh2 => ?_
      subst hh2
      split
      · exact ih (hc1.push i _) anySent
      · refine ppre_quiet (hc1.push i _) rfl rfl fun h3 h4 hJ3 hI3 hc3 hh4 => ?_
        subst hh4
        refine pwp_ofExcept_bind (fun m hm => ?_) fun _ _ => trivial
        obtain ⟨-, -, -, hid, hsender, -, rfl, hgroup⟩ := composeCopy_eq_ok hm
        have hsent : SentBy names h3 i m := .group c text (hsender.trans hname) hgroup hc3
        have hdraft := drafted_of_draw hJ3 hI3 (show 1 < 2 by decide) hid hsent
        refine pwp_bind (pwp_mono (fun r h5 hc5 => ?_) (ppre_deliver (hc3.push i _) hdraft _))
        rcases r with x | _
        · trivial
        · exact ih hc5 true

theorem ppre_sendGroupMessage {groupId text : Str}
    (hc : IsCall h i ⟨c, .sendGroupMessage groupId text⟩) :
    ppre env names t i (ChatClient.sendGroupMessage env c groupId text) (fun _ _ => True) h := by
  refine ppre_quiet hc rfl rfl fun h1 h2 hJ1 _ hc1 hh2 => ?_
  have hname : (h1.1.clients c).username = names c := hJ1.named c
  subst hh2
  split
  · refine ppre_quiet (hc1.push i _) rfl rfl fun h3 h4 _ _ hc3 hh4 => ?_
    subst hh4
    split
    · trivial
    · refine ppre_quiet (hc3.push i _) rfl rfl fun h5 h6 _ _ hc5 hh6 => ?_
      subst hh6
      exact pwp_ofExcept_bind (fun r _ => ppre_sendCopies hname _ (hc5.push i _) false)
        fun _ _ => trivial
  · trivial

/-- The only deletion is under the client's own name. -/
theorem ppre_deleteMessageForAll {messageId : Str}
    (hc : IsCall h i ⟨c, .deleteMessageForAll messageId⟩) :
    ppre env names t i (ChatClient.deleteMessageForAll c messageId) (fun _ _ => True) h := by
  refine ppre_quiet hc rfl rfl fun h1 h2 hJ1 _ hc1 hh2 => ?_
  have hname : (h1.1.clients c).username = names c := hJ1.named c
  subst hh2
  split
  · trivial
  · intro h3 _ hI3 he
    have hc3 : IsCall h3 i _ := isCall_meanwhile he.meanwhile (hc1.push i _)
    refine ⟨hI3.push rfl fun e he' => ?_, trivial⟩
    cases he'
    exact ⟨c, hname.symm, hc3⟩

/-- The functions that neither store nor delete. -/
def Op.Keeps : Op → Prop
  | .sendMessage .. => False
  | .sendGroupMessage .. => False
  | .deleteMessageForAll _ => False
  | _ => True

/-- An action that neither stores nor deletes. -/
def Eff.Keeps (e : Eff) : Prop := storedBy (.did e) = none ∧ erasedBy (.did e) = none

theorem body_keeps (env : Env) {q : Call} (hq : q.op.Keeps) :
    (q.body env).AllActs Eff.Keeps fun _ => True := by
  have hfoot := body_allActs env q
  obtain ⟨c, op⟩ := q
  have hreading : ∀ (self : ChatClient) (messages : List Message),
      (ChatClient.viewsOf env self messages [] >>= fun views =>
        (pure (Value.views views) : Code Value)).AllActs Eff.Keeps fun _ => True := fun self messages =>
    (ChatClient.viewsOf_allActs env (fun _ => ⟨rfl, rfl⟩) self messages []).bind fun _ => trivial
  cases op with
  | registerOnServer _ =>
      refine hfoot.mono (fun e he => ?_) fun _ _ => trivial
      cases e with
      | server q => cases q <;> first | exact ⟨rfl, rfl⟩ | exact he.elim
      | _ => exact ⟨rfl, rfl⟩
  | login _ =>
      refine hfoot.mono (fun e he => ?_) fun _ _ => trivial
      cases e with
      | server q => cases q <;> first | exact ⟨rfl, rfl⟩ | exact he.elim
      | _ => exact ⟨rfl, rfl⟩
  | logout =>
      refine hfoot.mono (fun e he => ?_) fun _ _ => trivial
      cases e with
      | server q => exact he.elim
      | _ => exact ⟨rfl, rfl⟩
  | sendMessage _ _ => exact hq.elim
  | sendGroupMessage _ _ => exact hq.elim
  | deleteMessageForAll _ => exact hq.elim
  | listUsers => exact ⟨⟨rfl, rfl⟩, fun _ => trivial⟩
  | username => exact ⟨⟨rfl, rfl⟩, fun _ => trivial⟩
  | isLoggedIn => exact ⟨⟨rfl, rfl⟩, fun _ => trivial⟩
  | getConversation peer =>
      exact ⟨⟨rfl, rfl⟩, fun self => ⟨⟨rfl, rfl⟩, fun messages => hreading self messages⟩⟩
  | getGroupConversation groupId =>
      exact ⟨⟨rfl, rfl⟩, fun self => ⟨⟨rfl, rfl⟩, fun messages => hreading self _⟩⟩
  | _ => exact ⟨⟨rfl, rfl⟩, fun _ => ⟨⟨rfl, rfl⟩, fun _ => trivial⟩⟩

/-- Every call keeps what is known of the trace. -/
theorem ppre_body (q : Call) (hc : IsCall h i q) :
    ppre env names q.client i (q.body env) (fun _ _ => True) h := by
  have hvalue : ∀ {p : Code Bool}, ppre env names q.client i p (fun _ _ => True) h →
      ppre env names q.client i (p >>= fun b => (pure (Value.bool b) : Code Value))
        (fun _ _ => True) h := by
    intro p hp
    refine pwp_bind (pwp_mono (fun r h' _ => ?_) hp)
    rcases r with x | b <;> trivial
  obtain ⟨c, op⟩ := q
  by_cases hop : op.Keeps
  · refine pwp_of_allActs (K := fun _ => True) (fun _ _ _ _ => trivial) ?_ (body_keeps env hop) trivial
    intro h' a _ hI' _ ha _ hcalled
    refine ⟨hI'.push ?_ fun e he => ?_, trivial⟩
    · cases a with
      | did e => exact (ha e rfl).1
      | _ => rfl
    · cases a with
      | did e' =>
          rw [(ha e' rfl).2] at he
          cases he
      | _ => cases he
  · cases op with
    | sendMessage toUser text => exact hvalue (ppre_sendMessage hc)
    | sendGroupMessage groupId text => exact hvalue (ppre_sendGroupMessage hc)
    | deleteMessageForAll messageId => exact hvalue (ppre_deleteMessageForAll hc)
    | _ => exact absurd trivial hop

/-! ### Runs -/

/-- The names of the clients of a world. -/
def World.usernames (w : World) (c : ClientId) : Str := (w.clients c).username

theorem ready_interleaving (env : Env) (w : World) (ms : List (PoolMove Exn Call ClientId)) :
    Ready w.usernames (env.interleave w ms) := by
  refine pool_keeps env.system Call.client (P := fun _ _ => True) (I := Ready w.usernames)
    (body_allActs_true env) ⟨⟨?_, ?_⟩, fun c => rfl⟩ ?_ ms
  · rintro i k ⟨x, hx, -⟩
    cases hx
  · rintro i j k ⟨x, hx, -⟩
    cases hx
  · intro q h i a hr _
    refine ⟨hr.drawn.push i a, fun c => ?_⟩
    cases a with
    | did e => exact (exec_username env e h.1 c).trans (hr.named c)
    | _ => exact hr.named c

theorem filed_interleaving (env : Env) (w : World) (ms : List (PoolMove Exn Call ClientId)) :
    Filed env w.usernames (env.interleave w ms) := by
  refine pool_invariant env.system Call.client (P := fun _ _ => True) (J := Ready w.usernames)
    (I := Filed env w.usernames) (body_allActs_true env) (ready_interleaving env w) ?_ ?_ ms
  · refine ⟨fun _ => .nil, fun i m hm => ?_, fun i m hm => ?_, fun x hx => ?_⟩
    · cases hm
    · cases hm
    · cases hx
  · intro q h i _ hI _ _
    have hI' : Filed env w.usernames (env.system.push h i (.called q)) :=
      hI.push rfl fun _ e => by cases e
    refine ⟨hI', pwp_mono (fun r h' _ h'' _ hI'' _ => ?_)
      (ppre_body q ⟨_, List.mem_cons_self, rfl, rfl⟩)⟩
    exact hI''.push rfl fun _ e => by cases e

/-! ### The histories -/

/-- Whatever erases a message is its sender's deletion. -/
theorem Filed.deletedIn_iff (hf : Filed env names h)
    {later earlier : List (Entry Eff Notice Exn Call Value World)} (ht : h.2 = later ++ earlier) :
    DeletedIn names h later m ↔ ∃ x ∈ later, erasedBy x.act = some (m.sender, m.messageId) := by
  constructor
  · rintro ⟨x, hx, hact, -⟩
    exact ⟨x, hx, by rw [hact]; rfl⟩
  · rintro ⟨x, hx, he⟩
    refine ⟨x, hx, erased_of_erasedBy he, hf.deleted x ?_ _ he⟩
    rw [ht]
    exact List.mem_append_left _ hx

/-- The history of a chat is the part of the log that belongs to it. -/
theorem chatOf_eq {s : ChatServer} {L : List Message} (hL : Logged s L) (m : Message) :
    ∃ p : Message → Bool, chatOf s m = L.filter p ∧ p m = true := by
  rw [chatOf]
  cases hm : m.isGroupMessage with
  | true =>
      refine ⟨_, hL.group m.chatId, ?_⟩
      simp [groupKey, hm]
  | false =>
      refine ⟨_, hL.direct (makeConversationKey m.sender m.receiver), ?_⟩
      simp [directKey, hm]

/-- A message is logged once, exactly where its sender has not deleted it since it
was stored. -/
theorem Filed.logged_iff (hf : Filed env names h) (hfresh : env.FreshIds h.1.draws)
    {later : List (Entry Eff Notice Exn Call Value World)} (hs : StoredSince h i m later)
    {m' : Message} :
    (m' ∈ (logOfTrace h.2).map Prod.snd ∧ m'.messageId = m.messageId) ↔
      (m' = m ∧ ¬ DeletedIn names h later m) := by
  obtain ⟨w, earlier, ht⟩ := hs
  rw [hf.deletedIn_iff ht]
  have hstores : storesIn h.2 = storesIn later ++ m :: storesIn earlier := by
    rw [ht, storesIn, List.filterMap_append]
    rfl
  have hids := hf.ids hfresh
  rw [hstores, List.map_append, List.map_cons, List.nodup_middle, List.nodup_cons,
    List.mem_append, not_or] at hids
  obtain ⟨⟨hlater, hearlier⟩, -⟩ := hids
  constructor
  · rintro ⟨hmem, hid⟩
    obtain ⟨⟨j, m'⟩, hlog, rfl⟩ := List.mem_map.mp hmem
    rw [ht] at hlog
    rcases mem_logOfTrace_append.mp hlog with hlog | ⟨hlog, hkept⟩
    · exact absurd (List.mem_map.mpr ⟨m', mem_storesIn hlog, hid⟩) hlater
    · rcases mem_logOfTrace_cons.mp hlog with ⟨-, hact⟩ | ⟨hlog, -⟩
      · cases hact
        refine ⟨rfl, ?_⟩
        rintro ⟨x, hx, he⟩
        exact hkept x hx he
      · exact absurd (List.mem_map.mpr ⟨m', mem_storesIn hlog, hid⟩) hearlier
  · rintro ⟨rfl, hkept⟩
    refine ⟨List.mem_map.mpr ⟨(i, m'), ?_, rfl⟩, rfl⟩
    rw [ht]
    refine mem_logOfTrace_append.mpr (Or.inr ⟨mem_logOfTrace_cons.mpr (Or.inl ⟨rfl, rfl⟩), ?_⟩)
    exact fun x hx he => hkept ⟨x, hx, he⟩

/-- **Nothing is lost and nothing is doubled**: every message stored was stored by
a send; it is in the history of its chat once, or not at all once its sender has
deleted it; and whatever is in a history was stored and belongs there. -/
structure Accounted (names : ClientId → Str) (h : History) : Prop where
  sent : ∀ i m later, StoredSince h i m later → SentBy names h i m
  once : ∀ i m later, StoredSince h i m later → ¬ DeletedIn names h later m →
    (chatOf h.1.server m).filter (fun m' => m'.messageId = m.messageId) = [m]
  gone : ∀ i m later, StoredSince h i m later → DeletedIn names h later m →
    (chatOf h.1.server m).filter (fun m' => m'.messageId = m.messageId) = []
  direct : ∀ k, ∀ m ∈ UnorderedMap.bucket h.1.server.history k,
    directKey m = some k ∧ ∃ i later, StoredSince h i m later
  group : ∀ k, ∀ m ∈ UnorderedMap.bucket h.1.server.groupHistory k,
    groupKey m = some k ∧ ∃ i later, StoredSince h i m later

/-- The messages of one client stand in the order of the calls that stored them. -/
def InCallOrder (h : History) (messages : List Message) : Prop :=
  messages.Pairwise fun m m' => ∀ i j later later', StoredSince h i m later →
    StoredSince h j m' later' → InOrder Call.client h i j

theorem StoredSince.isCopy {later : List (Entry Eff Notice Exn Call Value World)}
    (hs : StoredSince h i m later) : m ∈ copiesOf i h := by
  obtain ⟨w, earlier, ht⟩ := hs
  refine mem_copiesOf.mpr ⟨⟨i, .did (.server (.storeMessage m)), w⟩, ?_, rfl, rfl⟩
  rw [ht]
  exact List.mem_append_right _ List.mem_cons_self

theorem storedSince_of_mem {L : List Message} (hL : L = (logOfTrace h.2).map Prod.snd)
    (hm : m ∈ L) : ∃ i later, StoredSince h i m later := by
  rw [hL] at hm
  obtain ⟨p, hp, rfl⟩ := List.mem_map.mp hm
  obtain ⟨⟨i, act, w⟩, hx, -, hact⟩ := inst_of_mem_logOfTrace hp
  obtain ⟨later, earlier, ht⟩ := List.append_of_mem hx
  obtain rfl := stored_of_storedBy hact
  exact ⟨i, later, w, earlier, ht⟩

theorem Filed.accounted (hf : Filed env names h) (hfresh : env.FreshIds h.1.draws)
    (hL : Logged h.1.server ((logOfTrace h.2).map Prod.snd)) : Accounted names h where
  sent i m later hs := hf.sent i m hs.isCopy
  once i m later hs hkept := by
    obtain ⟨p, hchat, hp⟩ := chatOf_eq hL m
    have hmem := ((hf.logged_iff hfresh hs).mpr ⟨rfl, hkept⟩).1
    rw [hchat]
    refine filter_eq_singleton ?_ (List.mem_filter.mpr ⟨hmem, hp⟩)
    have hsub := (List.filter_sublist (p := p)).trans (logOfTrace_sublist h.2)
    refine List.Nodup.sublist (hsub.map Message.messageId) ?_
    rw [List.map_reverse, List.nodup_reverse]
    exact hf.ids hfresh
  gone i m later hs hdeleted := by
    obtain ⟨p, hchat, -⟩ := chatOf_eq hL m
    rw [hchat, List.filter_eq_nil_iff]
    intro m' hm' hid
    have hlogged := (hf.logged_iff hfresh hs).mp
      ⟨List.mem_of_mem_filter hm', of_decide_eq_true hid⟩
    exact hlogged.2 hdeleted
  direct k m hm := by
    obtain ⟨hm, hk⟩ := hL.direct.mem_bucket.mp hm
    exact ⟨hk, storedSince_of_mem rfl hm⟩
  group k m hm := by
    obtain ⟨hm, hk⟩ := hL.group.mem_bucket.mp hm
    exact ⟨hk, storedSince_of_mem rfl hm⟩

/-- A message has one instance that has stored it. -/
theorem Filed.inst_eq (hf : Filed env names h) (hr : Ready names h)
    (hfresh : env.FreshIds h.1.draws) (hi : m ∈ copiesOf i h) (hj : m ∈ copiesOf j h) : i = j := by
  obtain ⟨k, hk, hid⟩ := hf.owned i m hi
  obtain ⟨k', hk', hid'⟩ := hf.owned j m hj
  obtain rfl := hfresh k (hr.drawn.drawn i k hk) k' (hr.drawn.drawn j k' hk') (hid.symm.trans hid')
  exact hr.drawn.owner i j k hk hk'

/-- The log, and so every history, is in the order of the acts. -/
theorem Filed.inCallOrder (hf : Filed env names h) (hr : Ready names h)
    (hfresh : env.FreshIds h.1.draws)
    (hacts : h.2.Pairwise fun x y => InOrder Call.client h y.inst x.inst) (p : Message → Bool) :
    InCallOrder h (((logOfTrace h.2).map Prod.snd).filter p) := by
  refine List.Pairwise.filter p (List.pairwise_map.mpr ?_)
  refine (pairwise_logOfTrace (S := InOrder Call.client h) hacts).imp_of_mem ?_
  intro x y hx hy hxy i j later later' hi hj
  have hcopy : ∀ {x : Nat × Message}, x ∈ logOfTrace h.2 → x.2 ∈ copiesOf x.1 h := by
    intro x hx
    obtain ⟨e, he, hinst, hact⟩ := inst_of_mem_logOfTrace hx
    exact mem_copiesOf.mpr ⟨e, he, hinst, stored_of_storedBy hact⟩
  rw [hf.inst_eq hr hfresh hi.isCopy (hcopy hx), hf.inst_eq hr hfresh hj.isCopy (hcopy hy)]
  exact hxy

/-- **Concurrent sends.**  From empty histories, however the calls of the clients
interleave: nothing is lost, nothing is doubled and nothing else is in the
histories; and where observers call no clients, the messages of each client stand
in every conversation and group in the order of its calls. -/
theorem concurrent_sends (env : Env) (w : World) (hw : Logged w.server [])
    (ms : List (PoolMove Exn Call ClientId))
    (hfresh : env.FreshIds (env.interleave w ms).1.draws) :
    Accounted w.usernames (env.interleave w ms) ∧
      (NoNesting env.system Call.client w ms →
        (∀ a b, InCallOrder (env.interleave w ms)
          ((env.interleave w ms).1.server.getConversation a b)) ∧
        ∀ g, InCallOrder (env.interleave w ms)
          ((env.interleave w ms).1.server.getGroupConversation g)) := by
  have hf := filed_interleaving env w ms
  have hr := ready_interleaving env w ms
  have hL := logged_interleaving env hw ms
  refine ⟨hf.accounted hfresh hL, fun hms => ?_⟩
  have hacts := (poolOrdered w ms hms).acts
  refine ⟨fun a b => ?_, fun g => ?_⟩
  · rw [getConversation, hL.direct]
    exact hf.inCallOrder hr hfresh hacts _
  · rw [getGroupConversation, hL.group]
    exact hf.inCallOrder hr hfresh hacts _

/-- Alice and Bob are logged in. -/
def opened : World := (Env.reference.run Env.names Env.noFiles opening).hist.1

/-- They send to each other at the same time, taking turns. -/
def crossing : List (PoolMove Exn Call ClientId) :=
  [.call ⟨0, .sendMessage (str "bob") (str "hi")⟩, .call ⟨1, .sendMessage (str "alice") (str "ho")⟩,
    .go 0, .go 1, .go 0, .go 1, .go 0, .go 1, .go 0, .go 1, .go 0, .go 1, .go 0, .go 1, .go 0, .go 1,
    .go 0, .go 1, .go 0, .go 1, .answer 0 (.ok ()), .answer 1 (.ok ()),
    .go 1, .go 0, .go 1, .go 0]

theorem crossing_noNesting : NoNesting Env.reference.system Call.client opened crossing := by
  intro before q rest heq
  rcases before with - | ⟨x, before⟩
  · cases heq
    rfl
  · rcases before with - | ⟨y, before⟩
    · cases heq
      rfl
    · -- the calls are the first two moves
      have hmem : PoolMove.call q ∈ (crossing.drop 2) := by
        rw [heq]
        show _ ∈ before ++ .call q :: rest
        exact List.mem_append_right _ List.mem_cons_self
      simp [crossing] at hmem

/-- Both messages are in their conversation. -/
theorem concurrent_sends_crossing : Accounted opened.usernames (Env.reference.interleave opened crossing) ∧
    InCallOrder (Env.reference.interleave opened crossing)
      ((Env.reference.interleave opened crossing).1.server.getConversation (str "alice") (str "bob")) ∧
    ((Env.reference.interleave opened crossing).1.server.getConversation
      (str "alice") (str "bob")).length = 2 := by
  have h := concurrent_sends Env.reference opened (logged_empty.congr rfl rfl) crossing
    Env.reference_freshIds
  exact ⟨h.1, (h.2 crossing_noNesting).1 _ _, by decide +kernel⟩

end Evlampy
