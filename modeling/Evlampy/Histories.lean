/-
Evlampy/Histories.lean

The two histories as views of one log.  Abstractly the server keeps a single
list of messages: storing appends, deleting for all removes every message of
the requester with the given id.  `Logged s L` says that the buckets of `s`
index `L`, direct messages by their conversation key and group messages by
their group, and both operations preserve it (`Logged.apply`).

A conversation is found by a key, `low::high` for the two names in order.  Two
pairs of names can have the same key when a name contains colons, and then
their conversations are one bucket.  `conversations_isolated_iff` says exactly
when that cannot happen: the key must have no second place to cut it.
-/
import Evlampy.ChatServer
import Mathlib.Data.Sym.Sym2

namespace Evlampy

open Cxx UnorderedMap

namespace ChatServer

/-! ### Histories and their log -/

/-- The operations that change the histories. -/
inductive HistoryOp
  | store (message : Message)
  | deleteForAll (requester messageId : Str)

/-- The operation on the server. -/
def HistoryOp.apply : HistoryOp → ChatServer → ChatServer
  | store message, s => s.storeMessage message
  | deleteForAll requester messageId, s => (s.deleteMessageForAll requester messageId).2

/-- The operation on the abstract log. -/
def HistoryOp.applyLog : HistoryOp → List Message → List Message
  | store message, L => L ++ [message]
  | deleteForAll requester messageId, L =>
      L.filter fun m => ¬ (m.messageId = messageId ∧ m.sender = requester)

/-- The server after a run of operations on a new one. -/
def replay (ops : List HistoryOp) : ChatServer :=
  ops.foldl (fun s op => op.apply s) empty

/-- The log after the same run. -/
def logOf (ops : List HistoryOp) : List Message :=
  ops.foldl (fun L op => op.applyLog L) []

/-- The bucket of the direct history a message belongs to. -/
def directKey (m : Message) : Option Str :=
  if m.isGroupMessage then none else some (makeConversationKey m.sender m.receiver)

/-- The bucket of the group history a message belongs to. -/
def groupKey (m : Message) : Option Str :=
  if m.isGroupMessage then some m.chatId else none

/-- The histories of `s` are the views of the log `L`. -/
structure Logged (s : ChatServer) (L : List Message) : Prop where
  direct : Indexes directKey s.history L
  group : Indexes groupKey s.groupHistory L

theorem logged_empty : Logged empty [] := ⟨.empty, .empty⟩

variable {s : ChatServer} {L : List Message}

/-- The log depends on the two histories only. -/
theorem Logged.congr {s' : ChatServer} (h : Logged s L) (hdirect : s'.history = s.history)
    (hgroup : s'.groupHistory = s.groupHistory) : Logged s' L := by
  refine ⟨?_, ?_⟩
  · rw [hdirect]
    exact h.direct
  · rw [hgroup]
    exact h.group

theorem Logged.storeMessage (h : Logged s L) (m : Message) :
    Logged (s.storeMessage m) (L ++ [m]) := by
  cases hm : m.isGroupMessage with
  | true =>
      have hdirect : directKey m = none := by simp [directKey, hm]
      have hgroup : groupKey m = some m.chatId := by simp [groupKey, hm]
      simp only [ChatServer.storeMessage, hm, if_true]
      exact ⟨h.direct.append_of_none hdirect, h.group.pushBack hgroup⟩
  | false =>
      have hdirect : directKey m = some (makeConversationKey m.sender m.receiver) := by
        simp [directKey, hm]
      have hgroup : groupKey m = none := by simp [groupKey, hm]
      simp only [ChatServer.storeMessage, hm, Bool.false_eq_true, if_false]
      exact ⟨h.direct.pushBack hdirect, h.group.append_of_none hgroup⟩

theorem not_isTarget (requester messageId : Str) (m : Message) :
    (!isTarget requester messageId m)
      = decide (¬ (m.messageId = messageId ∧ m.sender = requester)) := by
  simp [isTarget]

theorem Logged.deleteMessageForAll (h : Logged s L) (requester messageId : Str) :
    Logged (s.deleteMessageForAll requester messageId).2
      (L.filter fun m => ¬ (m.messageId = messageId ∧ m.sender = requester)) := by
  have hfilter : (L.filter fun m => ¬ (m.messageId = messageId ∧ m.sender = requester))
      = L.filter fun m => !isTarget requester messageId m := by
    simp only [not_isTarget]
  rw [hfilter]
  exact ⟨h.direct.filterValues _, h.group.filterValues _⟩

/-- One operation keeps the histories in step with the log. -/
theorem Logged.apply (h : Logged s L) (op : HistoryOp) : Logged (op.apply s) (op.applyLog L) := by
  cases op with
  | store m => exact h.storeMessage m
  | deleteForAll requester messageId => exact h.deleteMessageForAll requester messageId

/-- Every run keeps the histories in step with the log. -/
theorem logged_replay (ops : List HistoryOp) : Logged (replay ops) (logOf ops) := by
  induction ops using List.reverseRecOn with
  | nil => exact logged_empty
  | append_singleton ops op ih =>
      rw [replay, logOf, List.foldl_append, List.foldl_append]
      exact ih.apply op

/-- Deleting succeeds exactly where the log holds a message to delete. -/
theorem Logged.deleteMessageForAll_fst (h : Logged s L) (requester messageId : Str) :
    (s.deleteMessageForAll requester messageId).1 = true ↔
      ∃ m ∈ L, m.messageId = messageId ∧ m.sender = requester := by
  have hkeys : ∀ m : Message, (directKey m).isSome ∨ (groupKey m).isSome := by
    intro m
    cases hm : m.isGroupMessage <;> simp [directKey, groupKey, hm]
  have htarget : ∀ m, (!isTarget requester messageId m) = false ↔
      m.messageId = messageId ∧ m.sender = requester := by
    intro m
    simp [isTarget]
  simp only [ChatServer.deleteMessageForAll, eraseIf_fst, Bool.false_or, Bool.or_eq_true,
    h.direct.shrinks_iff, h.group.shrinks_iff, htarget]
  constructor
  · rintro (⟨m, hm, -, ht⟩ | ⟨m, hm, -, ht⟩)
    · exact ⟨m, hm, ht⟩
    · exact ⟨m, hm, ht⟩
  · rintro ⟨m, hm, ht⟩
    rcases hkeys m with hk | hk
    · exact Or.inl ⟨m, hm, hk, ht⟩
    · exact Or.inr ⟨m, hm, hk, ht⟩

/-! ### Conversation keys -/

theorem makeConversationKey_comm (a b : Str) :
    makeConversationKey a b = makeConversationKey b a := by
  unfold makeConversationKey
  by_cases hab : a ≤ b
  · by_cases hba : b ≤ a
    · rw [List.le_antisymm hab hba]
    · rw [if_pos hab, if_neg hba]
  · rw [if_neg hab, if_pos ((List.le_total a b).resolve_left hab)]

theorem getConversation_comm (s : ChatServer) (a b : Str) :
    s.getConversation a b = s.getConversation b a := by
  rw [getConversation, makeConversationKey_comm, getConversation]

/-- The key of a pair depends on the pair only. -/
theorem makeConversationKey_of_pair {a b x y : Str} (h : s(a, b) = s(x, y)) :
    makeConversationKey a b = makeConversationKey x y := by
  rcases Sym2.eq_iff.mp h with ⟨rfl, rfl⟩ | ⟨rfl, rfl⟩
  · rfl
  · exact makeConversationKey_comm _ _

theorem mem_getConversation (h : Logged s L) {a b : Str} {m : Message} :
    m ∈ s.getConversation a b ↔ m ∈ L ∧ m.isGroupMessage = false ∧
      makeConversationKey m.sender m.receiver = makeConversationKey a b := by
  rw [getConversation, h.direct.mem_bucket]
  cases hm : m.isGroupMessage <;> simp [directKey, hm]

/-- A message is between `a` and `b`. -/
def Between (a b : Str) (m : Message) : Prop :=
  m.isGroupMessage = false ∧ s(m.sender, m.receiver) = s(a, b)

instance (a b : Str) (m : Message) : Decidable (Between a b m) :=
  inferInstanceAs (Decidable (_ ∧ _))

/-! ### Refinement -/

/-- **The histories are one append-only log with deletions.**  In every run the
messages between two users are in their conversation, in the order and the
multiplicity of the log; a conversation is the same from both sides; a group's
history is its part of the log; and deleting succeeds exactly where it shortens
the log. -/
theorem histories_refine_log (ops : List HistoryOp) :
    (∀ a b, (logOf ops).filter (fun m => Between a b m)
        = ((replay ops).getConversation a b).filter (fun m => Between a b m)) ∧
      (∀ a b, (replay ops).getConversation a b = (replay ops).getConversation b a) ∧
      (∀ g, (replay ops).getGroupConversation g
        = (logOf ops).filter fun m => m.isGroupMessage ∧ m.chatId = g) ∧
      ∀ requester messageId,
        ((replay ops).deleteMessageForAll requester messageId).1 = true ↔
          ((HistoryOp.deleteForAll requester messageId).applyLog (logOf ops)).length
            < (logOf ops).length := by
  have h := logged_replay ops
  refine ⟨?_, getConversation_comm _, ?_, ?_⟩
  · intro a b
    rw [getConversation, h.direct, List.filter_filter]
    apply List.filter_congr
    intro m _
    -- a message between `a` and `b` is in the bucket of their key
    by_cases hm : Between a b m
    · have hkey : directKey m = some (makeConversationKey a b) := by
        simp [directKey, hm.1, makeConversationKey_of_pair hm.2]
      simp [hm, hkey]
    · simp [hm]
  · intro g
    rw [getGroupConversation, h.group]
    apply List.filter_congr
    intro m _
    cases hm : m.isGroupMessage <;> simp [groupKey, hm]
  · intro requester messageId
    rw [h.deleteMessageForAll_fst requester messageId, HistoryOp.applyLog, List.length_filter_lt_length_iff_exists]
    simp

/-! ### Isolation -/

/-- The smaller and the greater of two names. -/
def low (x y : Str) : Str := if x ≤ y then x else y

/-- The other one. -/
def high (x y : Str) : Str := if x ≤ y then y else x

/-- In the text `low::high`, wherever else a `::` stands, what is before it is
greater than what is after it. -/
def Separated (x y : Str) : Prop :=
  ∀ l r, l ++ separator ++ r = low x y ++ separator ++ high x y → l ≠ low x y → ¬ l ≤ r

theorem makeConversationKey_eq (x y : Str) :
    makeConversationKey x y = low x y ++ separator ++ high x y := by
  unfold makeConversationKey low high
  split <;> rfl

theorem low_le_high (x y : Str) : low x y ≤ high x y := by
  unfold low high
  split
  · next h => exact h
  · next h => exact (List.le_total x y).resolve_left h

theorem pair_low_high (x y : Str) : s(low x y, high x y) = s(x, y) := by
  unfold low high
  split
  · rfl
  · exact Sym2.eq_swap

/-- The key determines the pair exactly where the names are separated. -/
theorem separated_iff {x y : Str} :
    Separated x y ↔
      ∀ a b, makeConversationKey x y = makeConversationKey a b → s(x, y) = s(a, b) := by
  constructor
  · intro hsep a b hkey
    rw [makeConversationKey_eq, makeConversationKey_eq] at hkey
    -- any other cut of the key would be one `Separated` excludes
    have hlow : low a b = low x y := by
      by_contra hne
      exact hsep _ _ hkey.symm hne (low_le_high a b)
    rw [hlow] at hkey
    have hhigh : high x y = high a b := List.append_cancel_left hkey
    rw [← pair_low_high x y, ← pair_low_high a b, hlow, hhigh]
  · intro hinj l r hcut hne hle
    have hkey : makeConversationKey x y = makeConversationKey l r := by
      rw [makeConversationKey_eq, ← hcut, makeConversationKey, if_pos hle]
    have hpair := hinj l r hkey
    rw [← pair_low_high x y] at hpair
    rcases Sym2.eq_iff.mp hpair with ⟨h, -⟩ | ⟨hl, hr⟩
    · exact hne h.symm
    · -- the halves are in order both ways round, so they are equal
      have hxy := low_le_high x y
      rw [hl, hr] at hxy
      exact hne ((List.le_antisymm hle hxy).trans hl.symm)

/-- Every conversation of `s` holds stored messages between its two users only. -/
def Isolated (s : ChatServer) (stored : List Message) : Prop :=
  ∀ a b, ∀ m ∈ s.getConversation a b, m ∈ stored ∧ Between a b m

/-- The messages a run stores. -/
def storedIn (ops : List HistoryOp) : List Message :=
  ops.filterMap fun op => match op with
    | .store m => some m
    | .deleteForAll _ _ => none

theorem mem_storedIn {ops : List HistoryOp} {m : Message} :
    m ∈ storedIn ops ↔ HistoryOp.store m ∈ ops := by
  simp only [storedIn, List.mem_filterMap]
  constructor
  · rintro ⟨op, hop, h⟩
    cases op with
    | store m' => cases h; exact hop
    | deleteForAll _ _ => cases h
  · intro h
    exact ⟨_, h, rfl⟩

/-- What is in the log was stored. -/
theorem mem_storedIn_of_mem_logOf {ops : List HistoryOp} {m : Message} (h : m ∈ logOf ops) :
    m ∈ storedIn ops := by
  rw [mem_storedIn]
  induction ops using List.reverseRecOn with
  | nil => cases h
  | append_singleton ops op ih =>
      rw [logOf, List.foldl_append] at h
      rw [List.mem_append, List.mem_singleton]
      cases op with
      | store m' =>
          rcases List.mem_append.mp h with h | h
          · exact Or.inl (ih h)
          · rw [List.mem_singleton.mp h]
            exact Or.inr rfl
      | deleteForAll requester messageId => exact Or.inl (ih (List.mem_of_mem_filter h))

/-- **When conversations are isolated**: in every state of a run exactly where
the two names of every direct message it stores are separated. -/
theorem conversations_isolated_iff (ops : List HistoryOp) :
    (∀ n, Isolated (replay (ops.take n)) (storedIn (ops.take n))) ↔
      ∀ m, HistoryOp.store m ∈ ops → m.isGroupMessage = false → Separated m.sender m.receiver := by
  constructor
  · intro hiso m hm hdirect
    obtain ⟨before, rest, rfl⟩ := List.append_of_mem hm
    rw [separated_iff]
    intro a b hkey
    -- look at the state in which `m` has just been stored
    have hstate := hiso (before.length + 1)
    rw [List.take_length_add_append, List.take_one, List.head?_cons, Option.toList_some] at hstate
    have hlog := logged_replay (before ++ [HistoryOp.store m])
    have hmem : m ∈ logOf (before ++ [HistoryOp.store m]) := by
      rw [logOf, List.foldl_append]
      exact List.mem_append_right _ (List.mem_singleton.mpr rfl)
    exact (hstate a b m ((mem_getConversation hlog).mpr ⟨hmem, hdirect, hkey⟩)).2.2
  · intro hsep n a b m hm
    obtain ⟨hlog, hdirect, hkey⟩ := (mem_getConversation (logged_replay (ops.take n))).mp hm
    have hstored := mem_storedIn_of_mem_logOf hlog
    refine ⟨hstored, hdirect, ?_⟩
    have hop := List.mem_of_mem_take (mem_storedIn.mp hstored)
    exact separated_iff.mp (hsep m hop hdirect) a b hkey

/-- A direct message to a user with colons in the name. -/
def strayMessage : Message :=
  .build (str "1-1") 0 (str "a") (str "b::c") [1] [1] [1] [] false

/-- The message from `a` to `b::c` is in the conversation of `a::b` and `c`. -/
theorem conversations_leak :
    ¬ ∀ (ops : List HistoryOp) (a b : Str), ∀ m ∈ (replay ops).getConversation a b,
      m ∈ storedIn ops ∧ Between a b m := by
  intro h
  have hleak := h [.store strayMessage] (str "a::b") (str "c") strayMessage (by decide)
  exact absurd hleak.2.2 (by decide)

end ChatServer

end Evlampy
