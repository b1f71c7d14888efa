/-
Evlampy/Observers.lean

`Subject`, the observers a client notifies.  `notify` walks through the vector of
observers by position while each of them may attach and detach, itself and
others: a detachment shifts whatever stands behind it one place to the front, and
an attachment for which the vector has no room moves all of it elsewhere.
`notify_survives_iff` says when every observer that stays is called exactly once
all the same.

An attachment is numbered, so that two attachments of one observer differ.  What
an observer does in a call is a list of edits, those of nested notifications
included, and whether it throws; it may depend on everything that has happened
before, so it is a function of how far the loop has come.
-/
import Mathlib.Data.List.Pairwise
import Mathlib.Logic.Function.Iterate

namespace Evlampy

/-- One call of `attach`; a null pointer may be attached as well. -/
structure Attachment (Observer : Type) where
  number : Nat
  observer : Option Observer
  deriving DecidableEq

/-- The vector of observers: its entries, how many it has room for, which block of
memory they are in, and the number of the next attachment. -/
structure Subject (Observer : Type) where
  observers : List (Attachment Observer)
  capacity : Nat
  buffer : Nat
  next : Nat
  fits : observers.length ≤ capacity
  fresh : ∀ a ∈ observers, a.number < next
  sorted : observers.Pairwise (·.number < ·.number)

namespace Subject

variable {Observer Event : Type}

theorem nodup (s : Subject Observer) : s.observers.Nodup :=
  s.sorted.imp fun h => by
    rintro rfl
    exact Nat.lt_irrefl _ h

variable [DecidableEq Observer]

/-! ### `attach` and `detach` -/

/-- `push_back`: a full vector moves to a new buffer. -/
def attach (grow : Nat → Nat) (s : Subject Observer) (observer : Option Observer) :
    Subject Observer where
  observers := s.observers ++ [⟨s.next, observer⟩]
  capacity :=
    if s.observers.length = s.capacity then max (s.capacity + 1) (grow s.capacity) else s.capacity
  buffer := if s.observers.length = s.capacity then s.buffer + 1 else s.buffer
  next := s.next + 1
  fits := by
    have h := s.fits
    rw [List.length_append, List.length_singleton]
    split
    · next hfull =>
        rw [hfull]
        exact Nat.le_max_left _ _
    · omega
  fresh := by
    intro a ha
    rcases List.mem_append.mp ha with ha | ha
    · exact Nat.lt_succ_of_lt (s.fresh a ha)
    · rw [List.mem_singleton.mp ha]
      exact Nat.lt_succ_self _
  sorted := by
    rw [List.pairwise_append]
    refine ⟨s.sorted, List.pairwise_singleton _ _, fun a ha b hb => ?_⟩
    rw [List.mem_singleton.mp hb]
    exact s.fresh a ha

/-- `erase` of what `std::remove` has moved to the end. -/
def detach (s : Subject Observer) (observer : Option Observer) : Subject Observer where
  observers := s.observers.filter (·.observer ≠ observer)
  capacity := s.capacity
  buffer := s.buffer
  next := s.next
  fits := Nat.le_trans (List.length_filter_le _ _) s.fits
  fresh a ha := s.fresh a (List.mem_filter.mp ha).1
  sorted := s.sorted.filter _

/-- What an observer can do to the list. -/
inductive Edit (Observer : Type)
  | attach (observer : Option Observer)
  | detach (observer : Option Observer)

/-- One edit, and the attachments it ends. -/
def edit (grow : Nat → Nat) (s : Subject Observer) :
    Edit Observer → Subject Observer × List (Attachment Observer)
  | .attach observer => (s.attach grow observer, [])
  | .detach observer => (s.detach observer, s.observers.filter (·.observer = observer))

/-- Edits one after another. -/
def perform (grow : Nat → Nat) (s : Subject Observer) :
    List (Edit Observer) → Subject Observer × List (Attachment Observer)
  | [] => (s, [])
  | e :: es =>
      ((perform grow (s.edit grow e).1 es).1,
        (s.edit grow e).2 ++ (perform grow (s.edit grow e).1 es).2)

/-! ### `notify` -/

/-- What a call of `onNotify` comes to. -/
structure Reply (Observer : Type) where
  edits : List (Edit Observer)
  throws : Bool

/-- How far the loop has got: it runs or has reached its end, an observer has thrown, or it has
read outside the list. -/
inductive Status
  | looping
  | thrown
  | outside
  deriving DecidableEq

/-- A call, and the attachments that ended in it. -/
structure Entry (Observer : Type) where
  notified : Attachment Observer
  detached : List (Attachment Observer)
  deriving DecidableEq

/-- The range-based `for` of `notify`: `position` and `stop` are its iterators into
`buffer`, both taken at the start. -/
structure Loop (Observer : Type) where
  subject : Subject Observer
  position : Nat
  stop : Nat
  buffer : Nat
  status : Status
  log : List (Entry Observer)

/-- Both iterators are taken here. -/
def start (s : Subject Observer) : Loop Observer where
  subject := s
  position := 0
  stop := s.observers.length
  buffer := s.buffer
  status := .looping
  log := []

/-- The entry at the loop's position, if that is still inside the list. -/
def Loop.entry (l : Loop Observer) : Option (Attachment Observer) :=
  if l.subject.buffer = l.buffer then l.subject.observers[l.position]? else none

/-- One turn of the loop. -/
def visit (grow : Nat → Nat) (onNotify : Nat → Observer → Event → Reply Observer) (event : Event)
    (l : Loop Observer) : Loop Observer :=
  if l.status = .looping ∧ l.position ≠ l.stop then
    match l.entry with
    | none => { l with status := .outside }
    | some a =>
        match a.observer with
        | none => { l with position := l.position + 1 }
        | some observer =>
            let reply := onNotify l.position observer event
            let edited := l.subject.perform grow reply.edits
            { l with
              subject := edited.1
              position := l.position + 1
              status := if reply.throws then .thrown else .looping
              log := l.log ++ [⟨a, edited.2⟩] }
  else l

/-- As many turns as there are elements at the start; those after the end of the loop do nothing. -/
def notify (grow : Nat → Nat) (onNotify : Nat → Observer → Event → Reply Observer) (event : Event)
    (s : Subject Observer) : Loop Observer :=
  (visit grow onNotify event)^[s.observers.length] s.start

/-! ### What is wanted -/

/-- All attachments that ended in the calls of a log. -/
def gone (log : List (Entry Observer)) : List (Attachment Observer) := log.flatMap Entry.detached

/-- The observers called, in order. -/
def notified (log : List (Entry Observer)) : List (Attachment Observer) := log.map Entry.notified

/-- An observer that is attached from the start on and not detached in any call of
the log. -/
def stays (s : Subject Observer) (log : List (Entry Observer)) (a : Attachment Observer) : Bool :=
  a ∈ s.observers ∧ a ∉ gone log ∧ a.observer ≠ none

/-- A notification that has survived what the observers did: the loop has not
left the list, whoever stays was called once for each attachment and in order, and
nobody was called after being detached. -/
structure Survives (s : Subject Observer) (l : Loop Observer) : Prop where
  inside : l.status ≠ .outside
  once : (notified l.log).filter (s.stays l.log) = s.observers.filter (s.stays l.log)
  after : ∀ before x later, l.log = before ++ x :: later → x.notified ∉ gone before

/-- A turn of the loop that does no harm: the vector is where it was and reaches
beyond the loop's position, and the call made there neither moves an attachment
in `keep` from behind the position to the front of it nor throws while one is
behind it. -/
def Harmless (grow : Nat → Nat) (onNotify : Nat → Observer → Event → Reply Observer)
    (event : Event) (keep : Attachment Observer → Bool) (l : Loop Observer) : Prop :=
  l.status = .looping → l.position < l.stop →
    l.subject.buffer = l.buffer ∧ l.position < l.subject.observers.length ∧
      ∀ a observer, l.subject.observers[l.position]? = some a → a.observer = some observer →
        ∀ b ∈ l.subject.observers.drop (l.position + 1), keep b = true →
          (onNotify l.position observer event).throws = false ∧
            b ∈ (l.subject.perform grow
              (onNotify l.position observer event).edits).1.observers.drop (l.position + 1)

variable {grow : Nat → Nat} {onNotify : Nat → Observer → Event → Reply Observer} {event : Event}
  {s : Subject Observer} {l : Loop Observer}

/-! ### Edits -/

/-- What is left of a list without some of its attachments. -/
def without (xs ended : List (Attachment Observer)) : List (Attachment Observer) :=
  xs.filter fun a => decide (a ∉ ended)

theorem mem_without {xs ended : List (Attachment Observer)} {a : Attachment Observer} :
    a ∈ without xs ended ↔ a ∈ xs ∧ a ∉ ended := by
  simp [without]

theorem without_nil (xs : List (Attachment Observer)) : without xs [] = xs := by
  simp [without]

theorem append_without (xs ys ended : List (Attachment Observer)) :
    without (xs ++ ys) ended = without xs ended ++ without ys ended :=
  List.filter_append ..

theorem without_append (xs ended ended' : List (Attachment Observer)) :
    without xs (ended ++ ended') = without (without xs ended) ended' := by
  rw [without, without, without, List.filter_filter]
  apply List.filter_congr
  intro a _
  simp [Bool.and_comm]

theorem detach_observers (s : Subject Observer) (observer : Option Observer) :
    (s.detach observer).observers =
      without s.observers (s.observers.filter (·.observer = observer)) := by
  apply List.filter_congr
  intro a ha
  simp [ha]

/-- Edits remove attachments from where they stand and add new ones at the end. -/
theorem perform_spec (grow : Nat → Nat) (s : Subject Observer) (es : List (Edit Observer)) :
    ∃ added, (s.perform grow es).1.observers =
        without s.observers (s.perform grow es).2 ++ added ∧
      ∀ a ∈ added, s.next ≤ a.number ∧ a ∉ (s.perform grow es).2 := by
  induction es generalizing s with
  | nil => exact ⟨[], by rw [perform, without_nil, List.append_nil], by simp⟩
  | cons e es ih =>
      cases e with
      | attach observer =>
          obtain ⟨added, hobs, hadded⟩ := ih (s.attach grow observer)
          simp only [perform, edit, List.nil_append]
          refine ⟨without [⟨s.next, observer⟩]
            ((s.attach grow observer).perform grow es).2 ++ added, ?_, ?_⟩
          · rw [hobs, ← List.append_assoc, ← append_without]
            rfl
          · intro a ha
            rcases List.mem_append.mp ha with ha | ha
            · obtain ⟨hmem, hlive⟩ := mem_without.mp ha
              rw [List.mem_singleton.mp hmem] at hlive ⊢
              exact ⟨Nat.le_refl _, hlive⟩
            · exact ⟨Nat.le_of_succ_le (hadded a ha).1, (hadded a ha).2⟩
      | detach observer =>
          obtain ⟨added, hobs, hadded⟩ := ih (s.detach observer)
          simp only [perform, edit]
          refine ⟨added, ?_, ?_⟩
          · rw [hobs, detach_observers, without_append]
          · intro a ha
            refine ⟨(hadded a ha).1, fun hgone => ?_⟩
            rcases List.mem_append.mp hgone with hgone | hgone
            · have hlt := s.fresh a (List.mem_filter.mp hgone).1
              exact absurd (hadded a ha).1 (Nat.not_le.mpr hlt)
            · exact (hadded a ha).2 hgone

theorem next_le_perform (grow : Nat → Nat) (s : Subject Observer) (es : List (Edit Observer)) :
    s.next ≤ (s.perform grow es).1.next := by
  induction es generalizing s with
  | nil => exact Nat.le_refl _
  | cons e es ih =>
      cases e with
      | attach observer => exact Nat.le_of_succ_le (ih (s.attach grow observer))
      | detach observer => exact ih (s.detach observer)

theorem number_lt_of_detached {es : List (Edit Observer)} {a : Attachment Observer}
    (h : a ∈ (s.perform grow es).2) : a.number < (s.perform grow es).1.next := by
  induction es generalizing s with
  | nil => cases h
  | cons e es ih =>
      rcases List.mem_append.mp h with h | h
      · have hnext := next_le_perform grow (s.edit grow e).1 es
        cases e with
        | attach observer => cases h
        | detach observer =>
            exact Nat.lt_of_lt_of_le (s.fresh a (List.mem_filter.mp h).1) hnext
      · exact ih h

/-- Removing attachments and adding others at the end moves nothing to the back. -/
theorem take_without_append (xs ended ys : List (Attachment Observer)) (m : Nat) :
    ∃ rest, (without xs ended ++ ys).take m = without (xs.take m) ended ++ rest ∧
      ∀ b ∈ rest, b ∈ without (xs.drop m) ended ++ ys := by
  have hsplit : without xs ended = without (xs.take m) ended ++ without (xs.drop m) ended := by
    rw [← append_without, List.take_append_drop]
  have hle : (without (xs.take m) ended).length ≤ m :=
    Nat.le_trans (List.length_filter_le _ _) (List.length_take_le _ _)
  refine ⟨(without (xs.drop m) ended ++ ys).take (m - (without (xs.take m) ended).length), ?_, ?_⟩
  · rw [hsplit, List.append_assoc, List.take_append, List.take_of_length_le hle]
  · exact fun b hb => List.mem_of_mem_take hb

/-! ### One turn -/

omit [DecidableEq Observer] in
theorem entry_eq_some {a : Attachment Observer} :
    l.entry = some a ↔
      l.subject.buffer = l.buffer ∧ l.subject.observers[l.position]? = some a := by
  unfold Loop.entry
  split
  · next h => simp [h]
  · next h => simp [h]

/-- What a turn can do. -/
theorem visit_cases (grow : Nat → Nat) (onNotify : Nat → Observer → Event → Reply Observer)
    (event : Event) (l : Loop Observer) :
    ((l.status ≠ .looping ∨ l.position = l.stop) ∧ visit grow onNotify event l = l) ∨
    (l.status = .looping ∧ l.position ≠ l.stop ∧
      ((l.entry = none ∧ visit grow onNotify event l = { l with status := .outside }) ∨
      (∃ a, l.entry = some a ∧ a.observer = none ∧
        visit grow onNotify event l = { l with position := l.position + 1 }) ∨
      ∃ a observer, l.entry = some a ∧ a.observer = some observer ∧
        visit grow onNotify event l = { l with
          subject := (l.subject.perform grow (onNotify l.position observer event).edits).1
          position := l.position + 1
          status := if (onNotify l.position observer event).throws then .thrown else .looping
          log := l.log ++
            [⟨a, (l.subject.perform grow (onNotify l.position observer event).edits).2⟩] })) := by
  by_cases h : l.status = .looping ∧ l.position ≠ l.stop
  · refine Or.inr ⟨h.1, h.2, ?_⟩
    simp only [visit, h, ne_eq, not_false_eq_true, and_self, if_true]
    rcases hentry : l.entry with - | a
    · exact Or.inl ⟨rfl, rfl⟩
    · rcases hobs : a.observer with - | observer
      · exact Or.inr (Or.inl ⟨a, rfl, hobs, by simp only [hobs]⟩)
      · exact Or.inr (Or.inr ⟨a, observer, rfl, hobs, by simp only [hobs]⟩)
  · refine Or.inl ⟨?_, by rw [visit, if_neg h]⟩
    by_cases hstatus : l.status = .looping
    · exact Or.inr (by_contra fun hne => h ⟨hstatus, hne⟩)
    · exact Or.inl hstatus

theorem log_visit (grow : Nat → Nat) (onNotify : Nat → Observer → Event → Reply Observer)
    (event : Event) (l : Loop Observer) :
    ∃ more, (visit grow onNotify event l).log = l.log ++ more := by
  rcases visit_cases grow onNotify event l with
    ⟨-, h⟩ | ⟨-, -, ⟨-, h⟩ | ⟨a, -, -, h⟩ | ⟨a, o, -, -, h⟩⟩
  · exact ⟨[], by rw [h, List.append_nil]⟩
  · exact ⟨[], by rw [h, List.append_nil]⟩
  · exact ⟨[], by rw [h, List.append_nil]⟩
  · exact ⟨_, by rw [h]⟩

omit [DecidableEq Observer] in
theorem gone_append (log more : List (Entry Observer)) :
    gone (log ++ more) = gone log ++ gone more :=
  List.flatMap_append

theorem gone_visit {a : Attachment Observer} (h : a ∈ gone l.log) :
    a ∈ gone (visit grow onNotify event l).log := by
  obtain ⟨more, hlog⟩ := log_visit grow onNotify event l
  rw [hlog, gone_append]
  exact List.mem_append_left _ h

/-! ### What every turn keeps -/

/-- A loop over the observers of `s`: it holds those that have not been detached so
far, in front of what was attached on the way, and nobody it has called was
detached before. -/
structure Tracks (s : Subject Observer) (l : Loop Observer) : Prop where
  stop : l.stop = s.observers.length
  position_le : l.position ≤ l.stop
  initial : ∃ added, l.subject.observers = without s.observers (gone l.log) ++ added ∧
    ∀ a ∈ added, s.next ≤ a.number
  live : ∀ a ∈ l.subject.observers, a ∉ gone l.log
  ended : ∀ a ∈ gone l.log, a.number < l.subject.next
  next_le : s.next ≤ l.subject.next
  after : ∀ before x later, l.log = before ++ x :: later → x.notified ∉ gone before

theorem tracks_start (s : Subject Observer) : Tracks s s.start where
  stop := rfl
  position_le := Nat.zero_le _
  initial := ⟨[], by rw [start, gone, List.flatMap_nil, without_nil, List.append_nil], by simp⟩
  live a _ := by simp [start, gone]
  ended a h := by simp [start, gone] at h
  next_le := Nat.le_refl _
  after before x later h := by simp [start] at h

theorem Tracks.visit (h : Tracks s l) : Tracks s (visit grow onNotify event l) := by
  rcases visit_cases grow onNotify event l with
    ⟨-, hv⟩ | ⟨-, hne, ⟨-, hv⟩ | ⟨a, -, -, hv⟩ | ⟨a, o, hentry, -, hv⟩⟩
  -- the loop has ended
  · rw [hv]
    exact h
  · rw [hv]
    exact ⟨h.stop, h.position_le, h.initial, h.live, h.ended, h.next_le, h.after⟩
  · rw [hv]
    have hle := h.position_le
    exact ⟨h.stop, Nat.lt_of_le_of_ne hle hne, h.initial, h.live, h.ended, h.next_le, h.after⟩
  · rw [hv]
    -- an observer is called, and edits the list in its call
    have hmem := List.mem_of_getElem? (entry_eq_some.mp hentry).2
    generalize (onNotify l.position o event).edits = es
    obtain ⟨new, hobs, hnew⟩ := perform_spec grow l.subject es
    obtain ⟨added, hinit, hadded⟩ := h.initial
    have hnext := next_le_perform grow l.subject es
    have hgone : gone (l.log ++ [⟨a, (l.subject.perform grow es).2⟩])
        = gone l.log ++ (l.subject.perform grow es).2 := by
      simp [gone]
    refine ⟨h.stop, Nat.lt_of_le_of_ne h.position_le hne, ?_, ?_, ?_, Nat.le_trans h.next_le hnext,
      ?_⟩
    · refine ⟨without added (l.subject.perform grow es).2 ++ new, ?_, ?_⟩
      · rw [hgone, without_append, hobs, hinit, append_without, List.append_assoc]
      · intro b hb
        rcases List.mem_append.mp hb with hb | hb
        · exact hadded b (mem_without.mp hb).1
        · exact Nat.le_trans h.next_le (hnew b hb).1
    · intro b hb
      dsimp only at hb ⊢
      rw [hobs] at hb
      rw [hgone, List.mem_append, not_or]
      rcases List.mem_append.mp hb with hb | hb
      · exact ⟨h.live b (mem_without.mp hb).1, (mem_without.mp hb).2⟩
      · -- what is new has a number of its own
        refine ⟨fun hold => ?_, (hnew b hb).2⟩
        exact absurd (h.ended b hold) (Nat.not_lt.mpr (hnew b hb).1)
    · intro b hb
      dsimp only at hb ⊢
      rw [hgone] at hb
      rcases List.mem_append.mp hb with hb | hb
      · exact Nat.lt_of_lt_of_le (h.ended b hb) hnext
      · exact number_lt_of_detached hb
    · intro before x later hlog
      dsimp only at hlog
      rcases List.eq_nil_or_concat later with rfl | ⟨later', y, rfl⟩
      · -- the call that was just made
        obtain ⟨rfl, hx⟩ := List.append_inj' hlog rfl
        rw [← (List.cons.inj hx).1]
        exact h.live a hmem
      · apply h.after before x later'
        have hsplit : l.log ++ [⟨a, (l.subject.perform grow es).2⟩]
            = (before ++ x :: later') ++ [y] := by
          rw [hlog]
          simp
        exact (List.append_inj' hsplit rfl).1

theorem tracks_iterate (grow : Nat → Nat) (onNotify : Nat → Observer → Event → Reply Observer)
    (event : Event) (s : Subject Observer) (k : Nat) :
    Tracks s ((visit grow onNotify event)^[k] s.start) := by
  induction k with
  | zero => exact tracks_start s
  | succ k ih =>
      rw [Function.iterate_succ_apply']
      exact ih.visit

/-- While the loop goes on, its position counts the turns. -/
theorem position_iterate {k : Nat} (hk : k ≤ s.observers.length)
    (h : ((visit grow onNotify event)^[k] s.start).status = .looping) :
    ((visit grow onNotify event)^[k] s.start).position = k := by
  induction k with
  | zero => rfl
  | succ k ih =>
      have hstop := (tracks_iterate grow onNotify event s k).stop
      rw [Function.iterate_succ_apply'] at h ⊢
      generalize (visit grow onNotify event)^[k] s.start = l at ih h hstop ⊢
      rcases visit_cases grow onNotify event l with
        ⟨hend, hv⟩ | ⟨hl, -, ⟨-, hv⟩ | ⟨a, -, -, hv⟩ | ⟨a, o, -, -, hv⟩⟩
      · rw [hv] at h
        rcases hend with hend | hend
        · exact absurd h hend
        · have hpos := ih (by omega) h
          omega
      · rw [hv] at h
        cases h
      · rw [hv]
        exact congrArg (· + 1) (ih (by omega) hl)
      · rw [hv]
        exact congrArg (· + 1) (ih (by omega) hl)

/-- What every turn keeps is kept from any turn on. -/
theorem iterate_of_le {P : Loop Observer → Prop}
    (hstep : ∀ l, P l → P (visit grow onNotify event l)) {j k : Nat} (hjk : j ≤ k)
    (h : P ((visit grow onNotify event)^[j] s.start)) :
    P ((visit grow onNotify event)^[k] s.start) := by
  induction hjk with
  | refl => exact h
  | step _ ih =>
      rw [Function.iterate_succ_apply']
      exact hstep _ ih

/-- What has been detached at some turn has been detached at the end. -/
theorem gone_iterate {a : Attachment Observer} {j k : Nat} (hjk : j ≤ k)
    (h : a ∈ gone ((visit grow onNotify event)^[j] s.start).log) :
    a ∈ gone ((visit grow onNotify event)^[k] s.start).log :=
  iterate_of_le (P := fun l => a ∈ gone l.log) (fun _ => gone_visit) hjk h

/-! ### Whoever stays -/

omit [DecidableEq Observer] in
theorem filter_eq_nil {xs : List (Attachment Observer)} {p : Attachment Observer → Bool}
    (h : ∀ a ∈ xs, p a = false) : xs.filter p = [] := by
  rw [List.filter_eq_nil_iff]
  intro a ha
  simp [h a ha]

theorem mem_of_stays {log : List (Entry Observer)} {a : Attachment Observer}
    (h : s.stays log a = true) : a ∈ s.observers ∧ a ∉ gone log ∧ a.observer ≠ none := by
  simpa [stays] using h

/-- What is attached on the way was not there at the start. -/
theorem not_stays_of_le {log : List (Entry Observer)} {a : Attachment Observer}
    (h : s.next ≤ a.number) : s.stays log a = false := by
  by_contra hstays
  have hlt := s.fresh a (mem_of_stays (by simpa using hstays)).1
  exact absurd h (Nat.not_le.mpr hlt)

/-- A log that goes on to `log'`. -/
def LeadsTo (l : Loop Observer) (log' : List (Entry Observer)) : Prop :=
  ∀ a ∈ gone l.log, a ∈ gone log'

section
variable {log : List (Entry Observer)}

/-- Removing what is not detached later on removes nobody who stays. -/
theorem filter_without {xs ended : List (Attachment Observer)}
    (h : ∀ a ∈ ended, a ∈ gone log) :
    (without xs ended).filter (s.stays log) = xs.filter (s.stays log) := by
  rw [without, List.filter_filter]
  apply List.filter_congr
  intro a _
  by_cases ha : s.stays log a = true
  · have hlive : a ∉ ended := fun hmem => (mem_of_stays ha).2.1 (h a hmem)
    simp [ha, hlive]
  · simp [ha]

/-- Whoever stays is in the list at every turn, in the order of the start. -/
theorem Tracks.filter_observers (h : Tracks s l) (hlog : LeadsTo l log) :
    l.subject.observers.filter (s.stays log) = s.observers.filter (s.stays log) := by
  obtain ⟨added, hinit, hadded⟩ := h.initial
  rw [hinit, List.filter_append, filter_without hlog,
    filter_eq_nil fun a ha => not_stays_of_le (hadded a ha), List.append_nil]

/-- At the end of the list the loop has passed everybody who stays. -/
theorem Tracks.filter_take (h : Tracks s l) (hlog : LeadsTo l log) :
    (l.subject.observers.take s.observers.length).filter (s.stays log)
      = s.observers.filter (s.stays log) := by
  rw [← h.filter_observers hlog]
  obtain ⟨added, hinit, hadded⟩ := h.initial
  have hnone : ∀ a ∈ added, s.stays log a = false :=
    fun a ha => not_stays_of_le (hadded a ha)
  have hle : (without s.observers (gone l.log)).length ≤ s.observers.length :=
    List.length_filter_le _ _
  rw [hinit, List.take_append, List.take_of_length_le hle, List.filter_append, List.filter_append,
    filter_eq_nil hnone, filter_eq_nil fun a ha => hnone a (List.mem_of_mem_take ha)]

/-- The calls to those who stay, so far: of all that the loop has passed. -/
def Caught (s : Subject Observer) (log : List (Entry Observer)) (l : Loop Observer) : Prop :=
  (notified l.log).filter (s.stays log)
    = (l.subject.observers.take l.position).filter (s.stays log)

/-- The edits of a harmless call leave in front of the loop's position those who
were there. -/
theorem filter_take_perform (h : Tracks s l) {es : List (Edit Observer)}
    (hlog : ∀ a ∈ (l.subject.perform grow es).2, a ∈ gone log) {m : Nat}
    (hback : ∀ b ∈ l.subject.observers.drop m, s.stays log b = true →
      b ∈ (l.subject.perform grow es).1.observers.drop m) :
    ((l.subject.perform grow es).1.observers.take m).filter (s.stays log)
      = (l.subject.observers.take m).filter (s.stays log) := by
  obtain ⟨new, hobs, hnew⟩ := perform_spec grow l.subject es
  obtain ⟨rest, htake, hrest⟩ :=
    take_without_append l.subject.observers (l.subject.perform grow es).2 new m
  have hnodup := (l.subject.perform grow es).1.nodup
  rw [← List.take_append_drop m (l.subject.perform grow es).1.observers] at hnodup
  rw [← hobs] at htake
  have hnone : ∀ b ∈ rest, s.stays log b = false := by
    intro b hb
    rcases List.mem_append.mp (hrest b hb) with hold | hnewer
    · by_contra hstays
      -- it stood behind the position, and still does
      have hdrop := hback b (mem_without.mp hold).1 (by simpa using hstays)
      have hfront : b ∈ (l.subject.perform grow es).1.observers.take m := by
        rw [htake]
        exact List.mem_append_right _ hb
      exact (List.nodup_append.mp hnodup).2.2 b hfront b hdrop rfl
    · exact not_stays_of_le (Nat.le_trans h.next_le (hnew b hnewer).1)
  rw [htake, List.filter_append, filter_without hlog, filter_eq_nil hnone, List.append_nil]

omit [DecidableEq Observer] in
theorem take_succ_of_entry {a : Attachment Observer} (h : l.entry = some a) :
    l.subject.observers.take (l.position + 1) = l.subject.observers.take l.position ++ [a] := by
  rw [List.take_add_one, (entry_eq_some.mp h).2, Option.toList_some]

/-- What is true of a loop that has done no harm so far. -/
structure Good (s : Subject Observer) (log : List (Entry Observer)) (l : Loop Observer) : Prop where
  inside : l.status ≠ .outside
  caught : l.status = .looping → Caught s log l
  complete : l.status = .thrown →
    (notified l.log).filter (s.stays log) = s.observers.filter (s.stays log)

theorem good_start (s : Subject Observer) : Good s log s.start where
  inside := by simp [start]
  caught _ := by simp [Caught, notified, start]
  complete h := by cases h

/-- **A harmless turn** leaves a good loop good. -/
theorem Good.visit (hgood : Good s log l) (h : Tracks s l)
    (hlog : LeadsTo (visit grow onNotify event l) log)
    (hharm : Harmless grow onNotify event (s.stays log) l) :
    Good s log (visit grow onNotify event l) := by
  have hbefore : LeadsTo l log := fun a ha => hlog a (gone_visit ha)
  rcases visit_cases grow onNotify event l with
    ⟨-, hv⟩ | ⟨hl, hne, ⟨hentry, hv⟩ | ⟨a, hentry, hnull, hv⟩ | ⟨a, o, hentry, hobserver, hv⟩⟩
  · rw [hv]
    exact hgood
  -- a harmless turn does not read outside the list
  · exfalso
    obtain ⟨hbuffer, hreach, -⟩ := hharm hl (Nat.lt_of_le_of_ne h.position_le hne)
    rw [Loop.entry, if_pos hbuffer, List.getElem?_eq_none_iff] at hentry
    exact absurd hreach (Nat.not_lt.mpr hentry)
  · rw [hv]
    -- an attachment without an observer is none that stays
    refine ⟨hgood.inside, fun _ => ?_, hgood.complete⟩
    have hno : s.stays log a = false := by simp [stays, hnull]
    show (notified l.log).filter _ = (l.subject.observers.take (l.position + 1)).filter _
    rw [hgood.caught hl, take_succ_of_entry hentry, List.filter_append,
      List.filter_cons_of_neg (by simp [hno]), List.filter_nil, List.append_nil]
  · obtain ⟨-, -, hcall⟩ := hharm hl (Nat.lt_of_le_of_ne h.position_le hne)
    have hcall := hcall a o (entry_eq_some.mp hentry).2 hobserver
    -- with this call, all that stay have been called up to here
    have hnow : (notified (l.log ++
          [⟨a, (l.subject.perform grow (onNotify l.position o event).edits).2⟩])).filter
          (s.stays log)
        = (l.subject.observers.take (l.position + 1)).filter (s.stays log) := by
      rw [notified, List.map_append, List.filter_append, ← notified, hgood.caught hl,
        take_succ_of_entry hentry, List.filter_append]
      rfl
    have hgone : ∀ b ∈ (l.subject.perform grow (onNotify l.position o event).edits).2,
        b ∈ gone log := by
      intro b hb
      apply hlog
      rw [hv]
      simp [gone, hb]
    rw [hv]
    refine ⟨?_, ?_, ?_⟩
    · dsimp only
      split
      · simp
      · simp
    · intro _
      show _ = (List.take (l.position + 1) _).filter _
      rw [hnow, filter_take_perform h hgone fun b hb hstays => (hcall b hb hstays).2]
    · intro hthrown
      dsimp only at hthrown ⊢
      -- an exception ends the loop, so nobody who stays may be left behind it
      have hnone : ∀ b ∈ l.subject.observers.drop (l.position + 1), s.stays log b = false := by
        intro b hb
        by_contra hstays
        have hnot := (hcall b hb (by simpa using hstays)).1
        simp [hnot] at hthrown
      calc (notified _).filter (s.stays log)
        _ = (l.subject.observers.take (l.position + 1)).filter (s.stays log) := hnow
        _ = (l.subject.observers.take (l.position + 1)
              ++ l.subject.observers.drop (l.position + 1)).filter (s.stays log) := by
            rw [List.filter_append, filter_eq_nil hnone, List.append_nil]
        _ = s.observers.filter (s.stays log) := by
            rw [List.take_append_drop, h.filter_observers hbefore]

end

/-! ### Whoever is passed over -/

/-- The loop has passed `b` without calling it. -/
def Missed (b : Attachment Observer) (l : Loop Observer) : Prop :=
  b ∉ notified l.log ∧ (l.status ≠ .looping ∨ b ∈ l.subject.observers.take l.position)

omit [DecidableEq Observer] in
theorem notMem_take_of_mem_drop {b : Attachment Observer} {m : Nat}
    (h : b ∈ s.observers.drop m) : b ∉ s.observers.take m := by
  intro htake
  have hnodup := s.nodup
  rw [← List.take_append_drop m s.observers] at hnodup
  exact (List.nodup_append.mp hnodup).2.2 b htake b h rfl

/-- Whoever stood in front of the loop's position does so after the call. -/
theorem mem_take_perform {es : List (Edit Observer)} {b : Attachment Observer} {m : Nat}
    (h : b ∈ s.observers.take m) (hlive : b ∉ (s.perform grow es).2) :
    b ∈ (s.perform grow es).1.observers.take m := by
  obtain ⟨new, hobs, -⟩ := perform_spec grow s es
  obtain ⟨rest, htake, -⟩ := take_without_append s.observers (s.perform grow es).2 new m
  rw [hobs, htake]
  exact List.mem_append_left _ (mem_without.mpr ⟨h, hlive⟩)

omit [DecidableEq Observer] in
theorem ne_of_mem_take {a b : Attachment Observer} (hentry : l.entry = some a)
    (h : b ∈ l.subject.observers.take l.position) : b ≠ a := by
  rintro rfl
  have hnodup := l.subject.nodup.sublist (List.take_sublist (l.position + 1) _)
  rw [take_succ_of_entry hentry] at hnodup
  exact (List.nodup_append.mp hnodup).2.2 b h b (List.mem_singleton_self b) rfl

/-- Who has been missed once is detached some time or missed for good. -/
theorem Missed.visit {b : Attachment Observer} (h : Missed b l) :
    b ∈ gone (visit grow onNotify event l).log ∨ Missed b (visit grow onNotify event l) := by
  rcases visit_cases grow onNotify event l with
    ⟨-, hv⟩ | ⟨hl, -, ⟨-, hv⟩ | ⟨a, hentry, -, hv⟩ | ⟨a, o, hentry, -, hv⟩⟩
  · rw [hv]
    exact Or.inr h
  · rw [hv]
    exact Or.inr ⟨h.1, Or.inl (by simp)⟩
  · have hfront := h.2.resolve_left (fun hne => hne hl)
    rw [hv]
    refine Or.inr ⟨h.1, Or.inr ?_⟩
    rw [take_succ_of_entry hentry]
    exact List.mem_append_left _ hfront
  · have hfront := h.2.resolve_left (fun hne => hne hl)
    rw [hv]
    by_cases hgone : b ∈ (l.subject.perform grow (onNotify l.position o event).edits).2
    · exact Or.inl (by simp [gone, hgone])
    · refine Or.inr ⟨?_, Or.inr (mem_take_perform ?_ hgone)⟩
      · simp only [notified, List.map_append, List.map_cons, List.map_nil, List.mem_append,
          List.mem_singleton, not_or]
        exact ⟨h.1, ne_of_mem_take hentry hfront⟩
      · rw [take_succ_of_entry hentry]
        exact List.mem_append_left _ hfront

/-- A loop that survives leaves nobody out who stays. -/
theorem Survives.not_missed (h : Survives s l) {b : Attachment Observer}
    (hstays : s.stays l.log b = true) : ¬ Missed b l := by
  intro hmissed
  have hmem : b ∈ s.observers.filter (s.stays l.log) :=
    List.mem_filter.mpr ⟨(mem_of_stays hstays).1, hstays⟩
  rw [← h.once] at hmem
  exact hmissed.1 (List.mem_filter.mp hmem).1

/-! ### The loop as a whole -/

theorem visit_of_outside (h : l.status = .outside) :
    (visit grow onNotify event l).status = .outside := by
  rcases visit_cases grow onNotify event l with ⟨-, hv⟩ | ⟨hl, -, -⟩
  · rw [hv, h]
  · rw [h] at hl
    cases hl

/-- **A turn of a loop that survives** does no harm. -/
theorem harmless_of_survives {k : Nat} (hk : k < s.observers.length)
    (hsurvives : Survives s (notify grow onNotify event s))
    (hgood : Good s (notify grow onNotify event s).log
      ((visit grow onNotify event)^[k] s.start)) :
    Harmless grow onNotify event (s.stays (notify grow onNotify event s).log)
      ((visit grow onNotify event)^[k] s.start) := by
  intro hl hlt
  -- what is true after this turn and kept by every turn is true at the end
  have hend : ∀ {P : Loop Observer → Prop},
      (∀ l, P l → P (visit grow onNotify event l)) →
      P (visit grow onNotify event ((visit grow onNotify event)^[k] s.start)) →
      P (notify grow onNotify event s) := by
    intro P hstep hP
    rw [← Function.iterate_succ_apply' (visit grow onNotify event) k s.start] at hP
    exact iterate_of_le hstep hk hP
  have hlive : ∀ {b : Attachment Observer}, s.stays (notify grow onNotify event s).log b = true →
      b ∉ gone (visit grow onNotify event ((visit grow onNotify event)^[k] s.start)).log :=
    fun hstays hgone => (mem_of_stays hstays).2.1 (hend (P := fun l => _ ∈ gone l.log)
      (fun _ => gone_visit) hgone)
  generalize (visit grow onNotify event)^[k] s.start = l at hgood hl hlt hend hlive ⊢
  rcases visit_cases grow onNotify event l with
    ⟨hstop, -⟩ | ⟨-, -, ⟨-, hv⟩ | ⟨a, hentry, hnull, -⟩ | ⟨a, o, hentry, hobserver, hv⟩⟩
  · rcases hstop with hstop | hstop
    · exact absurd hl hstop
    · exact absurd hstop (Nat.ne_of_lt hlt)
  · exfalso
    apply hsurvives.inside
    exact hend (P := fun l => l.status = .outside) (fun _ => visit_of_outside) (by rw [hv])
  · obtain ⟨hbuffer, hget⟩ := entry_eq_some.mp hentry
    refine ⟨hbuffer, (List.getElem?_eq_some_iff.mp hget).1, ?_⟩
    intro a' o hget' hobserver
    rw [hget] at hget'
    rw [← Option.some.inj hget', hnull] at hobserver
    cases hobserver
  · obtain ⟨hbuffer, hget⟩ := entry_eq_some.mp hentry
    refine ⟨hbuffer, (List.getElem?_eq_some_iff.mp hget).1, ?_⟩
    intro a' o' hget' hobserver' b hb hstays
    rw [hget] at hget'
    rw [← Option.some.inj hget', hobserver] at hobserver'
    cases hobserver'
    -- nobody behind the position has been called
    have hfront := notMem_take_of_mem_drop hb
    rw [take_succ_of_entry hentry, List.mem_append, not_or, List.mem_singleton] at hfront
    have hnot : b ∉ notified (visit grow onNotify event l).log := by
      rw [hv]
      simp only [notified, List.map_append, List.map_cons, List.map_nil, List.mem_append,
        List.mem_singleton, not_or]
      refine ⟨fun hcalled => hfront.1 ?_, hfront.2⟩
      have hmem : b ∈ (notified l.log).filter (s.stays (notify grow onNotify event s).log) :=
        List.mem_filter.mpr ⟨hcalled, hstays⟩
      rw [hgood.caught hl] at hmem
      exact (List.mem_filter.mp hmem).1
    by_contra hharm
    have hmissed : Missed b (visit grow onNotify event l) := by
      refine ⟨hnot, ?_⟩
      have hgone := hlive hstays
      rw [hv] at hgone ⊢
      cases hthrows : (onNotify l.position o event).throws with
      | true => exact Or.inl (by simp)
      | false =>
          right
          have hnodrop : b ∉ (l.subject.perform grow
              (onNotify l.position o event).edits).1.observers.drop (l.position + 1) :=
            fun hdrop => hharm ⟨hthrows, hdrop⟩
          have hmem : b ∈ (l.subject.perform grow
              (onNotify l.position o event).edits).1.observers := by
            obtain ⟨new, hobs, -⟩ :=
              perform_spec grow l.subject (onNotify l.position o event).edits
            rw [hobs]
            refine List.mem_append_left _ (mem_without.mpr ⟨List.mem_of_mem_drop hb, ?_⟩)
            exact fun hnow => hgone (by simp [gone, hnow])
          rw [← List.take_append_drop (l.position + 1) (l.subject.perform grow
            (onNotify l.position o event).edits).1.observers, List.mem_append] at hmem
          exact hmem.resolve_right hnodrop
    have hfinal := hend (P := fun l => b ∈ gone l.log ∨ Missed b l)
      (fun l h => h.elim (fun hg => Or.inl (gone_visit hg)) Missed.visit) (Or.inr hmissed)
    rcases hfinal with hgone | hmissed
    · exact (mem_of_stays hstays).2.1 hgone
    · exact hsurvives.not_missed hstays hmissed

/-- A loop without harmful turns is good at every turn. -/
theorem good_iterate {k : Nat} (hk : k ≤ s.observers.length)
    (h : ∀ j < k, Harmless grow onNotify event (s.stays (notify grow onNotify event s).log)
      ((visit grow onNotify event)^[j] s.start)) :
    Good s (notify grow onNotify event s).log ((visit grow onNotify event)^[k] s.start) := by
  induction k with
  | zero => exact good_start s
  | succ k ih =>
      have hgood := ih (by omega) fun j hj => h j (by omega)
      have hlog : LeadsTo ((visit grow onNotify event)^[k + 1] s.start)
          (notify grow onNotify event s).log := fun a ha => gone_iterate hk ha
      rw [Function.iterate_succ_apply'] at hlog ⊢
      exact hgood.visit (tracks_iterate grow onNotify event s k) hlog (h k (by omega))

/-- **A notification survives what its observers do** exactly if none of its turns
does harm. -/
theorem notify_survives_iff (grow : Nat → Nat)
    (onNotify : Nat → Observer → Event → Reply Observer) (event : Event) (s : Subject Observer) :
    Survives s (notify grow onNotify event s) ↔
      ∀ k < s.observers.length,
        Harmless grow onNotify event (s.stays (notify grow onNotify event s).log)
          ((visit grow onNotify event)^[k] s.start) := by
  constructor
  · intro hsurvives k
    induction k using Nat.strongRecOn with
    | ind k ih =>
        intro hk
        exact harmless_of_survives hk hsurvives
          (good_iterate (by omega) fun j hj => ih j hj (by omega))
  · intro h
    have hgood : Good s (notify grow onNotify event s).log (notify grow onNotify event s) :=
      good_iterate (Nat.le_refl s.observers.length) h
    have htracks : Tracks s (notify grow onNotify event s) :=
      tracks_iterate grow onNotify event s s.observers.length
    refine ⟨hgood.inside, ?_, htracks.after⟩
    rcases hstatus : (notify grow onNotify event s).status with - | - | -
    · have hpos : (notify grow onNotify event s).position = s.observers.length :=
        position_iterate (Nat.le_refl s.observers.length) hstatus
      have hcaught := hgood.caught hstatus
      rw [Caught, hpos, htracks.filter_take fun a ha => ha] at hcaught
      exact hcaught
    · exact hgood.complete hstatus
    · exact absurd hstatus hgood.inside

/-! ### Two observers -/

/-- Observers 0 and 1, in a vector with room for two. -/
def pair : Subject Nat where
  observers := [⟨0, some 0⟩, ⟨1, some 1⟩]
  capacity := 2
  buffer := 0
  next := 2
  fits := by decide
  fresh := by decide
  sorted := by decide

/-- The first observer does something in its call, the second nothing. -/
def firstDoes (es : List (Edit Nat)) (_ observer : Nat) (_ : Unit) : Reply Nat :=
  if observer = 0 then ⟨es, false⟩ else ⟨[], false⟩

/-- The first observer detaches itself: the second moves to its place, is not
called, and the loop reads behind the end of the list.  It attaches another one:
the vector moves, and the loop reads where it was. -/
theorem notify_survives_not :
    (notify (2 * ·) (firstDoes [.detach (some 0)]) () pair).status = .outside ∧
      notified (notify (2 * ·) (firstDoes [.detach (some 0)]) () pair).log = [⟨0, some 0⟩] ∧
      (notify (2 * ·) (firstDoes [.attach (some 2)]) () pair).status = .outside ∧
      ¬ ∀ (onNotify : Nat → Nat → Unit → Reply Nat) (s : Subject Nat),
        Survives s (notify (2 * ·) onNotify () s) := by
  have hdetach : (notify (2 * ·) (firstDoes [.detach (some 0)]) () pair).status = .outside := by
    decide
  refine ⟨hdetach, by decide, by decide, fun h => ?_⟩
  exact (h (firstDoes [.detach (some 0)]) pair).inside hdetach

/-- With room to spare the second observer hears of the event, the new one does not. -/
example : notified (notify (2 * ·) (firstDoes [.attach (some 2)]) ()
    { pair with capacity := 3, fits := by decide }).log = [⟨0, some 0⟩, ⟨1, some 1⟩] := by decide

end Subject

end Evlampy
