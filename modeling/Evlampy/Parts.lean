/-
Evlampy/Parts.lean

Lists cut at a separator.  A reader of such a list may drop the blanks at the two
ends of a part (`trim`) or all blanks in it (`filter`).  The two differ exactly
where blanks stand between two other elements (`trim_eq_filter_iff`), which can be
seen in the list before it is cut (`gap_iff`, `trimmed_eq_filtered_iff`).
-/
import Mathlib.Data.List.DropRight
import Mathlib.Data.List.Infix
import Mathlib.Data.List.TakeWhile

namespace Parts

variable {α : Type*} {p : α → Bool} {l u : List α}

/-! ### Blanks at the ends -/

/-- Without the blanks at both ends. -/
def trim (p : α → Bool) (l : List α) : List α := (l.dropWhile p).rdropWhile p

theorem infix_trim : trim p l <:+: l :=
  (List.rdropWhile_prefix p _).isInfix.trans (List.dropWhile_suffix p).isInfix

theorem dropWhile_append_cons {a : α} (ha : p a = false) (l r : List α) :
    (l ++ a :: r).dropWhile p = l.dropWhile p ++ a :: r := by
  rw [List.dropWhile_append]
  split
  · next hnil =>
    rw [List.isEmpty_iff.mp hnil, List.nil_append, List.dropWhile_cons_of_neg (by simp [ha])]
  · rfl

theorem rdropWhile_append_cons {a : α} (ha : p a = false) (l r : List α) :
    (l ++ a :: r).rdropWhile p = l ++ a :: r.rdropWhile p := by
  rw [List.rdropWhile, List.reverse_append, List.reverse_cons, List.append_assoc,
    List.singleton_append, dropWhile_append_cons ha, List.reverse_append, List.reverse_cons,
    List.reverse_reverse, List.append_assoc, List.singleton_append, List.rdropWhile]

theorem filter_dropWhile (l : List α) :
    (l.dropWhile p).filter (fun c => !p c) = l.filter fun c => !p c := by
  induction l with
  | nil => rfl
  | cons c l ih =>
      cases hc : p c with
      | true => rw [List.dropWhile_cons_of_pos hc, ih, List.filter_cons_of_neg (by simp [hc])]
      | false => rw [List.dropWhile_cons_of_neg (by simp [hc])]

/-- Trimming loses blanks only. -/
theorem filter_trim (l : List α) :
    (trim p l).filter (fun c => !p c) = l.filter fun c => !p c := by
  rw [trim, List.rdropWhile, List.filter_reverse, filter_dropWhile, List.filter_reverse,
    List.reverse_reverse, filter_dropWhile]

theorem trim_eq_filter_iff_forall :
    trim p l = l.filter (fun c => !p c) ↔ ∀ c ∈ trim p l, p c = false := by
  rw [← filter_trim, eq_comm, List.filter_eq_self]
  simp only [Bool.not_eq_true']

theorem trim_eq_nil_iff : trim p l = [] ↔ l.filter (fun c => !p c) = [] := by
  rw [trim, List.rdropWhile_eq_nil_iff, ← filter_dropWhile, List.filter_eq_nil_iff]
  simp only [Bool.not_eq_true', Bool.not_eq_false]

/-- Trimming looks at the blanks only. -/
theorem trim_map {β : Type*} {q : β → Bool} {f : α → β} (h : ∀ c ∈ l, q (f c) = p c) :
    trim q (l.map f) = (trim p l).map f := by
  have hdrop : ∀ l : List α, (∀ c ∈ l, q (f c) = p c) →
      (l.map f).dropWhile q = (l.dropWhile p).map f := by
    intro l hl
    induction l with
    | nil => rfl
    | cons c l ih =>
        simp only [List.map_cons, List.dropWhile_cons, hl c List.mem_cons_self]
        split
        · exact ih fun d hd => hl d (List.mem_cons_of_mem c hd)
        · rfl
  rw [trim, trim, hdrop l h, List.rdropWhile, List.rdropWhile, ← List.map_reverse, hdrop,
    List.map_reverse]
  exact fun c hc => h c ((List.dropWhile_suffix p).subset (List.mem_reverse.mp hc))

/-! ### Blanks between other elements -/

/-- Blanks, and nothing else, stand between two elements that are neither blanks nor
separators. -/
def Gap (p : α → Bool) (sep : α) (l : List α) : Prop :=
  ∃ a w b, a :: (w ++ [b]) <:+: l ∧ (p a = false ∧ a ≠ sep) ∧ (p b = false ∧ b ≠ sep) ∧
    w ≠ [] ∧ ∀ c ∈ w, p c = true

theorem Gap.mono {sep : α} (hu : u <:+: l) (h : Gap p sep u) : Gap p sep l := by
  obtain ⟨a, w, b, hinfix, hrest⟩ := h
  exact ⟨a, w, b, hinfix.trans hu, hrest⟩

/-- In front of a blank of a trimmed list there is some other element. -/
theorem exists_before_of_trim {x y : List α} {c : α} (h : trim p l = x ++ c :: y)
    (hc : p c = true) : x.rdropWhile p ≠ [] := by
  rw [ne_eq, List.rdropWhile_eq_nil_iff]
  intro hblank
  obtain ⟨rest, hrest⟩ := List.rdropWhile_prefix p (l := l.dropWhile p)
  rw [← trim, h, List.append_assoc] at hrest
  -- the blanks in `x` and `c` would have been dropped
  have hdrop := List.dropWhile_idempotent p (l := l)
  rw [← hrest, List.dropWhile_append_of_pos hblank, List.cons_append,
    List.dropWhile_cons_of_pos hc] at hdrop
  have hle := (List.dropWhile_suffix p (l := y ++ rest)).length_le
  rw [hdrop, List.length_append, List.length_cons] at hle
  omega

/-- And behind it. -/
theorem exists_after_of_trim {x y : List α} {c : α} (h : trim p l = x ++ c :: y)
    (hc : p c = true) : y.dropWhile p ≠ [] := by
  rw [ne_eq, List.dropWhile_eq_nil_iff]
  intro hblank
  have hdrop := List.rdropWhile_idempotent p (l := l.dropWhile p)
  rw [← trim, h, List.rdropWhile, List.reverse_append, List.reverse_cons, List.append_assoc,
    List.dropWhile_append_of_pos fun d hd => hblank d (List.mem_reverse.mp hd),
    List.singleton_append, List.dropWhile_cons_of_pos hc] at hdrop
  have hle := (List.dropWhile_suffix p (l := x.reverse)).length_le
  have hlen := congrArg List.length hdrop
  rw [List.length_reverse, List.length_append, List.length_cons] at hlen
  rw [List.length_reverse] at hle
  omega

/-- What stands around a blank of a trimmed list is a gap. -/
theorem gap_of_mem_trim {sep c : α} (hsep : sep ∉ l) (hmem : c ∈ trim p l) (hc : p c = true) :
    Gap p sep l := by
  obtain ⟨x, y, hxy⟩ := List.append_of_mem hmem
  have hx := exists_before_of_trim hxy hc
  obtain ⟨b, r, hb⟩ := List.exists_cons_of_ne_nil (exists_after_of_trim hxy hc)
  have hap : p ((x.rdropWhile p).getLast hx) = false := by
    simpa using List.rdropWhile_last_not p x hx
  have hbp : p b = false := by
    have h := List.head_dropWhile_not (p := p) (l := y) (hb ▸ List.cons_ne_nil b r)
    simpa only [hb, List.head_cons] using h
  -- the last element in front of the blanks, the blanks, the first one behind them
  have hwhole : (x.rdropWhile p).dropLast ++ (x.rdropWhile p).getLast hx ::
      ((x.rtakeWhile p ++ c :: y.takeWhile p) ++ [b]) ++ r = trim p l := by
    conv_rhs => rw [hxy, ← List.rdropWhile_append_rtakeWhile (p := p) (l := x),
      ← List.takeWhile_append_dropWhile (p := p) (l := y), hb,
      ← List.dropLast_append_getLast hx]
    simp only [List.append_assoc, List.cons_append, List.nil_append]
  have hin := List.IsInfix.trans ⟨_, _, hwhole⟩ (infix_trim (l := l))
  refine ⟨_, _, b, hin, ⟨hap, ?_⟩, ⟨hbp, ?_⟩, by simp, ?_⟩
  · rintro rfl
    exact hsep (hin.subset List.mem_cons_self)
  · rintro rfl
    exact hsep (hin.subset (by simp))
  · intro d hd
    rcases List.mem_append.mp hd with h | h
    · exact List.mem_rtakeWhile_imp h
    · rcases List.mem_cons.mp h with rfl | h
      · exact hc
      · exact List.mem_takeWhile_imp h

/-- A blank is left exactly if there is a gap. -/
theorem gap_iff_trim {sep : α} (hsep : sep ∉ l) : Gap p sep l ↔ ∃ c ∈ trim p l, p c = true := by
  constructor
  · rintro ⟨a, w, b, ⟨x, y, rfl⟩, ⟨ha, -⟩, ⟨hb, -⟩, hw, hblank⟩
    obtain ⟨c, hc⟩ := List.exists_mem_of_ne_nil w hw
    refine ⟨c, ?_, hblank c hc⟩
    have hcut : x ++ a :: (w ++ [b]) ++ y = x ++ a :: (w ++ b :: y) := by simp
    have hjoin : x.dropWhile p ++ a :: (w ++ b :: y) = (x.dropWhile p ++ a :: w) ++ b :: y := by
      simp
    rw [trim, hcut, dropWhile_append_cons ha, hjoin, rdropWhile_append_cons hb]
    simp [hc]
  · rintro ⟨c, hmem, hc⟩
    exact gap_of_mem_trim hsep hmem hc

/-- Trimming is dropping all blanks exactly if there is no gap. -/
theorem trim_eq_filter_iff {sep : α} (hsep : sep ∉ l) :
    trim p l = l.filter (fun c => !p c) ↔ ¬ Gap p sep l := by
  rw [trim_eq_filter_iff_forall, gap_iff_trim hsep]
  push Not
  simp only [Bool.not_eq_true]

/-! ### The parts -/

/-- A stretch without the separator lies on one side of it. -/
theorem infix_append_cons {sep : α} {x r : List α} (hsep : sep ∉ u)
    (h : u <:+: x ++ sep :: r) : u <:+: x ∨ u <:+: r := by
  obtain ⟨s, t, hst⟩ := h
  rcases List.append_eq_append_iff.mp hst with ⟨k, rfl, -⟩ | ⟨k, hk, hr⟩
  · exact .inl ⟨s, k, rfl⟩
  · rcases List.append_eq_append_iff.mp hk with ⟨m, rfl, rfl⟩ | ⟨m, rfl, rfl⟩
    · -- the stretch starts in `x`
      cases k with
      | nil => exact .inl ⟨s, [], by simp⟩
      | cons a k =>
          obtain rfl := (List.cons.inj hr).1
          exact absurd (by simp) hsep
    · -- it starts behind `x`
      cases m with
      | nil =>
          cases u with
          | nil => exact .inl ⟨[], x, by simp⟩
          | cons a u =>
              obtain rfl := (List.cons.inj hr).1
              exact absurd List.mem_cons_self hsep
      | cons a m => exact .inr ⟨m, t, ((List.cons.inj hr).2).symm⟩

/-- Induction on the parts. -/
theorem cut_induction [DecidableEq α] (sep : α) {motive : List α → Prop}
    (last : ∀ l, sep ∉ l → motive l)
    (cons : ∀ x r, sep ∉ x → motive r → motive (x ++ sep :: r)) (l : List α) : motive l := by
  induction hn : l.length using Nat.strong_induction_on generalizing l with
  | _ n ih =>
      by_cases h : sep ∈ l
      · obtain ⟨x, r, rfl, hx⟩ := List.eq_append_cons_of_mem h
        refine cons x r hx (ih r.length ?_ r rfl)
        rw [← hn, List.length_append, List.length_cons]
        omega
      · exact last l h

theorem gap_append_cons {sep : α} (hp : p sep = false) {x r : List α} :
    Gap p sep (x ++ sep :: r) ↔ Gap p sep x ∨ Gap p sep r := by
  constructor
  · rintro ⟨a, w, b, hinfix, ⟨ha, hane⟩, ⟨hb, hbne⟩, hw, hblank⟩
    have hsep : sep ∉ a :: (w ++ [b]) := by
      simp only [List.mem_cons, List.mem_append, List.not_mem_nil, or_false, not_or]
      refine ⟨hane.symm, fun hmem => ?_, hbne.symm⟩
      exact Bool.false_ne_true (hp.symm.trans (hblank sep hmem))
    exact (infix_append_cons hsep hinfix).imp
      (fun h => ⟨a, w, b, h, ⟨ha, hane⟩, ⟨hb, hbne⟩, hw, hblank⟩)
      (fun h => ⟨a, w, b, h, ⟨ha, hane⟩, ⟨hb, hbne⟩, hw, hblank⟩)
  · rintro (h | h)
    · exact h.mono (List.prefix_append x _).isInfix
    · exact h.mono ((List.suffix_cons sep r).trans (List.suffix_append x _)).isInfix

theorem not_mem_of_mem_splitOn [DecidableEq α] {sep : α} {part : List α} :
    part ∈ l.splitOn sep → sep ∉ part := by
  induction l using cut_induction sep with
  | last l h =>
      rw [List.splitOn_eq_singleton h, List.mem_singleton]
      rintro rfl
      exact h
  | cons x r hx ih =>
      rw [List.splitOn_append_cons_self_of_not_mem hx, List.mem_cons]
      rintro (rfl | h)
      · exact hx
      · exact ih h

/-- A gap of the list is a gap of a part. -/
theorem gap_iff [DecidableEq α] {sep : α} (hp : p sep = false) :
    Gap p sep l ↔ ∃ part ∈ l.splitOn sep, Gap p sep part := by
  induction l using cut_induction sep with
  | last l h => simp [List.splitOn_eq_singleton h]
  | cons x r hx ih =>
      rw [List.splitOn_append_cons_self_of_not_mem hx, gap_append_cons hp, ih]
      simp

theorem subset_of_mem_splitOn [DecidableEq α] {sep : α} {part : List α} :
    part ∈ l.splitOn sep → part ⊆ l := by
  induction l using cut_induction sep with
  | last l h =>
      rw [List.splitOn_eq_singleton h, List.mem_singleton]
      rintro rfl
      exact List.Subset.refl _
  | cons x r hx ih =>
      rw [List.splitOn_append_cons_self_of_not_mem hx, List.mem_cons]
      rintro (rfl | h)
      · exact List.subset_append_left _ _
      · exact List.Subset.trans (ih h)
          (List.Subset.trans (List.subset_cons_self _ _) (List.subset_append_right _ _))

theorem splitOn_map [DecidableEq α] {β : Type*} [DecidableEq β] {sep : α} {f : α → β}
    (hf : Function.Injective f) :
    (l.map f).splitOn (f sep) = (l.splitOn sep).map (List.map f) := by
  induction l using cut_induction sep with
  | last l h =>
      rw [List.splitOn_eq_singleton h, List.splitOn_eq_singleton, List.map_singleton]
      rwa [List.mem_map_of_injective hf]
  | cons x r hx ih =>
      rw [List.map_append, List.map_cons, List.splitOn_append_cons_self_of_not_mem,
        List.splitOn_append_cons_self_of_not_mem hx, ih, List.map_cons]
      rwa [List.mem_map_of_injective hf]

/-! ### Reading the parts -/

/-- Two readings that empty the same parts give one list exactly if they agree on every
part. -/
theorem filter_map_eq_iff {β : Type*} {f g : α → List β} (hnil : ∀ x, f x = [] ↔ g x = []) :
    (l.map f).filter (· ≠ []) = (l.map g).filter (· ≠ []) ↔ ∀ x ∈ l, f x = g x := by
  induction l with
  | nil => simp
  | cons x l ih =>
      rw [List.map_cons, List.map_cons, List.forall_mem_cons]
      by_cases hx : f x = []
      · have hgx := (hnil x).mp hx
        rw [List.filter_cons_of_neg (by simpa using hx),
          List.filter_cons_of_neg (by simpa using hgx), ih, hx, hgx]
        simp
      · have hgx := fun h => hx ((hnil x).mpr h)
        rw [List.filter_cons_of_pos (by simpa using hx),
          List.filter_cons_of_pos (by simpa using hgx), List.cons.injEq, ih]

/-- Cut and trimmed, or cut and without blanks. -/
theorem trimmed_eq_filtered_iff [DecidableEq α] {sep : α} (hp : p sep = false) :
    ((l.splitOn sep).map (trim p)).filter (· ≠ []) =
        ((l.splitOn sep).map (List.filter fun c => !p c)).filter (· ≠ []) ↔ ¬ Gap p sep l := by
  rw [filter_map_eq_iff fun _ => trim_eq_nil_iff, gap_iff hp]
  push Not
  exact forall₂_congr fun part hmem => trim_eq_filter_iff (not_mem_of_mem_splitOn hmem)

end Parts
