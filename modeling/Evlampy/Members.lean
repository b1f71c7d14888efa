/-
Evlampy/Members.lean

The members of a new group, as the two windows read them from a line of text.  The
window of `main_gui.cpp` cuts the line at the commas and trims each part; the one of
`main_gui.mm` goes through the characters and drops white space wherever it stands,
so it loses the blanks inside a name.
-/
import Evlampy.Qt

namespace Evlampy

/-- `','`. -/
def comma : UInt8 := 44

/-! ### The two functions -/

namespace Qt

/-- `splitMembers` of `main_gui.cpp`. -/
def splitMembers (qt : Qt) (raw : QString) : List Str :=
  (split raw comma.toUInt16).filterMap fun part =>
    let trimmed := qt.trimmed part
    if trimmed ≠ [] then some (qt.toStdString trimmed) else none

end Qt

namespace Cocoa

/-- The loop of `splitMembers`: `out` and `current` after the character `ch`. -/
def splitMembersStep : List Str × Str → UInt8 → List Str × Str
  | (out, current), ch =>
      if ch = comma then
        if current ≠ [] then (out ++ [current], []) else (out, current)
      else if !Digits.isSpace ch then (out, current ++ [ch])
      else (out, current)

/-- What is left over at the end is a name too. -/
def splitMembersEnd : List Str × Str → List Str
  | (out, current) => if current ≠ [] then out ++ [current] else out

/-- `splitMembers` of `main_gui.mm`. -/
def splitMembers (raw : Str) : List Str :=
  splitMembersEnd (raw.foldl splitMembersStep ([], []))

end Cocoa

/-! ### The accumulator loop -/

namespace Cocoa

/-- A part without its white space. -/
def squeeze (part : Str) : Str := part.filter fun c => !Digits.isSpace c

/-- Between two commas the loop collects what is not white space. -/
theorem foldl_splitMembersStep {x : Str} (hx : comma ∉ x) (out : List Str) (current : Str) :
    x.foldl splitMembersStep (out, current) = (out, current ++ squeeze x) := by
  induction x generalizing current with
  | nil => rw [List.foldl_nil, squeeze, List.filter_nil, List.append_nil]
  | cons c x ih =>
      obtain ⟨hc, hx⟩ := not_or.mp (mt List.mem_cons.mpr hx)
      rw [List.foldl_cons, splitMembersStep, if_neg (Ne.symm hc), squeeze]
      cases hspace : Digits.isSpace c with
      | true =>
          rw [if_neg (by simp), ih hx, List.filter_cons_of_neg (by simp [hspace]), squeeze]
      | false =>
          rw [if_pos (by simp), ih hx, List.filter_cons_of_pos (by simp [hspace]),
            List.append_assoc, List.singleton_append, squeeze]

theorem splitMembersEnd_foldl (raw : Str) (out : List Str) :
    splitMembersEnd (raw.foldl splitMembersStep (out, [])) =
      out ++ ((raw.splitOn comma).map squeeze).filter (· ≠ []) := by
  induction raw using Parts.cut_induction comma generalizing out with
  | last l hl =>
      rw [List.splitOn_eq_singleton hl, foldl_splitMembersStep hl, List.nil_append,
        splitMembersEnd, List.map_singleton]
      split
      · next h => rw [List.filter_cons_of_pos (by simpa using h), List.filter_nil]
      · next h => rw [List.filter_cons_of_neg (by simpa using h), List.filter_nil, List.append_nil]
  | cons x r hx ih =>
      rw [List.splitOn_append_cons_self_of_not_mem hx, List.foldl_append, List.foldl_cons,
        foldl_splitMembersStep hx, List.nil_append, splitMembersStep, if_pos rfl, List.map_cons]
      split
      · next h =>
        rw [ih, List.filter_cons_of_pos (by simpa using h), List.append_assoc,
          List.singleton_append]
      · next h =>
        rw [not_ne_iff.mp h, ih, List.filter_cons_of_neg (by simp)]

theorem splitMembers_eq (raw : Str) :
    splitMembers raw = ((raw.splitOn comma).map squeeze).filter (· ≠ []) := by
  rw [splitMembers, splitMembersEnd_foldl, List.nil_append]

end Cocoa

/-! ### The pipeline -/

namespace Qt

variable {qt : Qt}

theorem trimmed_ascii (hqt : qt.Documented) {s : Str} (hs : ∀ c ∈ s, c < 128) :
    qt.trimmed (ascii s) = ascii (Parts.trim Digits.isSpace s) :=
  Parts.trim_map fun c hc => hqt.isSpace c (hs c hc)

theorem split_ascii (raw : Str) :
    split (ascii raw) comma.toUInt16 = ((raw.splitOn comma).map ascii).filter (· ≠ []) := by
  have hinj : Function.Injective UInt8.toUInt16 := fun _ _ => UInt8.toUInt16_inj.mp
  rw [split, ascii, Parts.splitOn_map hinj]
  rfl

theorem splitMembers_ascii (hqt : qt.Documented) {raw : Str} (hraw : ∀ c ∈ raw, c < 128) :
    qt.splitMembers (ascii raw) =
      ((raw.splitOn comma).map (Parts.trim Digits.isSpace)).filter (· ≠ []) := by
  have hparts : ∀ part ∈ raw.splitOn comma, ∀ c ∈ part, c < 128 := fun part hpart c hc =>
    hraw c (Parts.subset_of_mem_splitOn hpart hc)
  rw [splitMembers, split_ascii]
  generalize raw.splitOn comma = parts at hparts
  induction parts with
  | nil => rfl
  | cons part parts ih =>
      obtain ⟨hpart, hparts⟩ := List.forall_mem_cons.mp hparts
      rw [List.map_cons, List.map_cons, List.filter_cons]
      by_cases hnil : part = []
      · rw [hnil, if_neg (by simp [ascii]), List.filter_cons_of_neg (by simp [Parts.trim]),
          ih hparts]
      · rw [if_pos (by simpa [ascii] using hnil), List.filterMap_cons, trimmed_ascii hqt hpart]
        by_cases htrim : Parts.trim Digits.isSpace part = []
        · rw [if_neg (by simp [htrim, ascii]), List.filter_cons_of_neg (by simp [htrim])]
          exact ih hparts
        · have hascii : ∀ c ∈ Parts.trim Digits.isSpace part, c < 128 := fun c hc =>
            hpart c (Parts.infix_trim.subset hc)
          rw [if_pos (by simpa [ascii] using htrim), hqt.toStdString _ hascii,
            List.filter_cons_of_pos (by simpa using htrim)]
          exact congrArg _ (ih hparts)

end Qt

/-! ### What the two make of a line -/

/-- The two lists are one exactly if white space stands nowhere between two characters of
a name.  A name without a comma and without white space around it can always be given to
the window of `main_gui.cpp`, to the other one if there is no white space in it. -/
theorem splitMembers_eq_iff (qt : Qt) (hqt : qt.Documented) :
    (∀ raw : Str, (∀ c ∈ raw, c < 128) →
      (Cocoa.splitMembers raw = qt.splitMembers (ascii raw) ↔
        ¬ Parts.Gap Digits.isSpace comma raw)) ∧
    (∀ name : Str, (∀ c ∈ name, c < 128) → name ≠ [] → comma ∉ name →
      Parts.trim Digits.isSpace name = name →
      (∃ raw : Str, (∀ c ∈ raw, c < 128) ∧ name ∈ qt.splitMembers (ascii raw)) ∧
      ((∃ raw : Str, (∀ c ∈ raw, c < 128) ∧ name ∈ Cocoa.splitMembers raw) ↔
        ∀ c ∈ name, Digits.isSpace c = false)) := by
  refine ⟨fun raw hraw => ?_, fun name hascii hname hcomma htrim => ⟨?_, ?_⟩⟩
  · rw [Cocoa.splitMembers_eq, Qt.splitMembers_ascii hqt hraw, eq_comm]
    exact Parts.trimmed_eq_filtered_iff rfl
  · refine ⟨name, hascii, ?_⟩
    rw [Qt.splitMembers_ascii hqt hascii, List.splitOn_eq_singleton hcomma, List.map_singleton,
      htrim]
    simpa using hname
  · constructor
    · rintro ⟨raw, -, hmem⟩ c hc
      rw [Cocoa.splitMembers_eq] at hmem
      obtain ⟨part, -, rfl⟩ := List.mem_map.mp (List.mem_of_mem_filter hmem)
      simpa using List.of_mem_filter hc
    · intro hspace
      refine ⟨name, hascii, ?_⟩
      have hsqueeze : Cocoa.squeeze name = name :=
        List.filter_eq_self.mpr fun c hc => by simp [hspace c hc]
      rw [Cocoa.splitMembers_eq, List.splitOn_eq_singleton hcomma, List.map_singleton, hsqueeze]
      simpa using hname

/-- Two names with white space around them, and the name `ann marie`. -/
theorem splitMembers_eq_iff_reference :
    (Cocoa.splitMembers (str " alice ,,bob") =
        Qt.reference.splitMembers (ascii (str " alice ,,bob")) ↔
      ¬ Parts.Gap Digits.isSpace comma (str " alice ,,bob")) ∧
    (∃ raw : Str, (∀ c ∈ raw, c < 128) ∧
      str "ann marie" ∈ Qt.reference.splitMembers (ascii raw)) ∧
    ((∃ raw : Str, (∀ c ∈ raw, c < 128) ∧ str "ann marie" ∈ Cocoa.splitMembers raw) ↔
      ∀ c ∈ str "ann marie", Digits.isSpace c = false) :=
  ⟨(splitMembers_eq_iff Qt.reference Qt.reference_documented).1 _ (by decide +kernel),
    (splitMembers_eq_iff Qt.reference Qt.reference_documented).2 _ (by decide +kernel) (by decide)
      (by decide) (by decide)⟩

/-- Two members, `ann marie` and `bob`: one window asks for `annmarie`. -/
theorem splitMembers_ann_marie :
    Cocoa.splitMembers (str "ann marie, bob") = [str "annmarie", str "bob"] ∧
      Qt.reference.splitMembers (ascii (str "ann marie, bob")) = [str "ann marie", str "bob"] ∧
      Cocoa.splitMembers (str "ann marie, bob") ≠
        Qt.reference.splitMembers (ascii (str "ann marie, bob")) := by
  decide +kernel

end Evlampy
