/-
Evlampy/Posix.lean

How POSIX reads a path, on texts alone: up to the first zero byte, cut at the
slashes, from the root or from the working directory, one component after
another.  An empty component and `.` stay where they are, `..` goes up, anything
else goes down.  Links are not followed, and every directory on the way is taken
to exist.

`resolve` is where a path leads; `file` is the same for a path that can name a
file, that is, one whose last component is a name.  `resolve_append` and
`file_append` take a path apart at a slash.
-/
import Mathlib.Tactic.Common

namespace Posix

/-- Any bytes. -/
abbrev Path := List UInt8

/-- A directory or file: the names that lead to it from the root. -/
abbrev Place := List Path

/-- The separator of components. -/
def slash : UInt8 := 47

/-- The component that stays. -/
def dot : Path := [46]

/-- The component that goes up. -/
def dotDot : Path := [46, 46]

/-- What a C function sees of a text. -/
def cString (p : Path) : Path := p.takeWhile (· ≠ 0)

/-- The parts between the slashes, empty ones included. -/
def components (p : Path) : List Path := p.splitOn slash

/-- One component. -/
def enter (place : Place) (component : Path) : Place :=
  if component = [] ∨ component = dot then place
  else if component = dotDot then place.dropLast
  else place ++ [component]

/-- One component after another. -/
def walk (place : Place) (cs : List Path) : Place := cs.foldl enter place

/-- Where a path starts. -/
def start (cwd : Place) (p : Path) : Place := if p.head? = some slash then [] else cwd

/-- Where a path leads. -/
def resolve (cwd : Place) (p : Path) : Place :=
  walk (start cwd (cString p)) (components (cString p))

theorem components_ne_nil (p : Path) : components p ≠ [] := List.splitOn_ne_nil slash p

/-- The last component of a path, and those before it. -/
def base (p : Path) : Path := (components (cString p)).getLast (components_ne_nil _)

/-- The components before the last. -/
def dirs (p : Path) : List Path := (components (cString p)).dropLast

/-- A component that goes down. -/
def IsName (component : Path) : Prop := component ≠ [] ∧ component ≠ dot ∧ component ≠ dotDot

instance : DecidablePred IsName := fun _ => inferInstanceAs (Decidable (_ ∧ _ ∧ _))

/-- The file a path leads to, if it can be one. -/
def file (cwd : Place) (p : Path) : Option Place :=
  if IsName (base p) then some (resolve cwd p) else none

variable {cwd place : Place} {p q : Path}

/-! ### Walking -/

@[simp] theorem walk_append (place : Place) (cs ds : List Path) :
    walk place (cs ++ ds) = walk (walk place cs) ds := List.foldl_append

theorem enter_of_isName {component : Path} (h : IsName component) :
    enter place component = place ++ [component] := by
  rw [enter, if_neg (not_or.mpr ⟨h.1, h.2.1⟩), if_neg h.2.2]

theorem components_append (p q : Path) :
    components (p ++ slash :: q) = components p ++ components q :=
  List.splitOn_append_cons_self p q

theorem components_of_notMem (h : slash ∉ p) : components p = [p] := List.splitOn_eq_singleton h

/-- What is added behind a path without a slash is added to its last component. -/
theorem components_append_of_notMem (p : Path) (h : slash ∉ q) :
    components (p ++ q)
      = (components p).dropLast ++ [(components p).getLast (components_ne_nil p) ++ q] := by
  induction p with
  | nil => exact components_of_notMem h
  | cons b p ih =>
      have hcons : ∀ r : Path, components (b :: r)
          = if b == slash then [] :: components r else (components r).modifyHead (b :: ·) :=
        fun r => List.splitOn_cons_eq_if_modifyHead b r
      have hq := hcons (p ++ q)
      rw [ih] at hq
      obtain ⟨first, rest, hp⟩ := List.exists_cons_of_ne_nil (components_ne_nil p)
      simp only [List.cons_append, hq, hcons p, hp]
      split
      · simp
      · rcases List.eq_nil_or_concat rest with rfl | ⟨rest, last, rfl⟩
        · simp
        · simp [List.dropLast_cons_of_ne_nil, List.getLast_cons]

theorem dirs_append_base (p : Path) : dirs p ++ [base p] = components (cString p) :=
  List.dropLast_concat_getLast (components_ne_nil _)

/-! ### Zero bytes -/

theorem cString_append (h : 0 ∉ p) (q : Path) : cString (p ++ q) = p ++ cString q := by
  refine List.takeWhile_append_of_pos fun b hb => decide_eq_true ?_
  rintro rfl
  exact h hb

theorem cString_of_notMem (h : 0 ∉ p) : cString p = p := by
  have happend := cString_append h []
  rw [List.append_nil] at happend
  exact happend.trans (List.append_nil p)

theorem cString_slash (q : Path) : cString (slash :: q) = slash :: cString q :=
  List.takeWhile_cons_of_pos (by decide)

/-! ### Paths below a directory -/

/-- A path below `p` is read from where `p` leads. -/
theorem resolve_append (hzero : 0 ∉ p) (hne : p ≠ []) (q : Path) :
    resolve cwd (p ++ slash :: q) = walk (resolve cwd p) (components (cString q)) := by
  have hhead : (p ++ slash :: cString q).head? = p.head? := by
    rw [List.head?_append, Option.or_of_isSome]
    exact List.isSome_head?.mpr hne
  rw [resolve, cString_append hzero, cString_slash, components_append, walk_append, start, hhead, resolve,
    cString_of_notMem hzero, start]

theorem base_append (hzero : 0 ∉ p) (q : Path) : base (p ++ slash :: q) = base q := by
  have hcomponents : components (cString (p ++ slash :: q))
      = components p ++ components (cString q) := by
    rw [cString_append hzero, cString_slash, components_append]
  simp only [base, hcomponents]
  exact List.getLast_append_of_ne_nil _ (components_ne_nil _)

/-- The file a path below `p` leads to: the directories of `q` are followed from
where `p` leads, and the last component names an entry there. -/
theorem file_append (hzero : 0 ∉ p) (hne : p ≠ []) (q : Path) :
    file cwd (p ++ slash :: q) = if IsName (base q)
      then some (walk (resolve cwd p) (dirs q) ++ [base q]) else none := by
  rw [file, base_append hzero]
  split
  · next hname =>
    rw [resolve_append hzero hne, ← dirs_append_base, walk_append]
    exact congrArg some (enter_of_isName hname)
  · rfl

/-- A path below `p` leads to an entry of `p` itself exactly where its
directories lead back to it. -/
theorem file_append_eq_iff (hzero : 0 ∉ p) (hne : p ≠ []) (q : Path) (name : Path) :
    file cwd (p ++ slash :: q) = some (resolve cwd p ++ [name]) ↔
      IsName (base q) ∧ walk (resolve cwd p) (dirs q) = resolve cwd p ∧ base q = name := by
  rw [file_append hzero hne]
  split
  · next hname =>
    rw [Option.some.injEq, List.append_singleton_inj]
    exact (and_iff_right hname).symm
  · next hname => simp [hname]

/-! ### Suffixes and plain names -/

theorem dirs_append_of_notMem (hzero : 0 ∉ p) (hzero' : 0 ∉ q) (hslash : slash ∉ q) :
    dirs (p ++ q) = dirs p := by
  rw [dirs, cString_append hzero, cString_of_notMem hzero', components_append_of_notMem p hslash,
    List.dropLast_concat, dirs, cString_of_notMem hzero]

theorem base_append_of_notMem (hzero : 0 ∉ p) (hzero' : 0 ∉ q) (hslash : slash ∉ q) :
    base (p ++ q) = base p ++ q := by
  simp only [base, cString_append hzero, cString_of_notMem hzero', cString_of_notMem hzero,
    components_append_of_notMem p hslash, List.getLast_concat]

theorem dirs_of_notMem (hzero : 0 ∉ p) (hslash : slash ∉ p) : dirs p = [] := by
  rw [dirs, cString_of_notMem hzero, components_of_notMem hslash]
  rfl

theorem base_of_notMem (hzero : 0 ∉ p) (hslash : slash ∉ p) : base p = p := by
  simp only [base, cString_of_notMem hzero, components_of_notMem hslash, List.getLast_singleton]

end Posix
