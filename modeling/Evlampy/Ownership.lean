/-
Evlampy/Ownership.lean

Objects of a foreign library.  Some of its calls make an object and hand it out, some
free one, the others work on objects they are given; what a call answers is up to the
library.  A program has to use an object only between the two, and to free it.

`Runs p t r`: in some run `p` makes the calls `t`, with these answers, and ends in `r`.
The objects that are there in between are those `left`; `Faultless` says that no call is
given any other.  Without a fault, what is made is freed or left (`made_add_count`).

`Safely p L post` is checked along the program: whatever the library answers, as long as
it hands out new objects, `p` makes no fault where the objects `L` are there, and `post`
holds of the result and of the objects left (`Safely.runs`).  A program is `Tidy` if it
leaves what it has found; a destructor at the end of a scope makes it so (`tidy_scope`).
-/
import Evlampy.Prog
import Mathlib.Data.List.Count

namespace Ownership

open Callback Prog

/-- What the calls of a library do with objects. -/
structure Library (E : Type) (R : E → Type) (H : Type) where
  /-- The objects that are given to the call. -/
  uses : E → List H
  frees : E → Option H
  makes : (e : E) → R e → Option H

/-- A call with its answer. -/
abbrev Event (E : Type) (R : E → Type) := (e : E) × R e

variable {E : Type} {R : E → Type} {N X H α β : Type}

/-- The program makes the calls, gets the answers, and ends in the result. -/
inductive Runs : Prog E R N X α → List (Event E R) → Except X α → Prop
  | ret (a : α) : Runs (.ret a) [] (.ok a)
  | throw (x : X) : Runs (.throw x) [] (.error x)
  | perform (e : E) {k : R e → Prog E R N X α} (r : R e) {t : List (Event E R)} {x : Except X α}
      (h : Runs (k r) t x) : Runs (.perform e k) (⟨e, r⟩ :: t) x

/-- At the end of `p`, however it ends, make the call `e`. -/
def atExit (e : E) : Prog E R N X α → Prog E R N X α
  | .ret a => .perform e fun _ => .ret a
  | .throw x => .perform e fun _ => .throw x
  | .perform e' k => .perform e' fun r => atExit e (k r)
  | .yield n k => .yield n fun a => atExit e (k a)

/-- A scope that holds an object, if there is one: at its end the object is freed. -/
def scope (free : H → E) (p : Prog E R N X α) : Option H → Prog E R N X α
  | none => p
  | some h => atExit (free h) p

variable [DecidableEq H] (lib : Library E R H)

/-! ### Objects -/

/-- The objects after a call. -/
def after (L : List H) (e : E) (r : R e) : List H :=
  (lib.makes e r).toList ++ (lib.frees e).elim L L.erase

/-- The call is given objects that are there. -/
def Given (L : List H) (e : E) : Prop := ∀ h ∈ lib.uses e ++ (lib.frees e).toList, h ∈ L

/-- The object that is made, if one is, is a new one. -/
def New (L : List H) (e : E) (r : R e) : Prop := ∀ h, lib.makes e r = some h → h ∉ L

/-- The objects that are left after the calls. -/
def left (L : List H) : List (Event E R) → List H
  | [] => L
  | ev :: t => left (after lib L ev.1 ev.2) t

/-- Every call is given objects that are there. -/
def Faultless (L : List H) : List (Event E R) → Prop
  | [] => True
  | ev :: t => Given lib L ev.1 ∧ Faultless (after lib L ev.1 ev.2) t

/-- Every object that is made is a new one. -/
def Fresh (L : List H) : List (Event E R) → Prop
  | [] => True
  | ev :: t => New lib L ev.1 ev.2 ∧ Fresh (after lib L ev.1 ev.2) t

/-- How often the object is made, and freed. -/
def made (h : H) (t : List (Event E R)) : Nat := t.countP fun ev => lib.makes ev.1 ev.2 = some h

/-- The same for calls that free it. -/
def freed (h : H) (t : List (Event E R)) : Nat := t.countP fun ev => lib.frees ev.1 = some h

variable {lib} {L : List H}

/-- Without a fault, what is made is freed or left. -/
theorem made_add_count {t : List (Event E R)} (hf : Faultless lib L t) (h : H) :
    made lib h t + L.count h = freed lib h t + (left lib L t).count h := by
  induction t generalizing L with
  | nil => rfl
  | cons ev t ih =>
      obtain ⟨hgiven, hrest⟩ := hf
      have hcount : (after lib L ev.1 ev.2).count h + (if lib.frees ev.1 = some h then 1 else 0)
          = L.count h + if lib.makes ev.1 ev.2 = some h then 1 else 0 := by
        have hmade : (lib.makes ev.1 ev.2).toList.count h
            = if lib.makes ev.1 ev.2 = some h then 1 else 0 := by
          rcases lib.makes ev.1 ev.2 with - | g
          · rfl
          · simp [List.count_singleton]
        unfold after
        rw [List.count_append, hmade]
        rcases hfrees : lib.frees ev.1 with - | g
        · simp [Nat.add_comm]
        · have hmem : g ∈ L := hgiven g (by simp [hfrees])
          have hpos : 0 < L.count g := List.count_pos_iff.mpr hmem
          by_cases hg : g = h
          · subst hg
            simp [List.count_erase_self]
            omega
          · simp [List.count_erase_of_ne (Ne.symm hg), hg, Nat.add_comm]
      have hih := ih hrest
      unfold made freed at hih ⊢
      rw [List.countP_cons, List.countP_cons]
      simp only [decide_eq_true_eq]
      show _ = _ + (left lib (after lib L ev.1 ev.2) t).count h
      omega

/-! ### Programs -/

variable (lib) in
/-- Whatever the library answers, the program makes no fault, and `post` holds at its end. -/
def Safely : Prog E R N X α → List H → (Except X α → List H → Prop) → Prop
  | .ret a, L, post => post (.ok a) L
  | .throw x, L, post => post (.error x) L
  | .perform e k, L, post =>
      Given lib L e ∧ ∀ r, New lib L e r → Safely (k r) (after lib L e r) post
  | .yield _ _, _, _ => False

/-- What is checked along the program holds of its runs. -/
theorem Safely.runs {p : Prog E R N X α} {t : List (Event E R)} {r : Except X α}
    {post : Except X α → List H → Prop} (hp : Safely lib p L post) (hr : Runs p t r)
    (hf : Fresh lib L t) : Faultless lib L t ∧ post r (left lib L t) := by
  induction hr generalizing L with
  | ret a => exact ⟨trivial, hp⟩
  | throw x => exact ⟨trivial, hp⟩
  | perform e r _ ih =>
      obtain ⟨hrest, hpost⟩ := ih (hp.2 r hf.1) hf.2
      exact ⟨⟨hp.1, hrest⟩, hpost⟩

theorem safely_mono {p : Prog E R N X α} {post post' : Except X α → List H → Prop}
    (hpost : ∀ r L, post r L → post' r L) (hp : Safely lib p L post) : Safely lib p L post' := by
  induction p generalizing L with
  | ret a => exact hpost _ _ hp
  | throw x => exact hpost _ _ hp
  | perform e k ih => exact ⟨hp.1, fun r hn => ih r (hp.2 r hn)⟩
  | yield n k => exact hp

theorem safely_bind {p : Prog E R N X α} {f : α → Prog E R N X β}
    {post : Except X β → List H → Prop}
    (hp : Safely lib p L fun r L' => match r with
      | .ok a => Safely lib (f a) L' post
      | .error x => post (.error x) L') : Safely lib (p >>= f) L post := by
  induction p generalizing L with
  | ret a => exact hp
  | throw x => exact hp
  | perform e k ih => exact ⟨hp.1, fun r hn => ih r (hp.2 r hn)⟩
  | yield n k => exact hp

theorem safely_act {e : E} {f : R e → Prog E R N X β} {post : Except X β → List H → Prop}
    (he : Given lib L e) (hf : ∀ r, New lib L e r → Safely lib (f r) (after lib L e r) post) :
    Safely lib ((act e : Prog E R N X (R e)) >>= f) L post :=
  ⟨he, hf⟩

theorem safely_atExit {e : E} {p : Prog E R N X α} {post : Except X α → List H → Prop}
    (hp : Safely lib p L fun r L' => Given lib L' e ∧
      ∀ a, New lib L' e a → post r (after lib L' e a)) : Safely lib (atExit e p) L post := by
  induction p generalizing L with
  | ret a => exact hp
  | throw x => exact hp
  | perform e' k ih => exact ⟨hp.1, fun r hn => ih r (hp.2 r hn)⟩
  | yield n k => exact hp

/-! ### Tidy programs -/

variable (lib) in
/-- The program leaves what it has found. -/
def Tidy (p : Prog E R N X α) (L : List H) : Prop := Safely lib p L fun _ L' => L' = L

/-- A call that neither makes nor frees an object. -/
structure Plain (lib : Library E R H) (e : E) : Prop where
  makes : ∀ r, lib.makes e r = none
  frees : lib.frees e = none

theorem Plain.after_eq {e : E} (he : Plain lib e) (L : List H) (r : R e) : after lib L e r = L := by
  simp [after, he.makes, he.frees]

/-- The call frees the object and does nothing else. -/
structure Destroys (lib : Library E R H) (e : E) (h : H) : Prop where
  makes : ∀ r, lib.makes e r = none
  frees : lib.frees e = some h
  uses : lib.uses e = []

theorem Destroys.after_cons {e : E} {h : H} (he : Destroys lib e h) (L : List H) (r : R e) :
    after lib (h :: L) e r = L := by
  simp [after, he.makes, he.frees]

omit [DecidableEq H] in
theorem Destroys.given {e : E} {h : H} (he : Destroys lib e h) (L : List H) :
    Given lib (h :: L) e := by
  simp [Given, he.uses, he.frees]

theorem tidy_ret (a : α) : Tidy lib (.ret a : Prog E R N X α) L := rfl

theorem tidy_throw (x : X) : Tidy lib (.throw x : Prog E R N X α) L := rfl

theorem Tidy.bind {p : Prog E R N X α} {f : α → Prog E R N X β} (hp : Tidy lib p L)
    (hf : ∀ a, Tidy lib (f a) L) : Tidy lib (p >>= f) L := by
  refine safely_bind (safely_mono (fun r L' hL => ?_) hp)
  subst hL
  rcases r with x | a
  · rfl
  · exact hf a

theorem tidy_act {e : E} {f : R e → Prog E R N X β} (hplain : Plain lib e)
    (huses : ∀ h ∈ lib.uses e, h ∈ L) (hf : ∀ r, Tidy lib (f r) L) :
    Tidy lib ((act e : Prog E R N X (R e)) >>= f) L := by
  refine safely_act (fun h hh => huses h ?_) fun r _ => ?_
  · simpa [hplain.frees] using hh
  · rw [hplain.after_eq]
    exact hf r

/-- A call that makes an object for a scope. -/
theorem tidy_scope {e : E} {f : R e → Prog E R N X β} (free : H → E)
    (hfrees : lib.frees e = none) (huses : ∀ h ∈ lib.uses e, h ∈ L)
    (hfree : ∀ h, Destroys lib (free h) h)
    (hf : ∀ r, Tidy lib (f r) ((lib.makes e r).toList ++ L)) :
    Tidy lib ((act e : Prog E R N X (R e)) >>= fun r => scope free (f r) (lib.makes e r)) L := by
  refine safely_act (fun h hh => huses h ?_) fun r hnew => ?_
  · simpa [hfrees] using hh
  · have hbody := hf r
    have hafter : after lib L e r = (lib.makes e r).toList ++ L := by simp [after, hfrees]
    rw [hafter]
    rcases hmade : lib.makes e r with - | h
    · rw [hmade] at hbody
      exact hbody
    · rw [hmade] at hbody
      refine safely_atExit (safely_mono (fun r' L' hL => ?_) hbody)
      subst hL
      exact ⟨(hfree h).given L, fun a _ => (hfree h).after_cons L a⟩

end Ownership
