/-
Evlampy/Refinement.lean

Machines that answer queries, and what they are for.  A `Machine` answers a query and
goes on to another state; a `Spec` says which answers are right in each of its own
states, and how these go on.  A machine keeps to a specification where all its answers
are right (`KeepsTo`).

This is shown with a relation between the states of the two (`Simulation`): it holds at
the start, and where it holds the answer to every query is right and it holds again.  A
query may be guarded; then the runs whose queries all meet their guards are the ones in
which the machine keeps to the specification (`Simulation.keepsTo`).
-/
import Mathlib.Data.List.Induction
import Mathlib.Tactic.TypeStar

namespace Refinement

variable {Q : Type*} {R : Q → Type*} {S A : Type*}

/-- Answers to queries, with a state. -/
structure Machine (Q : Type*) (R : Q → Type*) (S : Type*) where
  start : S
  exec : (q : Q) → S → R q × S

/-- The answers that are right, and the state they are about. -/
structure Spec (Q : Type*) (R : Q → Type*) (A : Type*) where
  start : A
  Right : A → (q : Q) → R q → Prop
  next : A → Q → A

/-- The state after some queries. -/
def Machine.reached (m : Machine Q R S) (qs : List Q) : S :=
  qs.foldl (fun s q => (m.exec q s).2) m.start

/-- The abstract state after some queries. -/
def Spec.reached (p : Spec Q R A) (qs : List Q) : A := qs.foldl p.next p.start

theorem Machine.reached_append_singleton (m : Machine Q R S) (qs : List Q) (q : Q) :
    m.reached (qs ++ [q]) = (m.exec q (m.reached qs)).2 := by
  simp [Machine.reached]

theorem Spec.reached_append_singleton (p : Spec Q R A) (qs : List Q) (q : Q) :
    p.reached (qs ++ [q]) = p.next (p.reached qs) q := by
  simp [Spec.reached]

/-- All answers of the machine are right. -/
def KeepsTo (m : Machine Q R S) (p : Spec Q R A) (qs : List Q) : Prop :=
  ∀ before q after, qs = before ++ q :: after →
    p.Right (p.reached before) q (m.exec q (m.reached before)).1

/-- Every query meets its guard when it is asked. -/
def Guarded (p : Spec Q R A) (Guard : A → Q → Prop) (qs : List Q) : Prop :=
  ∀ before q after, qs = before ++ q :: after → Guard (p.reached before) q

/-- The states of the machine that stand for a state of the specification. -/
structure Simulation (m : Machine Q R S) (p : Spec Q R A) (Rel : S → A → Prop)
    (Guard : A → Q → Prop) : Prop where
  start : Rel m.start p.start
  right : ∀ s a q, Rel s a → Guard a q → p.Right a q (m.exec q s).1
  next : ∀ s a q, Rel s a → Guard a q → Rel (m.exec q s).2 (p.next a q)

variable {m : Machine Q R S} {p : Spec Q R A} {Rel : S → A → Prop} {Guard : A → Q → Prop}
  {qs : List Q}

theorem Guarded.of_append {qs' : List Q} (hg : Guarded p Guard (qs ++ qs')) :
    Guarded p Guard qs := by
  intro before q after heq
  apply hg before q (after ++ qs')
  rw [heq, List.append_assoc, List.cons_append]

/-- What every step keeps holds in every state. -/
theorem Spec.reached_induct {K : List Q → A → Prop} (h0 : K [] p.start)
    (hnext : ∀ qs a q, K qs a → K (qs ++ [q]) (p.next a q)) (qs : List Q) :
    K qs (p.reached qs) := by
  induction qs using List.reverseRecOn with
  | nil => exact h0
  | append_singleton qs q ih =>
      rw [p.reached_append_singleton]
      exact hnext qs _ q ih

/-- The relation holds in every state of a guarded run. -/
theorem Simulation.reached (hs : Simulation m p Rel Guard) (hg : Guarded p Guard qs) :
    Rel (m.reached qs) (p.reached qs) := by
  induction qs using List.reverseRecOn with
  | nil => exact hs.start
  | append_singleton qs q ih =>
      rw [m.reached_append_singleton, p.reached_append_singleton]
      exact hs.next _ _ q (ih hg.of_append) (hg qs q [] rfl)

/-- **Simulation.**  In a guarded run all answers are right. -/
theorem Simulation.keepsTo (hs : Simulation m p Rel Guard) (hg : Guarded p Guard qs) :
    KeepsTo m p qs := by
  rintro before q after rfl
  exact hs.right _ _ q (hs.reached hg.of_append) (hg before q after rfl)

end Refinement
