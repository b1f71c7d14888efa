/-
Evlampy/Prog.lean

Programs that call back into their environment.  A `Prog` is a tree of atomic
actions: it may return, throw, perform an action of the type `E` and continue
with its answer, or *yield*: hand control to the environment with a notice and
continue when the environment gives control back, normally or by throwing.

The actions themselves mean nothing here; `Machine.lean` runs programs against a
state.  This module has the monad, `try`/`catch`, and the one syntactic notion
the proofs need, `AllActs P N p`: every action the program may ever perform
satisfies `P`, and every notice it may ever give satisfies `N`, whatever the
answers are.
-/
import Mathlib.Tactic.TypeStar

namespace Callback

/-- Programs over actions `E` answered in `R`, notices `N`, exceptions `X`. -/
inductive Prog (E : Type) (R : E → Type) (N X α : Type) : Type
  | ret (a : α)
  | throw (x : X)
  | perform (e : E) (k : R e → Prog E R N X α)
  | yield (n : N) (k : Except X Unit → Prog E R N X α)

namespace Prog

variable {E : Type} {R : E → Type} {N X α β : Type}

/-! ### Sequencing and exceptions -/

/-- The second program begins where the first returns; what is thrown ends both. -/
def bind : Prog E R N X α → (α → Prog E R N X β) → Prog E R N X β
  | ret a, f => f a
  | throw x, _ => throw x
  | perform e k, f => perform e fun r => (k r).bind f
  | yield n k, f => yield n fun a => (k a).bind f

instance : Monad (Prog E R N X) where
  pure := ret
  bind := bind

/-- `try p catch (x) { h x }`. -/
def tryCatch : Prog E R N X α → (X → Prog E R N X α) → Prog E R N X α
  | ret a, _ => ret a
  | throw x, h => h x
  | perform e k, h => perform e fun r => (k r).tryCatch h
  | yield n k, h => yield n fun a => (k a).tryCatch h

/-- Run a pure computation that may throw. -/
def ofExcept : Except X α → Prog E R N X α
  | .ok a => ret a
  | .error x => throw x

/-- One action, with its answer. -/
def act (e : E) : Prog E R N X (R e) := perform e ret

/-- Hand control to the environment; what it throws is thrown on. -/
def notify (n : N) : Prog E R N X Unit := yield n ofExcept

theorem bind_assoc {γ : Type} (p : Prog E R N X α) (f : α → Prog E R N X β)
    (g : β → Prog E R N X γ) : (p.bind f).bind g = p.bind fun a => (f a).bind g := by
  induction p with
  | ret a => rfl
  | throw x => rfl
  | perform e k ih => exact congrArg (perform e) (funext ih)
  | yield n k ih => exact congrArg (yield n) (funext ih)

/-! ### All actions of a program -/

/-- Every action a program may perform satisfies `P`, every notice it may give
satisfies `Q`. -/
def AllActs (P : E → Prop) (Q : N → Prop) : Prog E R N X α → Prop
  | ret _ => True
  | throw _ => True
  | perform e k => P e ∧ ∀ r, (k r).AllActs P Q
  | yield n k => Q n ∧ ∀ a, (k a).AllActs P Q

variable {P : E → Prop} {Q : N → Prop}

@[simp] theorem allActs_act {e : E} : (act e : Prog E R N X (R e)).AllActs P Q ↔ P e :=
  ⟨fun h => h.1, fun h => ⟨h, fun _ => trivial⟩⟩

@[simp] theorem allActs_ofExcept (x : Except X α) :
    (ofExcept x : Prog E R N X α).AllActs P Q := by
  rcases x with x | a <;> trivial

@[simp] theorem allActs_notify {n : N} :
    (notify n : Prog E R N X Unit).AllActs P Q ↔ Q n :=
  ⟨fun h => h.1, fun h => ⟨h, fun a => allActs_ofExcept a⟩⟩

theorem AllActs.bind {p : Prog E R N X α} {f : α → Prog E R N X β} (hp : p.AllActs P Q)
    (hf : ∀ a, (f a).AllActs P Q) : (p.bind f).AllActs P Q := by
  induction p with
  | ret a => exact hf a
  | throw x => trivial
  | perform e k ih => exact ⟨hp.1, fun r => ih r (hp.2 r)⟩
  | yield n k ih => exact ⟨hp.1, fun a => ih a (hp.2 a)⟩

/-- One action, and then the rest. -/
theorem AllActs.act_bind {e : E} {f : R e → Prog E R N X β} (he : P e)
    (hf : ∀ r, (f r).AllActs P Q) : ((act e : Prog E R N X (R e)) >>= f).AllActs P Q :=
  ⟨he, hf⟩

/-- A pure computation, and then the rest. -/
theorem AllActs.ofExcept_bind {x : Except X α} {f : α → Prog E R N X β}
    (hf : ∀ a, x = .ok a → (f a).AllActs P Q) :
    ((ofExcept x : Prog E R N X α) >>= f).AllActs P Q := by
  rcases x with e | a
  · trivial
  · exact hf a rfl

theorem AllActs.tryCatch {p : Prog E R N X α} {h : X → Prog E R N X α} (hp : p.AllActs P Q)
    (hh : ∀ x, (h x).AllActs P Q) : (p.tryCatch h).AllActs P Q := by
  induction p with
  | ret a => trivial
  | throw x => exact hh x
  | perform e k ih => exact ⟨hp.1, fun r => ih r (hp.2 r)⟩
  | yield n k ih => exact ⟨hp.1, fun a => ih a (hp.2 a)⟩

/-- Conditions that always hold. -/
theorem AllActs.of_forall (hP : ∀ e, P e) (hQ : ∀ n, Q n) (p : Prog E R N X α) :
    p.AllActs P Q := by
  induction p with
  | ret a => trivial
  | throw x => trivial
  | perform e k ih => exact ⟨hP e, ih⟩
  | yield n k ih => exact ⟨hQ n, ih⟩

/-- `AllActs` for weaker conditions. -/
theorem AllActs.mono {P' : E → Prop} {Q' : N → Prop} {p : Prog E R N X α}
    (hP : ∀ e, P e → P' e) (hQ : ∀ n, Q n → Q' n) (hp : p.AllActs P Q) : p.AllActs P' Q' := by
  induction p with
  | ret a => trivial
  | throw x => trivial
  | perform e k ih => exact ⟨hP e hp.1, fun r => ih r (hp.2 r)⟩
  | yield n k ih => exact ⟨hQ n hp.1, fun a => ih a (hp.2 a)⟩

/-! ### What a program throws -/

/-- Whatever the program throws satisfies `T`, as long as what it is answered with does. -/
def Throws (T : X → Prop) : Prog E R N X α → Prop
  | ret _ => True
  | throw x => T x
  | perform _ k => ∀ r, (k r).Throws T
  | yield _ k => ∀ a, (∀ x, a = .error x → T x) → (k a).Throws T

variable {T : X → Prop}

theorem throws_ofExcept {x : Except X α} (hx : ∀ e, x = .error e → T e) :
    (ofExcept x : Prog E R N X α).Throws T := by
  rcases x with e | a
  · exact hx e rfl
  · trivial

theorem Throws.bind {p : Prog E R N X α} {f : α → Prog E R N X β} (hp : p.Throws T)
    (hf : ∀ a, (f a).Throws T) : (p.bind f).Throws T := by
  induction p with
  | ret a => exact hf a
  | throw x => exact hp
  | perform e k ih => exact fun r => ih r (hp r)
  | yield n k ih => exact fun a ha => ih a (hp a ha)

/-- One action, and then the rest. -/
theorem Throws.act_bind {e : E} {f : R e → Prog E R N X β} (hf : ∀ r, (f r).Throws T) :
    ((act e : Prog E R N X (R e)) >>= f).Throws T :=
  hf

/-! ### Programs at a place -/

/-- The program with all its actions at `s`, one of several places. -/
def tagged {S : Type} (s : S) : Prog E R N X α → Prog (S × E) (fun e => R e.2) N X α
  | ret a => ret a
  | throw x => throw x
  | perform e k => perform (s, e) fun r => (k r).tagged s
  | yield n k => yield n fun a => (k a).tagged s

theorem tagged_bind {S : Type} (s : S) (p : Prog E R N X α) (f : α → Prog E R N X β) :
    (p.bind f).tagged s = (p.tagged s).bind fun a => (f a).tagged s := by
  induction p with
  | ret a => rfl
  | throw x => rfl
  | perform e k ih => exact congrArg (perform (s, e)) (funext ih)
  | yield n k ih => exact congrArg (yield n) (funext ih)

theorem AllActs.tagged {S : Type} {s : S} {P : S × E → Prop} {p : Prog E R N X α}
    (hp : p.AllActs (fun e => P (s, e)) Q) : (p.tagged s).AllActs P Q := by
  induction p with
  | ret a => trivial
  | throw x => trivial
  | perform e k ih => exact ⟨hp.1, fun r => ih r (hp.2 r)⟩
  | yield n k ih => exact ⟨hp.1, fun a => ih a (hp.2 a)⟩

end Prog

end Callback
