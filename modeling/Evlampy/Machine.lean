/-
Evlampy/Machine.lean

Running programs that call back.  A `System` gives every atomic action its
effect on a state and every call its program.  One thread of control executes
calls; where a program yields, it is suspended on a stack and the environment
decides what happens next: it may issue further calls (which run on top of the
suspended one, and may be suspended themselves) or let the topmost suspended
program go on, normally or by throwing into it.  A run is the list of the
environment's `Move`s, so a statement about all runs is a statement about every
behaviour of the environment, at any depth of nesting.

The machine keeps a trace, newest entry first.  Each entry says which instance
of a call acted (instances are numbered in the order of the calls), what it did,
and the state before.

Proof rule.  `wp J I i p Q h` is the weakest precondition of a program that runs
as instance `i`: where `p` yields, the invariant `I` has to hold, and afterwards
only `I`, the already established invariant `J` and `Others` are known: the
state and the trace have changed by actions of other instances alone.
`run_invariant` turns such a statement about every call into an invariant of
every run.
-/
import Evlampy.Prog
import Mathlib.Data.List.Induction
import Mathlib.Logic.Relation
import Mathlib.Tactic.Basic

namespace Callback

open Relation

/-- The meaning of actions and calls. -/
structure System (E : Type) (R : E → Type) (N X Q ρ σ : Type) where
  exec : (e : E) → σ → R e × σ
  body : Q → Prog E R N X ρ

/-- What an instance of a call can be seen to do. -/
inductive Act (E N X Q ρ : Type)
  | called (q : Q)
  | did (e : E)
  | notified (n : N)
  | resumed (a : Except X Unit)
  | returned (r : Except X ρ)

/-- One act, by which instance, and the state it was made in. -/
structure Entry (E N X Q ρ σ : Type) where
  inst : Nat
  act : Act E N X Q ρ
  before : σ

/-- A state with the trace that led to it. -/
abbrev Hist (E N X Q ρ σ : Type) := σ × List (Entry E N X Q ρ σ)

/-- A suspended instance: what it has notified, and how it goes on. -/
structure Frame (E : Type) (R : E → Type) (N X ρ : Type) where
  inst : Nat
  notice : N
  resume : Except X Unit → Prog E R N X ρ

/-- A history, the instances that wait for an answer (the innermost first), and the number of
the next one. -/
structure Config (E : Type) (R : E → Type) (N X Q ρ σ : Type) where
  hist : Hist E N X Q ρ σ
  stack : List (Frame E R N X ρ)
  next : Nat

/-- The environment's moves. -/
inductive Move (X Q : Type)
  | call (q : Q)
  | answer (a : Except X Unit)

variable {E : Type} {R : E → Type} {N X Q ρ σ α β : Type}

namespace System

variable (sys : System E R N X Q ρ σ)

/-- The state after an act: only actions change it. -/
def after : Act E N X Q ρ → σ → σ
  | .did e, s => (sys.exec e s).2
  | _, s => s

/-- Let instance `i` act. -/
def push (h : Hist E N X Q ρ σ) (i : Nat) (a : Act E N X Q ρ) : Hist E N X Q ρ σ :=
  (sys.after a h.1, ⟨i, a, h.1⟩ :: h.2)

/-- Run instance `i` until it returns, throws or yields. -/
def advance (i : Nat) (stack : List (Frame E R N X ρ)) :
    Prog E R N X ρ → Hist E N X Q ρ σ → Hist E N X Q ρ σ × List (Frame E R N X ρ)
  | .ret a, h => (sys.push h i (.returned (.ok a)), stack)
  | .throw x, h => (sys.push h i (.returned (.error x)), stack)
  | .perform e k, h => advance i stack (k (sys.exec e h.1).1) (sys.push h i (.did e))
  | .yield n k, h => (sys.push h i (.notified n), ⟨i, n, k⟩ :: stack)

/-- One move of the environment.  Without a suspended program there is nothing
to answer. -/
def step (c : Config E R N X Q ρ σ) : Move X Q → Config E R N X Q ρ σ
  | .call q =>
      let r := sys.advance c.next c.stack (sys.body q) (sys.push c.hist c.next (.called q))
      ⟨r.1, r.2, c.next + 1⟩
  | .answer a =>
      match c.stack with
      | [] => c
      | f :: rest =>
          let r := sys.advance f.inst rest (f.resume a) (sys.push c.hist f.inst (.resumed a))
          ⟨r.1, r.2, c.next⟩

/-- The configuration before the first move. -/
def start (s : σ) : Config E R N X Q ρ σ := ⟨(s, []), [], 0⟩

/-- A run of the environment's moves. -/
def run (s : σ) (ms : List (Move X Q)) : Config E R N X Q ρ σ :=
  ms.foldl sys.step (start s)

theorem run_append_singleton (s : σ) (ms : List (Move X Q)) (m : Move X Q) :
    sys.run s (ms ++ [m]) = sys.step (sys.run s ms) m := by
  simp [run, List.foldl_append]

/-! ### Acts of other instances -/

/-- One act of an instance other than `i`. -/
def OtherStep (i : Nat) (h h' : Hist E N X Q ρ σ) : Prop :=
  ∃ j a, j ≠ i ∧ h' = sys.push h j a

/-- `h'` is reached from `h` by acts of instances other than `i`. -/
def Others (i : Nat) : Hist E N X Q ρ σ → Hist E N X Q ρ σ → Prop :=
  ReflTransGen (sys.OtherStep i)

variable {sys}

/-- Other instances only add entries, and none of instance `i`. -/
theorem Others.trace {i : Nat} {h h' : Hist E N X Q ρ σ} (ho : sys.Others i h h') :
    ∃ new, h'.2 = new ++ h.2 ∧ ∀ x ∈ new, x.inst ≠ i := by
  induction ho with
  | refl => exact ⟨[], rfl, by simp⟩
  | tail _ hstep ih =>
      obtain ⟨j, a, hj, rfl⟩ := hstep
      obtain ⟨new, hnew, hinst⟩ := ih
      refine ⟨⟨j, a, _⟩ :: new, congrArg (List.cons _) hnew, ?_⟩
      intro x hx
      rcases List.mem_cons.mp hx with rfl | hx
      · exact hj
      · exact hinst x hx

/-! ### The own entries of an instance -/

/-- The entries of instance `i`. -/
def own (i : Nat) (t : List (Entry E N X Q ρ σ)) : List (Entry E N X Q ρ σ) :=
  t.filter fun x => x.inst = i

theorem mem_own {i : Nat} {t : List (Entry E N X Q ρ σ)} {x : Entry E N X Q ρ σ} :
    x ∈ own i t ↔ x ∈ t ∧ x.inst = i := by
  simp [own]

theorem own_cons_self {i : Nat} {t : List (Entry E N X Q ρ σ)} (a : Act E N X Q ρ) (s : σ) :
    own i (⟨i, a, s⟩ :: t) = ⟨i, a, s⟩ :: own i t := by
  simp [own]

theorem own_cons_ne {i j : Nat} (hj : j ≠ i) {t : List (Entry E N X Q ρ σ)}
    (a : Act E N X Q ρ) (s : σ) : own i (⟨j, a, s⟩ :: t) = own i t := by
  simp [own, hj]

theorem Others.own_eq {i : Nat} {h h' : Hist E N X Q ρ σ} (ho : sys.Others i h h') :
    own i h'.2 = own i h.2 := by
  obtain ⟨new, hnew, hinst⟩ := ho.trace
  rw [hnew, own, List.filter_append, own]
  have hnil : new.filter (fun x => x.inst = i) = [] :=
    List.filter_eq_nil_iff.mpr fun x hx => by simpa using hinst x hx
  rw [hnil, List.nil_append]

/-! ### Weakest preconditions -/

variable (sys) in
/-- The weakest precondition of a program run by instance `i`, with the
invariant `I` to be kept at every yield and the invariant `J` known there. -/
def wp (J I : Hist E N X Q ρ σ → Prop) (i : Nat) :
    Prog E R N X α → (Except X α → Hist E N X Q ρ σ → Prop) → Hist E N X Q ρ σ → Prop
  | .ret a, post, h => post (.ok a) h
  | .throw x, post, h => post (.error x) h
  | .perform e k, post, h => wp J I i (k (sys.exec e h.1).1) post (sys.push h i (.did e))
  | .yield n k, post, h =>
      I (sys.push h i (.notified n)) ∧
        ∀ a h', J h' → I h' → sys.Others i (sys.push h i (.notified n)) h' →
          wp J I i (k a) post (sys.push h' i (.resumed a))

variable {J I : Hist E N X Q ρ σ → Prop} {i : Nat}

@[simp] theorem wp_act {e : E} {post : Except X (R e) → Hist E N X Q ρ σ → Prop}
    {h : Hist E N X Q ρ σ} :
    sys.wp J I i (Prog.act e) post h
      ↔ post (.ok (sys.exec e h.1).1) (sys.push h i (.did e)) := Iff.rfl

theorem wp_mono {p : Prog E R N X α} {post post' : Except X α → Hist E N X Q ρ σ → Prop}
    (hpost : ∀ r h, post r h → post' r h) {h : Hist E N X Q ρ σ} (hp : sys.wp J I i p post h) :
    sys.wp J I i p post' h := by
  induction p generalizing h with
  | ret a => exact hpost _ _ hp
  | throw x => exact hpost _ _ hp
  | perform e k ih => exact ih _ hp
  | yield n k ih => exact ⟨hp.1, fun a h' hJ hI ho => ih a (hp.2 a h' hJ hI ho)⟩

/-- Sequencing: the second program starts where the first returned. -/
theorem wp_bind {p : Prog E R N X α} {f : α → Prog E R N X β}
    {post : Except X β → Hist E N X Q ρ σ → Prop} {h : Hist E N X Q ρ σ} :
    sys.wp J I i (p.bind f) post h
      ↔ sys.wp J I i p (fun r h => match r with
          | .ok a => sys.wp J I i (f a) post h
          | .error x => post (.error x) h) h := by
  induction p generalizing h with
  | ret a => exact Iff.rfl
  | throw x => exact Iff.rfl
  | perform e k ih => exact ih _
  | yield n k ih =>
      refine and_congr_right fun _ => ?_
      exact forall_congr' fun a => forall_congr' fun h' =>
        forall_congr' fun _ => forall_congr' fun _ => forall_congr' fun _ => ih a

theorem wp_tryCatch {p : Prog E R N X α} {f : X → Prog E R N X α}
    {post : Except X α → Hist E N X Q ρ σ → Prop} {h : Hist E N X Q ρ σ} :
    sys.wp J I i (p.tryCatch f) post h
      ↔ sys.wp J I i p (fun r h => match r with
          | .ok a => post (.ok a) h
          | .error x => sys.wp J I i (f x) post h) h := by
  induction p generalizing h with
  | ret a => exact Iff.rfl
  | throw x => exact Iff.rfl
  | perform e k ih => exact ih _
  | yield n k ih =>
      refine and_congr_right fun _ => ?_
      exact forall_congr' fun a => forall_congr' fun h' =>
        forall_congr' fun _ => forall_congr' fun _ => forall_congr' fun _ => ih a

@[simp] theorem wp_ofExcept {x : Except X α} {post : Except X α → Hist E N X Q ρ σ → Prop}
    {h : Hist E N X Q ρ σ} : sys.wp J I i (Prog.ofExcept x) post h ↔ post x h := by
  rcases x with x | a <;> exact Iff.rfl

/-- A pure computation, and then the rest. -/
theorem wp_ofExcept_bind {x : Except X α} {f : α → Prog E R N X β}
    {post : Except X β → Hist E N X Q ρ σ → Prop} {h : Hist E N X Q ρ σ}
    (hok : ∀ a, x = .ok a → sys.wp J I i (f a) post h)
    (herr : ∀ e, x = .error e → post (.error e) h) :
    sys.wp J I i ((Prog.ofExcept x : Prog E R N X α) >>= f) post h := by
  rcases x with e | a
  · exact herr e rfl
  · exact hok a rfl

theorem wp_notify {n : N} {post : Except X Unit → Hist E N X Q ρ σ → Prop}
    {h : Hist E N X Q ρ σ} :
    sys.wp J I i (Prog.notify n) post h
      ↔ I (sys.push h i (.notified n)) ∧
        ∀ a h', J h' → I h' → sys.Others i (sys.push h i (.notified n)) h' →
          post a (sys.push h' i (.resumed a)) := by
  refine and_congr_right fun _ => ?_
  exact forall_congr' fun a => forall_congr' fun h' =>
    forall_congr' fun _ => forall_congr' fun _ => forall_congr' fun _ => wp_ofExcept

theorem wp_act_bind {e : E} {f : R e → Prog E R N X β}
    {post : Except X β → Hist E N X Q ρ σ → Prop} {h : Hist E N X Q ρ σ} :
    sys.wp J I i ((Prog.act e : Prog E R N X (R e)) >>= f) post h
      ↔ sys.wp J I i (f (sys.exec e h.1).1) post (sys.push h i (.did e)) := Iff.rfl

/-- One action, with names for its answer and for the history after it. -/
theorem wp_step {e : E} {f : R e → Prog E R N X β}
    {post : Except X β → Hist E N X Q ρ σ → Prop} {h : Hist E N X Q ρ σ}
    (k : ∀ r h', r = (sys.exec e h.1).1 → h' = sys.push h i (.did e) →
      sys.wp J I i (f r) post h') :
    sys.wp J I i ((Prog.act e : Prog E R N X (R e)) >>= f) post h :=
  k _ _ rfl rfl

/-- A program whose value is wrapped up. -/
theorem wp_bind_pure {p : Prog E R N X α} {f : α → β}
    {post : Except X β → Hist E N X Q ρ σ → Prop} {h : Hist E N X Q ρ σ} :
    sys.wp J I i (p >>= fun a => pure (f a)) post h
      ↔ sys.wp J I i p (fun r h => post (r.map f) h) h := by
  refine wp_bind.trans ⟨wp_mono fun r _ hr => ?_, wp_mono fun r _ hr => ?_⟩
  all_goals rcases r with x | a <;> exact hr

/-- The value a program returns does not matter to what it keeps. -/
theorem wp_map {K : Hist E N X Q ρ σ → Prop} {p : Prog E R N X α} {f : α → β}
    {post : Except X β → Hist E N X Q ρ σ → Prop} {h : Hist E N X Q ρ σ}
    (hpost : ∀ r h, K h → post r h) (hp : sys.wp J I i p (fun _ h => K h) h) :
    sys.wp J I i (p >>= fun a => pure (f a)) post h :=
  wp_bind_pure.mpr (wp_mono (fun _ h' hK => hpost _ h' hK) hp)

/-- What has been proved of a program knowing less may be used where more is known. -/
theorem wp_and {J' I' : Hist E N X Q ρ σ → Prop} {p : Prog E R N X α}
    {post post' : Except X α → Hist E N X Q ρ σ → Prop} {h : Hist E N X Q ρ σ}
    (hknown : ∀ h, J' h → J h ∧ I h) (hp : sys.wp J I i p post h) (hp' : sys.wp J' I' i p post' h) :
    sys.wp J' I' i p (fun r h => post r h ∧ post' r h) h := by
  induction p generalizing h with
  | ret a => exact ⟨hp, hp'⟩
  | throw x => exact ⟨hp, hp'⟩
  | perform e k ih => exact ih _ hp hp'
  | yield n k ih =>
      refine ⟨hp'.1, fun a h' hJ' hI' ho => ih a (hp.2 a h' ?_ ?_ ho) (hp'.2 a h' hJ' hI' ho)⟩
      · exact (hknown h' hJ').1
      · exact (hknown h' hJ').2

/-- A program all of whose actions and notices preserve `K` preserves `K`. -/
theorem wp_of_allActs {P : E → Prop} {V : N → Prop} {K : Hist E N X Q ρ σ → Prop}
    (hact : ∀ e h, P e → K h → K (sys.push h i (.did e)))
    (hnote : ∀ n h, V n → K h → I (sys.push h i (.notified n)) ∧
      ∀ a h', J h' → I h' → sys.Others i (sys.push h i (.notified n)) h' →
        K (sys.push h' i (.resumed a)))
    {p : Prog E R N X α} (hp : p.AllActs P V) {h : Hist E N X Q ρ σ} (hK : K h) :
    sys.wp J I i p (fun _ h => K h) h := by
  induction p generalizing h with
  | ret a => exact hK
  | throw x => exact hK
  | perform e k ih => exact ih _ (hp.2 _) (hact e h hp.1 hK)
  | yield n k ih =>
      obtain ⟨hI, hres⟩ := hnote n h hp.1 hK
      exact ⟨hI, fun a h' hJ hI' ho => ih a (hp.2 a) (hres a h' hJ hI' ho)⟩

/-- Up to its next stop, a program keeps what all its actions keep. -/
theorem advance_of_allActs {P : E → Prop} {V : N → Prop} {S : σ → Prop}
    (hact : ∀ e s, P e → S s → S (sys.exec e s).2) {p : Prog E R N X ρ} (hp : p.AllActs P V)
    {stack : List (Frame E R N X ρ)} {h : Hist E N X Q ρ σ} (hS : S h.1) :
    S (sys.advance i stack p h).1.1 := by
  induction p generalizing h with
  | ret a => exact hS
  | throw x => exact hS
  | perform e k ih => exact ih _ (hp.2 _) (hact e h.1 hp.1 hS)
  | yield n k ih => exact hS

/-- A program that cannot yield runs to its end. -/
theorem advance_of_wp {p : Prog E R N X ρ} {post : Except X ρ → Hist E N X Q ρ σ → Prop}
    {h : Hist E N X Q ρ σ} (hp : sys.wp J (fun _ => False) i p post h)
    (stack : List (Frame E R N X ρ)) : ∃ r h', post r h' ∧
      sys.advance i stack p h = (sys.push h' i (.returned r), stack) := by
  induction p generalizing h with
  | ret a => exact ⟨.ok a, h, hp, rfl⟩
  | throw x => exact ⟨.error x, h, hp, rfl⟩
  | perform e k ih => exact ih _ hp
  | yield n k ih => exact hp.1.elim

/-- A call that cannot yield returns in one move. -/
theorem step_of_wp {c : Config E R N X Q ρ σ} {q : Q}
    {post : Except X ρ → Hist E N X Q ρ σ → Prop}
    (hp : sys.wp J (fun _ => False) c.next (sys.body q) post (sys.push c.hist c.next (.called q))) :
    ∃ r h', post r h' ∧
      sys.step c (.call q) = ⟨sys.push h' c.next (.returned r), c.stack, c.next + 1⟩ := by
  obtain ⟨r, h', hpost, hadvance⟩ := advance_of_wp hp c.stack
  exact ⟨r, h', hpost, by simp only [step, hadvance]⟩

/-! ### Calm environments -/

variable (sys) in
/-- The weakest precondition of a program in an environment that gives control back
at once wherever the program yields. -/
def calmly (i : Nat) :
    Prog E R N X α → (Except X α → Hist E N X Q ρ σ → Prop) → Hist E N X Q ρ σ → Prop
  | .ret a, post, h => post (.ok a) h
  | .throw x, post, h => post (.error x) h
  | .perform e k, post, h => calmly i (k (sys.exec e h.1).1) post (sys.push h i (.did e))
  | .yield n k, post, h =>
      calmly i (k (.ok ())) post (sys.push (sys.push h i (.notified n)) i (.resumed (.ok ())))

theorem calmly_mono {p : Prog E R N X α} {post post' : Except X α → Hist E N X Q ρ σ → Prop}
    (hpost : ∀ r h, post r h → post' r h) {h : Hist E N X Q ρ σ} (hp : sys.calmly i p post h) :
    sys.calmly i p post' h := by
  induction p generalizing h with
  | ret a => exact hpost _ _ hp
  | throw x => exact hpost _ _ hp
  | perform e k ih => exact ih _ hp
  | yield n k ih => exact ih _ hp

theorem calmly_bind {p : Prog E R N X α} {f : α → Prog E R N X β}
    {post : Except X β → Hist E N X Q ρ σ → Prop} {h : Hist E N X Q ρ σ} :
    sys.calmly i (p.bind f) post h
      ↔ sys.calmly i p (fun r h => match r with
          | .ok a => sys.calmly i (f a) post h
          | .error x => post (.error x) h) h := by
  induction p generalizing h with
  | ret a => exact Iff.rfl
  | throw x => exact Iff.rfl
  | perform e k ih => exact ih _
  | yield n k ih => exact ih _

theorem calmly_tryCatch {p : Prog E R N X α} {f : X → Prog E R N X α}
    {post : Except X α → Hist E N X Q ρ σ → Prop} {h : Hist E N X Q ρ σ} :
    sys.calmly i (p.tryCatch f) post h
      ↔ sys.calmly i p (fun r h => match r with
          | .ok a => post (.ok a) h
          | .error x => sys.calmly i (f x) post h) h := by
  induction p generalizing h with
  | ret a => exact Iff.rfl
  | throw x => exact Iff.rfl
  | perform e k ih => exact ih _
  | yield n k ih => exact ih _

/-- One action, with names for its answer and for the history after it. -/
theorem calmly_step {e : E} {f : R e → Prog E R N X β}
    {post : Except X β → Hist E N X Q ρ σ → Prop} {h : Hist E N X Q ρ σ}
    (k : ∀ r h', r = (sys.exec e h.1).1 → h' = sys.push h i (.did e) →
      sys.calmly i (f r) post h') :
    sys.calmly i ((Prog.act e : Prog E R N X (R e)) >>= f) post h :=
  k _ _ rfl rfl

theorem calmly_ofExcept_bind {x : Except X α} {f : α → Prog E R N X β}
    {post : Except X β → Hist E N X Q ρ σ → Prop} {h : Hist E N X Q ρ σ}
    (hok : ∀ a, x = .ok a → sys.calmly i (f a) post h)
    (herr : ∀ e, x = .error e → post (.error e) h) :
    sys.calmly i ((Prog.ofExcept x : Prog E R N X α) >>= f) post h := by
  rcases x with e | a
  · exact herr e rfl
  · exact hok a rfl

variable (sys) in
/-- In a calm environment a program ends, after as many answers as it yields. -/
theorem run_of_calmly {p : Prog E R N X ρ} {post : Except X ρ → Hist E N X Q ρ σ → Prop}
    {h : Hist E N X Q ρ σ} (hp : sys.calmly i p post h) (stack : List (Frame E R N X ρ))
    (next : Nat) : ∃ k r h', post r h' ∧
      (List.replicate k (.answer (.ok ()))).foldl sys.step
          ⟨(sys.advance i stack p h).1, (sys.advance i stack p h).2, next⟩
        = ⟨sys.push h' i (.returned r), stack, next⟩ := by
  induction p generalizing h with
  | ret a => exact ⟨0, .ok a, h, hp, rfl⟩
  | throw x => exact ⟨0, .error x, h, hp, rfl⟩
  | perform e k ih => exact ih _ hp
  | yield n k ih =>
      obtain ⟨m, r, h', hpost, hrun⟩ := ih _ hp
      exact ⟨m + 1, r, h', hpost, hrun⟩

/-! ### Invariants of runs -/

/-- The postcondition of a call: the invariant holds once it has returned. -/
def Kept (I : Hist E N X Q ρ σ → Prop) (sys : System E R N X Q ρ σ) (i : Nat) :
    Except X ρ → Hist E N X Q ρ σ → Prop :=
  fun r h => I (sys.push h i (.returned r))

/-- What is known of a suspended instance: its newest entry is its notice, and
it keeps the invariant when it goes on. -/
def Suspended (sys : System E R N X Q ρ σ) (J I : Hist E N X Q ρ σ → Prop)
    (f : Frame E R N X ρ) (h : Hist E N X Q ρ σ) : Prop :=
  (∃ s, (own f.inst h.2).head? = some ⟨f.inst, .notified f.notice, s⟩) ∧
    ∀ a h', J h' → I h' → sys.Others f.inst h h' →
      sys.wp J I f.inst (f.resume a) (Kept I sys f.inst) (sys.push h' f.inst (.resumed a))

theorem Suspended.push {f : Frame E R N X ρ} {h : Hist E N X Q ρ σ} {j : Nat}
    (hj : j ≠ f.inst) (a : Act E N X Q ρ) (hf : sys.Suspended J I f h) :
    sys.Suspended J I f (sys.push h j a) := by
  refine ⟨?_, fun b h' hJ hI ho => hf.2 b h' hJ hI (ho.head ⟨j, a, hj, rfl⟩)⟩
  rw [System.push, own_cons_ne hj]
  exact hf.1

/-- Running one instance up to its next stop keeps the invariant and everything
known about the suspended ones. -/
theorem advance_kept {stack : List (Frame E R N X ρ)} {p : Prog E R N X ρ}
    {h : Hist E N X Q ρ σ} (hp : sys.wp J I i p (Kept I sys i) h)
    (hstack : ∀ f ∈ stack, f.inst ≠ i ∧ sys.Suspended J I f h) :
    I (sys.advance i stack p h).1 ∧
      ∀ f ∈ (sys.advance i stack p h).2, sys.Suspended J I f (sys.advance i stack p h).1 := by
  induction p generalizing h with
  | ret a => exact ⟨hp, fun f hf => (hstack f hf).2.push (hstack f hf).1.symm _⟩
  | throw x => exact ⟨hp, fun f hf => (hstack f hf).2.push (hstack f hf).1.symm _⟩
  | perform e k ih =>
      exact ih _ hp fun f hf =>
        ⟨(hstack f hf).1, (hstack f hf).2.push (hstack f hf).1.symm _⟩
  | yield n k ih =>
      refine ⟨hp.1, fun f hf => ?_⟩
      rcases List.mem_cons.mp hf with rfl | hf
      · -- the instance that has just stopped
        refine ⟨⟨h.1, ?_⟩, hp.2⟩
        simp [advance, System.push, own_cons_self]
      · exact (hstack f hf).2.push (hstack f hf).1.symm _

variable (sys) in
theorem advance_act_bind (i : Nat) (stack : List (Frame E R N X ρ)) (e : E)
    (f : R e → Prog E R N X ρ) (h : Hist E N X Q ρ σ) :
    sys.advance i stack ((Prog.act e : Prog E R N X (R e)) >>= f) h
      = sys.advance i stack (f (sys.exec e h.1).1) (sys.push h i (.did e)) := rfl

variable (sys) in
/-- The instances on the stack after a run of instance `i`. -/
theorem advance_stack (i : Nat) (stack : List (Frame E R N X ρ)) (p : Prog E R N X ρ)
    (h : Hist E N X Q ρ σ) :
    (sys.advance i stack p h).2 = stack ∨
      ∃ f, f.inst = i ∧ (sys.advance i stack p h).2 = f :: stack := by
  induction p generalizing h with
  | ret a => exact Or.inl rfl
  | throw x => exact Or.inl rfl
  | perform e k ih => exact ih _ _
  | yield n k ih => exact Or.inr ⟨_, rfl, rfl⟩

theorem advance_inst_lt {stack : List (Frame E R N X ρ)} {p : Prog E R N X ρ}
    {h : Hist E N X Q ρ σ} {b : Nat} (hi : i < b) (hh : ∀ x ∈ h.2, x.inst < b) :
    ∀ x ∈ (sys.advance i stack p h).1.2, x.inst < b := by
  have hpush : ∀ {h : Hist E N X Q ρ σ} (a : Act E N X Q ρ), (∀ x ∈ h.2, x.inst < b) →
      ∀ x ∈ (sys.push h i a).2, x.inst < b := by
    intro h a hh x hx
    rcases List.mem_cons.mp hx with rfl | hx
    · exact hi
    · exact hh x hx
  induction p generalizing h with
  | ret a => exact hpush _ hh
  | throw x => exact hpush _ hh
  | perform e k ih => exact ih _ (hpush _ hh)
  | yield n k ih => exact hpush _ hh

/-- Instance numbers are below the counter and those on the stack differ. -/
structure Numbered (c : Config E R N X Q ρ σ) : Prop where
  trace_lt : ∀ x ∈ c.hist.2, x.inst < c.next
  stack_lt : ∀ f ∈ c.stack, f.inst < c.next
  nodup : (c.stack.map Frame.inst).Nodup

theorem Numbered.advance {c : Config E R N X Q ρ σ} {stack : List (Frame E R N X ρ)} {b : Nat}
    {p : Prog E R N X ρ} {h : Hist E N X Q ρ σ} (hi : i < b) (hh : ∀ x ∈ h.2, x.inst < b)
    (hlt : ∀ f ∈ stack, f.inst < b) (hne : ∀ f ∈ stack, f.inst ≠ i)
    (hnd : (stack.map Frame.inst).Nodup)
    (hc : c = ⟨(sys.advance i stack p h).1, (sys.advance i stack p h).2, b⟩) : Numbered c := by
  subst hc
  refine ⟨advance_inst_lt hi hh, ?_, ?_⟩
  · rcases advance_stack sys i stack p h with e | ⟨f, hf, e⟩
    · simpa only [e] using hlt
    · intro g hg
      rw [e] at hg
      rcases List.mem_cons.mp hg with rfl | hg
      · rw [hf]
        exact hi
      · exact hlt g hg
  · rcases advance_stack sys i stack p h with e | ⟨f, hf, e⟩
    · simpa only [e] using hnd
    · simp only [e, List.map_cons, List.nodup_cons, hf]
      refine ⟨?_, hnd⟩
      rintro hmem
      obtain ⟨g, hg, hgi⟩ := List.mem_map.mp hmem
      exact hne g hg hgi

variable (sys) in
theorem numbered_run (s : σ) (ms : List (Move X Q)) : Numbered (sys.run s ms) := by
  induction ms using List.reverseRecOn with
  | nil => exact ⟨by simp [run, start], by simp [run, start], by simp [run, start]⟩
  | append_singleton ms m ih =>
      rw [run_append_singleton]
      generalize sys.run s ms = c at ih
      obtain ⟨htr, hst, hnd⟩ := ih
      cases m with
      | call q =>
          refine Numbered.advance (i := c.next) (Nat.lt_succ_self _) ?_
            (fun f hf => Nat.lt_succ_of_lt (hst f hf))
            (fun f hf => Nat.ne_of_lt (hst f hf)) hnd rfl
          intro x hx
          rcases List.mem_cons.mp hx with rfl | hx
          · exact Nat.lt_succ_self _
          · exact Nat.lt_succ_of_lt (htr x hx)
      | answer a =>
          rcases hs : c.stack with - | ⟨f, rest⟩
          · simp only [step, hs]
            exact ⟨htr, hst, hnd⟩
          · rw [hs, List.map_cons, List.nodup_cons] at hnd
            rw [hs] at hst
            have hlt := hst f (by simp)
            simp only [step, hs]
            refine Numbered.advance (i := f.inst) hlt ?_ (fun g hg => hst g (by simp [hg]))
              (fun g hg e => hnd.1 (List.mem_map.mpr ⟨g, hg, e⟩)) hnd.2 rfl
            intro x hx
            rcases List.mem_cons.mp hx with rfl | hx
            · exact hlt
            · exact htr x hx

variable (sys) in
/-- **Invariants of runs.**  If `J` holds throughout every run, `I` holds at the
start and every call keeps `I` (knowing `J`), then `I` holds throughout every
run, whatever the environment does. -/
theorem run_invariant {s : σ} (hJ : ∀ ms, J (sys.run s ms).hist) (h0 : I (s, []))
    (hcall : ∀ q h i, J h → I h → (∀ x ∈ h.2, x.inst < i) →
      sys.wp J I i (sys.body q) (Kept I sys i) (sys.push h i (.called q)))
    (ms : List (Move X Q)) :
    I (sys.run s ms).hist ∧ ∀ f ∈ (sys.run s ms).stack, sys.Suspended J I f (sys.run s ms).hist := by
  induction ms using List.reverseRecOn with
  | nil => exact ⟨h0, by simp [run, start]⟩
  | append_singleton ms m ih =>
      have hJc := hJ ms
      have hnum := numbered_run sys s ms
      rw [run_append_singleton]
      generalize sys.run s ms = c at ih hJc hnum
      obtain ⟨hI, hsus⟩ := ih
      cases m with
      | call q =>
          -- a call has a number of its own, below which all others are
          refine advance_kept (hcall q c.hist c.next hJc hI hnum.trace_lt) fun f hf => ?_
          have hne : f.inst ≠ c.next := Nat.ne_of_lt (hnum.stack_lt f hf)
          exact ⟨hne, (hsus f hf).push hne.symm _⟩
      | answer a =>
          rcases hs : c.stack with - | ⟨f, rest⟩
          · simp only [step, hs]
            exact ⟨hI, by simp⟩
          · have hnd := hnum.nodup
            rw [hs, List.map_cons, List.nodup_cons] at hnd
            rw [hs] at hsus
            simp only [step, hs]
            -- the topmost frame goes on; those below it have other numbers
            refine advance_kept ((hsus f (by simp)).2 a c.hist hJc hI .refl) fun g hg => ?_
            have hne : g.inst ≠ f.inst := fun e => hnd.1 (List.mem_map.mpr ⟨g, hg, e⟩)
            exact ⟨hne, (hsus g (by simp [hg])).push hne.symm _⟩

variable (sys) in
/-- What every action keeps of the state, every move keeps. -/
theorem step_kept {S : σ → Prop} (hact : ∀ e s, S s → S (sys.exec e s).2)
    (c : Config E R N X Q ρ σ) (m : Move X Q) (hS : S c.hist.1) : S (sys.step c m).hist.1 := by
  have hadvance : ∀ i stack (p : Prog E R N X ρ) (h : Hist E N X Q ρ σ), S h.1 →
      S (sys.advance i stack p h).1.1 := fun i stack p h hS =>
    advance_of_allActs (P := fun _ => True) (V := fun _ => True) (fun e s _ => hact e s)
      (.of_forall (fun _ => trivial) (fun _ => trivial) p) hS
  cases m with
  | call q => exact hadvance _ _ _ _ hS
  | answer a =>
      rcases hs : c.stack with - | ⟨f, rest⟩
      · simpa only [step, hs] using hS
      · simp only [step, hs]
        exact hadvance _ _ _ _ hS

variable (sys) in
/-- What every action keeps of the state holds in all later states of a run. -/
theorem run_append_kept {S : σ → Prop} (hact : ∀ e s, S s → S (sys.exec e s).2) (s : σ)
    (ms ms' : List (Move X Q)) (hS : S (sys.run s ms).hist.1) :
    S (sys.run s (ms ++ ms')).hist.1 := by
  induction ms' using List.reverseRecOn with
  | nil => simpa using hS
  | append_singleton ms' m ih =>
      rw [← List.append_assoc, run_append_singleton]
      exact step_kept sys hact _ m ih

/-! ### Programs that keep an invariant -/

variable (sys) in
/-- Run anywhere by anyone, `p` keeps the invariant `I`. -/
def Keeps (I : Hist E N X Q ρ σ → Prop) (p : Prog E R N X α) : Prop :=
  ∀ i h, I h → sys.wp (fun _ => True) I i p (fun _ h => I h) h

theorem Keeps.bind {p : Prog E R N X α} {f : α → Prog E R N X β} (hp : sys.Keeps I p)
    (hf : ∀ a, sys.Keeps I (f a)) : sys.Keeps I (p >>= f) := by
  intro i h hI
  refine wp_bind.mpr (wp_mono (fun r h' hI' => ?_) (hp i h hI))
  rcases r with x | a
  · exact hI'
  · exact hf a i h' hI'

/-- An invariant that acts other than actions keep anyway. -/
theorem Keeps.of_allActs {P : E → Prop} {V : N → Prop} {p : Prog E R N X α} (hp : p.AllActs P V)
    (hact : ∀ i e h, P e → I h → I (sys.push h i (.did e)))
    (hpush : ∀ i a h, (∀ e, a ≠ .did e) → I h → I (sys.push h i a)) : sys.Keeps I p := by
  intro i h hI
  refine wp_of_allActs (K := I) (fun e h => hact i e h) (fun n h _ hI => ⟨?_, ?_⟩) hp hI
  · exact hpush i _ h (fun _ e => by cases e) hI
  · exact fun a h' _ hI' _ => hpush i _ h' (fun _ e => by cases e) hI'

variable (sys) in
/-- An invariant that every call keeps holds throughout every run. -/
theorem run_keeps {s : σ} (h0 : I (s, [])) (hbody : ∀ q, sys.Keeps I (sys.body q))
    (hpush : ∀ i a h, (∀ e, a ≠ .did e) → I h → I (sys.push h i a)) (ms : List (Move X Q)) :
    I (sys.run s ms).hist := by
  refine (run_invariant sys (J := fun _ => True) (I := I) (fun _ => trivial) h0 ?_ ms).1
  intro q h i _ hI _
  refine wp_mono (fun r h' hI' => hpush i _ h' (fun _ e => by cases e) hI') (hbody q i _ ?_)
  exact hpush i _ h (fun _ e => by cases e) hI

/-- Every program keeps an invariant that all acts keep. -/
theorem Keeps.of_push (hpush : ∀ i a h, I h → I (sys.push h i a)) (p : Prog E R N X α) :
    sys.Keeps I p :=
  .of_allActs (.of_forall (P := fun _ => True) (Q := fun _ => True) (fun _ => trivial)
    (fun _ => trivial) p) (fun i e h _ => hpush i (.did e) h) fun i a h _ => hpush i a h

theorem after_kept {S : σ → Prop} (hact : ∀ e s, S s → S (sys.exec e s).2)
    (a : Act E N X Q ρ) {s : σ} (hS : S s) : S (sys.after a s) := by
  cases a with
  | did e => exact hact e s hS
  | _ => exact hS

variable (sys) in
/-- What every action keeps and held before some entry holds at the end of a run. -/
theorem kept_of_before {S : σ → Prop} (hact : ∀ e s, S s → S (sys.exec e s).2) (s : σ)
    (ms : List (Move X Q)) {x : Entry E N X Q ρ σ} (hx : x ∈ (sys.run s ms).hist.2)
    (hS : S x.before) : S (sys.run s ms).hist.1 := by
  have hpush : ∀ i a (h : Hist E N X Q ρ σ), (∀ x ∈ h.2, S x.before → S h.1) →
      ∀ x ∈ (sys.push h i a).2, S x.before → S (sys.push h i a).1 := by
    intro i a h hI x hx hS
    rcases List.mem_cons.mp hx with rfl | hx
    · exact after_kept hact a hS
    · exact after_kept hact a (hI x hx hS)
  exact run_keeps sys (I := fun h => ∀ x ∈ h.2, S x.before → S h.1) (fun x hx => nomatch hx)
    (fun q => .of_push hpush _) (fun i a h _ => hpush i a h) ms x hx hS

variable (sys) in
/-- What every action keeps and held at the start held before every entry. -/
theorem before_kept {S : σ → Prop} (hact : ∀ e s, S s → S (sys.exec e s).2) {s : σ} (h0 : S s)
    (ms : List (Move X Q)) {x : Entry E N X Q ρ σ} (hx : x ∈ (sys.run s ms).hist.2) :
    S x.before := by
  have hpush : ∀ i a (h : Hist E N X Q ρ σ), (S h.1 ∧ ∀ x ∈ h.2, S x.before) →
      S (sys.push h i a).1 ∧ ∀ x ∈ (sys.push h i a).2, S x.before := by
    rintro i a h ⟨hS, hI⟩
    refine ⟨after_kept hact a hS, fun x hx => ?_⟩
    rcases List.mem_cons.mp hx with rfl | hx
    · exact hS
    · exact hI x hx
  exact (run_keeps sys (I := fun h => S h.1 ∧ ∀ x ∈ h.2, S x.before)
    ⟨h0, fun x hx => nomatch hx⟩ (fun q => .of_push hpush _)
    (fun i a h _ => hpush i a h) ms).2 x hx

/-! ### Suspended programs -/

theorem advance_frame {P : E → Prop} {V : N → Prop} {p : Prog E R N X ρ} (hp : p.AllActs P V)
    {stack : List (Frame E R N X ρ)} {h : Hist E N X Q ρ σ} {f : Frame E R N X ρ}
    (hf : f ∈ (sys.advance i stack p h).2) :
    f ∈ stack ∨ (V f.notice ∧ ∀ a, (f.resume a).AllActs P V) := by
  induction p generalizing h with
  | ret a => exact Or.inl hf
  | throw x => exact Or.inl hf
  | perform e k ih => exact ih _ (hp.2 _) hf
  | yield n k ih =>
      rcases List.mem_cons.mp hf with rfl | hf
      · exact Or.inr hp
      · exact Or.inl hf

variable (sys) in
/-- What one run of an instance adds to the trace. -/
theorem advance_new (i : Nat) (stack : List (Frame E R N X ρ)) {P : E → Prop} {V : N → Prop}
    {S : σ → Prop} (hact : ∀ e s, P e → S s → S (sys.exec e s).2) {p : Prog E R N X ρ}
    (hp : p.AllActs P V) {h : Hist E N X Q ρ σ} (hS : S h.1) :
    ∃ new, (sys.advance i stack p h).1.2 = new ++ h.2 ∧
      ∀ x ∈ new, S x.before ∧ ∀ e, x.act = .did e → P e := by
  induction p generalizing h with
  | ret a => exact ⟨[_], rfl, by simpa using hS⟩
  | throw x => exact ⟨[_], rfl, by simpa using hS⟩
  | perform e k ih =>
      obtain ⟨new, hnew, hall⟩ := ih (sys.exec e h.1).1 (hp.2 _) (h := sys.push h i (.did e))
        (hact e h.1 hp.1 hS)
      refine ⟨new ++ [⟨i, .did e, h.1⟩], by rw [List.append_assoc]; exact hnew, fun x hx => ?_⟩
      rcases List.mem_append.mp hx with hx | hx
      · exact hall x hx
      · rw [List.mem_singleton.mp hx]
        exact ⟨hS, fun e' he => by cases he; exact hp.1⟩
  | yield n k ih => exact ⟨[_], rfl, by simpa using hS⟩

variable (sys) in
/-- A suspended program is the rest of a call: it does what the call may do. -/
theorem stack_allActs {P : Q → E → Prop} {V : Q → N → Prop}
    (hbody : ∀ q, (sys.body q).AllActs (P q) (V q)) (s : σ) (ms : List (Move X Q)) :
    ∀ f ∈ (sys.run s ms).stack, ∃ q, V q f.notice ∧ ∀ a, (f.resume a).AllActs (P q) (V q) := by
  induction ms using List.reverseRecOn with
  | nil => exact fun f hf => nomatch hf
  | append_singleton ms m ih =>
      intro f hf
      rw [run_append_singleton] at hf
      cases m with
      | call q =>
          rcases advance_frame (hbody q) hf with hold | hnew
          · exact ih f hold
          · exact ⟨q, hnew⟩
      | answer a =>
          rcases hs : (sys.run s ms).stack with - | ⟨g, rest⟩
          · simp only [step, hs, List.not_mem_nil] at hf
          · rw [hs] at ih
            obtain ⟨q, -, hresume⟩ := ih g List.mem_cons_self
            simp only [step, hs] at hf
            rcases advance_frame (hresume a) hf with hold | hnew
            · exact ih f (List.mem_cons_of_mem _ hold)
            · exact ⟨q, hnew⟩

/-! ### Contracts of calls -/

/-- Every call that has returned meets the contract `P`, which relates the call,
the state it was made in, its result and the state it returned in. -/
def Meets (P : Q → σ → Except X ρ → σ → Prop) (h : Hist E N X Q ρ σ) : Prop :=
  ∀ x ∈ h.2, ∀ y ∈ h.2, y.inst = x.inst → ∀ q r, x.act = .called q → y.act = .returned r →
    P q x.before r y.before

/-- Instance `i` is the call `q`, made in the state `s`, and has not returned. -/
def Begun (h : Hist E N X Q ρ σ) (i : Nat) (q : Q) (s : σ) : Prop :=
  ∀ x ∈ own i h.2, (∀ q', x.act = .called q' → q' = q ∧ x.before = s) ∧
    ∀ r, x.act ≠ .returned r

section Contracts

variable {P : Q → σ → Except X ρ → σ → Prop} {h : Hist E N X Q ρ σ} {q : Q} {s : σ}
  {a : Act E N X Q ρ}

theorem Begun.push (hb : Begun h i q s) (hcalled : ∀ q', a ≠ .called q')
    (hreturned : ∀ r, a ≠ .returned r) : Begun (sys.push h i a) i q s := by
  intro x hx
  rw [System.push, own_cons_self] at hx
  rcases List.mem_cons.mp hx with rfl | hx
  · exact ⟨fun q' e => absurd e (hcalled q'), hreturned⟩
  · exact hb x hx

/-- Acts that are neither the beginning nor the end of a call. -/
theorem Meets.push (hm : Meets P h) (hcalled : ∀ q', a ≠ .called q')
    (hreturned : ∀ r, a ≠ .returned r) : Meets P (sys.push h i a) := by
  intro x hx y hy hinst q r hq hr
  rcases List.mem_cons.mp hx with rfl | hx
  · exact absurd hq (hcalled q)
  · rcases List.mem_cons.mp hy with rfl | hy
    · exact absurd hr (hreturned r)
    · exact hm x hx y hy hinst q r hq hr

/-- A program keeps what its postcondition does not speak of: what acts in the
middle of a call keep, and which call it belongs to. -/
theorem wp_begun {K : Hist E N X Q ρ σ → Prop}
    (hK : ∀ h a, (∀ q', a ≠ .called q') → (∀ r, a ≠ .returned r) → Begun h i q s → K h →
      K (sys.push h i a))
    {p : Prog E R N X α} {post : Except X α → Hist E N X Q ρ σ → Prop}
    (hp : sys.wp J (fun _ => True) i p post h) (hm : K h) (hb : Begun h i q s) :
    sys.wp J K i p (fun r h' => post r h' ∧ K h' ∧ Begun h' i q s) h := by
  induction p generalizing h with
  | ret a => exact ⟨hp, hm, hb⟩
  | throw x => exact ⟨hp, hm, hb⟩
  | perform e k ih =>
      exact ih _ hp (hK h _ (fun _ e => by cases e) (fun _ e => by cases e) hb hm)
        (hb.push (fun _ e => by cases e) fun _ e => by cases e)
  | yield n k ih =>
      refine ⟨hK h _ (fun _ e => by cases e) (fun _ e => by cases e) hb hm, fun a h' hJ hI ho => ?_⟩
      have hb' : Begun h' i q s := by
        rw [Begun, ho.own_eq]
        exact hb.push (fun _ e => by cases e) fun _ e => by cases e
      exact ih a (hp.2 a h' hJ trivial ho)
        (hK h' _ (fun _ e => by cases e) (fun _ e => by cases e) hb' hI)
        (hb'.push (fun _ e => by cases e) fun _ e => by cases e)

/-- A call of an instance that has done nothing yet. -/
theorem Begun.called (hother : ∀ x ∈ h.2, x.inst ≠ i) :
    Begun (sys.push h i (.called q)) i q h.1 := by
  intro x hx
  rcases List.mem_cons.mp (mem_own.mp hx).1 with rfl | hold
  · refine ⟨fun q' e => ?_, fun r e => by cases e⟩
    cases e
    exact ⟨rfl, rfl⟩
  · exact absurd (mem_own.mp hx).2 (hother x hold)

variable (sys) in
/-- **Contracts.**  If every call meets `P` when it returns, knowing only the
invariant `J` and that others may act wherever it yields, then in every run every
call that has returned meets `P`. -/
theorem run_meets {s : σ} (hJ : ∀ ms, J (sys.run s ms).hist)
    (hcall : ∀ q h i, J h → sys.wp J (fun _ => True) i (sys.body q)
      (fun r h' => P q h.1 r h'.1) (sys.push h i (.called q)))
    (ms : List (Move X Q)) : Meets P (sys.run s ms).hist := by
  refine (run_invariant sys (J := J) (I := Meets P) hJ (fun x hx => nomatch hx) ?_ ms).1
  intro q h i hJh hI hlt
  have hother : ∀ x ∈ h.2, x.inst ≠ i := fun x hx => Nat.ne_of_lt (hlt x hx)
  -- the call is new, so no older entry is about it
  have hcalled : Meets P (sys.push h i (.called q)) := by
    intro x hx y hy hinst q' r hq hr
    rcases List.mem_cons.mp hy with rfl | hy
    · cases hr
    · rcases List.mem_cons.mp hx with rfl | hx
      · exact absurd hinst (hother y hy)
      · exact hI x hx y hy hinst q' r hq hr
  refine wp_mono (fun r h' hr => ?_) (wp_begun (fun h a hq hr _ hm => hm.push hq hr)
    (hcall q h i hJh) hcalled (.called hother))
  obtain ⟨hpost, hm, hb⟩ := hr
  intro x hx y hy hinst q' r' hq hr'
  rcases List.mem_cons.mp hx with rfl | hx
  · cases hq
  · rcases List.mem_cons.mp hy with rfl | hy
    · obtain ⟨rfl, hbefore⟩ := (hb x (mem_own.mpr ⟨hx, hinst.symm⟩)).1 q' hq
      cases hr'
      rw [hbefore]
      exact hpost
    · exact hm x hx y hy hinst q' r' hq hr'

/-- Nothing follows the return of a call, and what the call has done before it
meets `P`. -/
def Fulfils (P : Except X ρ → List (Entry E N X Q ρ σ) → Prop) (h : Hist E N X Q ρ σ) : Prop :=
  ∀ x ∈ h.2, ∀ r, x.act = .returned r → ∃ rest, own x.inst h.2 = x :: rest ∧ P r rest

section Fulfils

variable {P : Except X ρ → List (Entry E N X Q ρ σ) → Prop}

/-- Acts of an instance that has not returned leave those alone that have. -/
theorem Fulfils.push (hf : Fulfils P h) (hb : ∀ x ∈ own i h.2, ∀ r, x.act ≠ .returned r)
    (ha : ∀ r, a = .returned r → P r (own i h.2)) : Fulfils P (sys.push h i a) := by
  intro x hx r hr
  rcases List.mem_cons.mp hx with rfl | hx
  · exact ⟨own i h.2, own_cons_self a h.1, ha r hr⟩
  · obtain ⟨rest, hrest, hP⟩ := hf x hx r hr
    have hne : i ≠ x.inst := fun e => hb x (mem_own.mpr ⟨hx, e.symm⟩) r hr
    exact ⟨rest, (own_cons_ne hne a h.1).trans hrest, hP⟩

variable (sys) in
/-- **What calls do.**  If every call meets `P` when it returns, every call of a
run that has returned meets `P`, and has done nothing since. -/
theorem run_fulfils {s : σ} (hJ : ∀ ms, J (sys.run s ms).hist)
    (hcall : ∀ q h i, J h → own i h.2 = [] → sys.wp J (fun _ => True) i (sys.body q)
      (fun r h' => P r (own i h'.2)) (sys.push h i (.called q)))
    (ms : List (Move X Q)) : Fulfils P (sys.run s ms).hist := by
  refine (run_invariant sys (J := J) (I := Fulfils P) hJ (fun x hx => nomatch hx) ?_ ms).1
  intro q h i hJh hI hlt
  have hother : ∀ x ∈ h.2, x.inst ≠ i := fun x hx => Nat.ne_of_lt (hlt x hx)
  have hnone : own i h.2 = [] := List.filter_eq_nil_iff.mpr fun x hx => by simpa using hother x hx
  have hcalled : Fulfils P (sys.push h i (.called q)) := by
    refine hI.push (fun x hx => ?_) fun r e => by cases e
    rw [hnone] at hx
    cases hx
  refine wp_mono (fun r h' hr => ?_) (wp_begun (fun h a _ ha hb hf => ?_) (hcall q h i hJh hnone)
    hcalled (.called hother))
  · obtain ⟨hpost, hf, hb⟩ := hr
    refine hf.push (fun x hx => (hb x hx).2) fun r' e => ?_
    cases e
    exact hpost
  · exact hf.push (fun x hx => (hb x hx).2) fun r e => absurd e (ha r)

end Fulfils

variable (sys) in
/-- **Contracts with accounts.**  If every call meets `P` when it returns, which may
speak of all it has done, then in every run every call that has returned meets `P`,
and has done nothing since. -/
theorem run_accounts {P : Q → σ → Except X ρ → List (Entry E N X Q ρ σ) → Prop} {s : σ}
    (hJ : ∀ ms, J (sys.run s ms).hist)
    (hcall : ∀ q h i, J h → own i h.2 = [] → sys.wp J (fun _ => True) i (sys.body q)
      (fun r h' => P q h.1 r (own i h'.2)) (sys.push h i (.called q)))
    (ms : List (Move X Q)) {x y : Entry E N X Q ρ σ} (hx : x ∈ (sys.run s ms).hist.2)
    (hy : y ∈ (sys.run s ms).hist.2) (hinst : y.inst = x.inst) {q : Q} {r : Except X ρ}
    (hq : x.act = .called q) (hr : y.act = .returned r) :
    ∃ rest, own x.inst (sys.run s ms).hist.2 = y :: rest ∧ P q x.before r rest := by
  have hfulfils := run_fulfils sys (J := J)
    (P := fun r rest => ∀ x ∈ rest, ∀ q, x.act = .called q → P q x.before r rest) hJ
    (fun q h i hJh hnone => by
      refine wp_mono (fun r h' hpost => ?_) (wp_begun (K := fun _ => True)
        (fun _ _ _ _ _ _ => trivial) (hcall q h i hJh hnone) trivial (.called ?_))
      · obtain ⟨hP, -, hb⟩ := hpost
        intro z hz q' hq'
        obtain ⟨rfl, hbefore⟩ := (hb z hz).1 q' hq'
        rw [hbefore]
        exact hP
      · intro z hz hi
        have hmem := mem_own.mpr ⟨hz, hi⟩
        rw [hnone] at hmem
        cases hmem) ms
  obtain ⟨rest, hrest, hP⟩ := hfulfils y hy r hr
  rw [hinst] at hrest
  refine ⟨rest, hrest, hP x ?_ q hq⟩
  have hmem := mem_own.mpr ⟨hx, rfl⟩
  rw [hrest] at hmem
  rcases List.mem_cons.mp hmem with rfl | hmem
  · rw [hq] at hr
    cases hr
  · exact hmem

end Contracts

/-! ### Reading the trace of a run -/

theorem mem_advance {stack : List (Frame E R N X ρ)} {p : Prog E R N X ρ} {h : Hist E N X Q ρ σ}
    {x : Entry E N X Q ρ σ} (hx : x ∈ h.2) : x ∈ (sys.advance i stack p h).1.2 := by
  induction p generalizing h with
  | ret a => exact List.mem_cons_of_mem _ hx
  | throw y => exact List.mem_cons_of_mem _ hx
  | perform e k ih => exact ih _ (List.mem_cons_of_mem _ hx)
  | yield n k ih => exact List.mem_cons_of_mem _ hx

variable (sys) in
/-- A move only adds to the trace. -/
theorem mem_step (c : Config E R N X Q ρ σ) (m : Move X Q) {x : Entry E N X Q ρ σ}
    (hx : x ∈ c.hist.2) : x ∈ (sys.step c m).hist.2 := by
  cases m with
  | call q => exact mem_advance (List.mem_cons_of_mem _ hx)
  | answer a =>
      rcases hs : c.stack with - | ⟨f, rest⟩
      · simpa only [step, hs] using hx
      · simp only [step, hs]
        exact mem_advance (List.mem_cons_of_mem _ hx)

variable (sys) in
/-- The trace of a run begins with the traces of its beginnings. -/
theorem mem_run_of_take (s : σ) (ms : List (Move X Q)) (n : Nat) {x : Entry E N X Q ρ σ}
    (hx : x ∈ (sys.run s (ms.take n)).hist.2) : x ∈ (sys.run s ms).hist.2 := by
  have hfold : ∀ (ms : List (Move X Q)) (c : Config E R N X Q ρ σ), x ∈ c.hist.2 →
      x ∈ (ms.foldl sys.step c).hist.2 := by
    intro ms
    induction ms with
    | nil => exact fun c hc => hc
    | cons m ms ih => exact fun c hc => ih _ (mem_step sys c m hc)
  rw [← List.take_append_drop n ms, run, List.foldl_append]
  exact hfold _ _ hx

variable (sys) in
theorem trace_advance (i : Nat) (stack : List (Frame E R N X ρ)) (p : Prog E R N X ρ)
    (h : Hist E N X Q ρ σ) : ∃ new, (sys.advance i stack p h).1.2 = new ++ h.2 := by
  induction p generalizing h with
  | ret a => exact ⟨[_], rfl⟩
  | throw x => exact ⟨[_], rfl⟩
  | perform e k ih =>
      obtain ⟨new, hnew⟩ := ih _ (sys.push h i (.did e))
      exact ⟨_, hnew.trans (List.append_cons new ⟨i, .did e, h.1⟩ h.2)⟩
  | yield n k ih => exact ⟨[_], rfl⟩

variable (sys) in
theorem trace_step (c : Config E R N X Q ρ σ) (m : Move X Q) :
    ∃ new, (sys.step c m).hist.2 = new ++ c.hist.2 := by
  cases m with
  | call q =>
      obtain ⟨new, hnew⟩ := trace_advance sys c.next c.stack (sys.body q)
        (sys.push c.hist c.next (.called q))
      exact ⟨_, hnew.trans (List.append_cons new ⟨c.next, .called q, c.hist.1⟩ c.hist.2)⟩
  | answer a =>
      rcases hs : c.stack with - | ⟨f, rest⟩
      · exact ⟨[], by simp only [step, hs, List.nil_append]⟩
      · obtain ⟨new, hnew⟩ := trace_advance sys f.inst rest (f.resume a)
          (sys.push c.hist f.inst (.resumed a))
        simp only [step, hs]
        exact ⟨_, hnew.trans (List.append_cons new ⟨f.inst, .resumed a, c.hist.1⟩ c.hist.2)⟩

variable (sys) in
/-- A run goes on from where it was: what it does later stands before what it has done. -/
theorem trace_run_append (s : σ) (ms ms' : List (Move X Q)) :
    ∃ new, (sys.run s (ms ++ ms')).hist.2 = new ++ (sys.run s ms).hist.2 := by
  induction ms' using List.reverseRecOn with
  | nil => exact ⟨[], by rw [List.append_nil, List.nil_append]⟩
  | append_singleton ms' m ih =>
      obtain ⟨new, hnew⟩ := ih
      obtain ⟨new', hnew'⟩ := trace_step sys (sys.run s (ms ++ ms')) m
      refine ⟨new' ++ new, ?_⟩
      rw [← List.append_assoc, run_append_singleton, hnew', hnew, List.append_assoc]

/-- Acts that are no notices add none to the trace. -/
theorem mem_of_mem_push {h : Hist E N X Q ρ σ} {a : Act E N X Q ρ} {x : Entry E N X Q ρ σ} {n : N}
    (hn : x.act = .notified n) (ha : a ≠ .notified n) (hx : x ∈ (sys.push h i a).2) : x ∈ h.2 := by
  rcases List.mem_cons.mp hx with rfl | hx
  · exact absurd hn ha
  · exact hx

/-- A notice is the last thing an instance does before it stops. -/
theorem advance_notified {stack : List (Frame E R N X ρ)} {p : Prog E R N X ρ}
    {h : Hist E N X Q ρ σ} {x : Entry E N X Q ρ σ} {n : N} (hn : x.act = .notified n)
    (hx : x ∈ (sys.advance i stack p h).1.2) :
    x ∈ h.2 ∨ (sys.advance i stack p h).1.1 = x.before ∧
      ∃ f ∈ (sys.advance i stack p h).2, f.inst = x.inst ∧ f.notice = n := by
  induction p generalizing h with
  | ret a => exact Or.inl (mem_of_mem_push hn (fun e => by cases e) hx)
  | throw y => exact Or.inl (mem_of_mem_push hn (fun e => by cases e) hx)
  | perform e k ih =>
      rcases ih _ hx with hx | hlast
      · exact Or.inl (mem_of_mem_push hn (fun e => by cases e) hx)
      · exact Or.inr hlast
  | yield n' k ih =>
      rcases List.mem_cons.mp hx with rfl | hx
      · cases hn
        exact Or.inr ⟨rfl, _, List.mem_cons_self, rfl, rfl⟩
      · exact Or.inl hx

variable (sys) in
/-- Every notice of a run was given by an instance that was suspended then, in
the state the notice was given in. -/
theorem suspended_of_notified (s : σ) (ms : List (Move X Q)) {x : Entry E N X Q ρ σ} {n : N}
    (hn : x.act = .notified n) (hx : x ∈ (sys.run s ms).hist.2) :
    ∃ ms', (sys.run s ms').hist.1 = x.before ∧
      ∃ f ∈ (sys.run s ms').stack, f.inst = x.inst ∧ f.notice = n := by
  induction ms using List.reverseRecOn with
  | nil => cases hx
  | append_singleton ms m ih =>
      have hrun := run_append_singleton sys s ms m
      rw [hrun] at hx
      cases m with
      | call q =>
          rcases advance_notified hn hx with hold | hlast
          · exact ih (mem_of_mem_push hn (fun e => by cases e) hold)
          · refine ⟨ms ++ [.call q], ?_⟩
            rw [hrun]
            exact hlast
      | answer a =>
          rcases hs : (sys.run s ms).stack with - | ⟨f, rest⟩
          · simp only [step, hs] at hx
            exact ih hx
          · simp only [step, hs] at hx
            rcases advance_notified hn hx with hold | hlast
            · exact ih (mem_of_mem_push hn (fun e => by cases e) hold)
            · refine ⟨ms ++ [.answer a], ?_⟩
              rw [hrun]
              simp only [step, hs]
              exact hlast

theorem wp_trivial {p : Prog E R N X α} {h : Hist E N X Q ρ σ} :
    sys.wp J (fun _ => True) i p (fun _ _ => True) h := by
  induction p generalizing h with
  | ret a => trivial
  | throw x => trivial
  | perform e k ih => exact ih _
  | yield n k ih => exact ⟨trivial, fun a h' _ _ _ => ih a⟩

variable (sys) in
/-- A run of an instance ends in its return, or leaves it suspended. -/
theorem advance_ends (i : Nat) (stack : List (Frame E R N X ρ)) (p : Prog E R N X ρ)
    (h : Hist E N X Q ρ σ) :
    ((sys.advance i stack p h).2 = stack ∧
      ∃ y ∈ (sys.advance i stack p h).1.2, y.inst = i ∧ ∃ r, y.act = .returned r) ∨
    ∃ f, f.inst = i ∧ (sys.advance i stack p h).2 = f :: stack := by
  induction p generalizing h with
  | ret a => exact Or.inl ⟨rfl, _, List.mem_cons_self, rfl, _, rfl⟩
  | throw x => exact Or.inl ⟨rfl, _, List.mem_cons_self, rfl, _, rfl⟩
  | perform e k ih => exact ih _ _
  | yield n k ih => exact Or.inr ⟨_, rfl, rfl⟩

theorem advance_called {stack : List (Frame E R N X ρ)} {p : Prog E R N X ρ}
    {h : Hist E N X Q ρ σ} {x : Entry E N X Q ρ σ} {q : Q} (hq : x.act = .called q)
    (hx : x ∈ (sys.advance i stack p h).1.2) : x ∈ h.2 := by
  have hold : ∀ {h : Hist E N X Q ρ σ} {a : Act E N X Q ρ}, (∀ q', a ≠ .called q') →
      x ∈ (sys.push h i a).2 → x ∈ h.2 := by
    intro h a ha hx
    rcases List.mem_cons.mp hx with rfl | hx
    · exact absurd hq (ha q)
    · exact hx
  induction p generalizing h with
  | ret a => exact hold (fun _ e => by cases e) hx
  | throw x' => exact hold (fun _ e => by cases e) hx
  | perform e k ih => exact hold (fun _ e => by cases e) (ih _ hx)
  | yield n k ih => exact hold (fun _ e => by cases e) hx

/-- The instance is suspended or has returned. -/
def Settled (stack : List (Frame E R N X ρ)) (h : Hist E N X Q ρ σ) (i : Nat) : Prop :=
  (∃ f ∈ stack, f.inst = i) ∨ ∃ y ∈ h.2, y.inst = i ∧ ∃ r, y.act = .returned r

/-- The instance that runs settles, and the others stay as they are. -/
theorem settled_advance {stack : List (Frame E R N X ρ)} {p : Prog E R N X ρ}
    {h : Hist E N X Q ρ σ} {j : Nat} (hj : j = i ∨ Settled stack h j) :
    Settled (sys.advance i stack p h).2 (sys.advance i stack p h).1 j := by
  rcases hj with rfl | ⟨f, hf, hfj⟩ | ⟨y, hy, hyj, hr⟩
  · rcases advance_ends sys j stack p h with ⟨-, hreturned⟩ | ⟨f, hf, hstack⟩
    · exact Or.inr hreturned
    · exact Or.inl ⟨f, by rw [hstack]; exact List.mem_cons_self, hf⟩
  · rcases advance_stack sys i stack p h with hstack | ⟨g, -, hstack⟩
    · exact Or.inl ⟨f, by rw [hstack]; exact hf, hfj⟩
    · exact Or.inl ⟨f, by rw [hstack]; exact List.mem_cons_of_mem _ hf, hfj⟩
  · exact Or.inr ⟨y, mem_advance hy, hyj, hr⟩

variable (sys) in
/-- Every call of a run is suspended or has returned. -/
theorem settled_run (s : σ) (ms : List (Move X Q)) {x : Entry E N X Q ρ σ} {q : Q}
    (hq : x.act = .called q) (hx : x ∈ (sys.run s ms).hist.2) :
    Settled (sys.run s ms).stack (sys.run s ms).hist x.inst := by
  induction ms using List.reverseRecOn with
  | nil => cases hx
  | append_singleton ms m ih =>
      rw [run_append_singleton] at hx ⊢
      generalize sys.run s ms = c at ih hx
      cases m with
      | call q' =>
          refine settled_advance ?_
          rcases List.mem_cons.mp (advance_called hq hx) with rfl | hold
          · exact Or.inl rfl
          · refine Or.inr ((ih hold).imp_right ?_)
            rintro ⟨y, hy, hreturned⟩
            exact ⟨y, List.mem_cons_of_mem _ hy, hreturned⟩
      | answer a =>
          rcases hs : c.stack with - | ⟨f, rest⟩
          · simp only [step, hs] at hx ⊢
            rw [← hs]
            exact ih hx
          · simp only [step, hs] at hx ⊢
            refine settled_advance ?_
            rcases List.mem_cons.mp (advance_called hq hx) with rfl | hold
            · cases hq
            · rcases ih hold with ⟨g, hg, hgi⟩ | ⟨y, hy, hreturned⟩
              · rw [hs] at hg
                rcases List.mem_cons.mp hg with rfl | hg
                · exact Or.inl hgi.symm
                · exact Or.inr (Or.inl ⟨g, hg, hgi⟩)
              · exact Or.inr (Or.inr ⟨y, List.mem_cons_of_mem _ hy, hreturned⟩)

variable (sys) in
/-- The newest entry of a suspended instance is the notice it is waiting on. -/
theorem newest_of_suspended (s : σ) (ms : List (Move X Q)) {f : Frame E R N X ρ}
    (hf : f ∈ (sys.run s ms).stack) :
    ∃ b, (own f.inst (sys.run s ms).hist.2).head? = some ⟨f.inst, .notified f.notice, b⟩ :=
  have hrun := run_invariant sys (J := fun _ => True) (I := fun _ => True) (fun _ => trivial)
    trivial (fun _ _ _ _ _ _ => wp_trivial) ms
  (hrun.2 f hf).1

end System

end Callback
