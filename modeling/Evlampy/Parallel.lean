/-
Evlampy/Parallel.lean

Running calls side by side.  In `Machine.lean` one thread of control runs a call
until it yields.  Here any number of threads run calls at the same time, and an
action is the unit of interleaving: a `go` lets one thread perform its next
action, and between two actions of a thread the others may do anything their
calls can do.  Where a call yields, its thread may run further calls before it
is answered.  `thread q` is the thread the call `q` runs on.

Proof rule.  `pwp J I t i p Q h` is the weakest precondition of a program that
runs as instance `i` on the thread `t`: before each of its actions `Elsewhere`
may have happened, that is, acts of calls on other threads; where it yields,
`Meanwhile` may have happened, acts of any other call.  Both are known to stay
inside what calls may do, the relation `P`, and to keep the invariants.
`pool_invariant` turns such a statement about every call into an invariant of
every interleaving.
-/
import Evlampy.Machine
import Mathlib.Logic.Function.Basic

namespace Callback

open Relation Function

/-- A call under way. -/
structure Running (E : Type) (R : E → Type) (N X Q ρ : Type) where
  inst : Nat
  call : Q
  rest : Prog E R N X ρ

/-- A call that has yielded. -/
structure Waiting (E : Type) (R : E → Type) (N X Q ρ : Type) where
  inst : Nat
  call : Q
  notice : N
  resume : Except X Unit → Prog E R N X ρ

/-- A history, the call each thread runs, those that have yielded on it (the last first), and the
number of the next call. -/
structure Pool (E : Type) (R : E → Type) (N X Q ρ σ T : Type) where
  hist : Hist E N X Q ρ σ
  running : T → Option (Running E R N X Q ρ)
  waiting : T → List (Waiting E R N X Q ρ)
  next : Nat

/-- What may happen next. -/
inductive PoolMove (X Q T : Type)
  | call (q : Q)
  | go (t : T)
  | answer (t : T) (a : Except X Unit)

variable {E : Type} {R : E → Type} {N X Q ρ σ α β T : Type} [DecidableEq T]

namespace System

variable (sys : System E R N X Q ρ σ) (thread : Q → T)

/-! ### Steps -/

/-- One action of the call `r`, which runs on the thread `t`. -/
def tick (t : T) (r : Running E R N X Q ρ) (c : Pool E R N X Q ρ σ T) : Pool E R N X Q ρ σ T :=
  match r.rest with
  | .ret a => { c with
      hist := sys.push c.hist r.inst (.returned (.ok a))
      running := update c.running t none }
  | .throw x => { c with
      hist := sys.push c.hist r.inst (.returned (.error x))
      running := update c.running t none }
  | .perform e k => { c with
      hist := sys.push c.hist r.inst (.did e)
      running := update c.running t (some ⟨r.inst, r.call, k (sys.exec e c.hist.1).1⟩) }
  | .yield n k => { c with
      hist := sys.push c.hist r.inst (.notified n)
      running := update c.running t none
      waiting := update c.waiting t (⟨r.inst, r.call, n, k⟩ :: c.waiting t) }

/-- One move.  A thread that runs a call cannot begin another one. -/
def poolStep (c : Pool E R N X Q ρ σ T) : PoolMove X Q T → Pool E R N X Q ρ σ T
  | .call q =>
      match c.running (thread q) with
      | some _ => c
      | none => { c with
          hist := sys.push c.hist c.next (.called q)
          running := update c.running (thread q) (some ⟨c.next, q, sys.body q⟩)
          next := c.next + 1 }
  | .go t =>
      match c.running t with
      | none => c
      | some r => sys.tick t r c
  | .answer t a =>
      match c.running t, c.waiting t with
      | none, f :: rest => { c with
          hist := sys.push c.hist f.inst (.resumed a)
          running := update c.running t (some ⟨f.inst, f.call, f.resume a⟩)
          waiting := update c.waiting t rest }
      | _, _ => c

/-- Nothing has been called yet. -/
def poolStart (s : σ) : Pool E R N X Q ρ σ T := ⟨(s, []), fun _ => none, fun _ => [], 0⟩

/-- A run of moves, in any order of the threads. -/
def runPool (s : σ) (ms : List (PoolMove X Q T)) : Pool E R N X Q ρ σ T :=
  ms.foldl (sys.poolStep thread) (poolStart s)

theorem runPool_append_singleton (s : σ) (ms : List (PoolMove X Q T)) (m : PoolMove X Q T) :
    sys.runPool thread s (ms ++ [m]) = sys.poolStep thread (sys.runPool thread s ms) m := by
  simp [runPool, List.foldl_append]

/-- What a move can do. -/
inductive PoolChange (c : Pool E R N X Q ρ σ T) : PoolMove X Q T → Pool E R N X Q ρ σ T → Prop
  | nothing (m : PoolMove X Q T) : PoolChange c m c
  | called (q : Q) (idle : c.running (thread q) = none) : PoolChange c (.call q) { c with
      hist := sys.push c.hist c.next (.called q)
      running := update c.running (thread q) (some ⟨c.next, q, sys.body q⟩)
      next := c.next + 1 }
  | returned (t : T) (r : Running E R N X Q ρ) (x : Except X ρ) (busy : c.running t = some r)
      (rest : r.rest = Prog.ofExcept x) : PoolChange c (.go t) { c with
      hist := sys.push c.hist r.inst (.returned x)
      running := update c.running t none }
  | performed (t : T) (r : Running E R N X Q ρ) (e : E) (k : R e → Prog E R N X ρ)
      (busy : c.running t = some r) (rest : r.rest = .perform e k) : PoolChange c (.go t) { c with
      hist := sys.push c.hist r.inst (.did e)
      running := update c.running t (some ⟨r.inst, r.call, k (sys.exec e c.hist.1).1⟩) }
  | notified (t : T) (r : Running E R N X Q ρ) (n : N) (k : Except X Unit → Prog E R N X ρ)
      (busy : c.running t = some r) (rest : r.rest = .yield n k) : PoolChange c (.go t) { c with
      hist := sys.push c.hist r.inst (.notified n)
      running := update c.running t none
      waiting := update c.waiting t (⟨r.inst, r.call, n, k⟩ :: c.waiting t) }
  | resumed (t : T) (f : Waiting E R N X Q ρ) (rest : List (Waiting E R N X Q ρ))
      (a : Except X Unit) (idle : c.running t = none) (first : c.waiting t = f :: rest) :
      PoolChange c (.answer t a) { c with
      hist := sys.push c.hist f.inst (.resumed a)
      running := update c.running t (some ⟨f.inst, f.call, f.resume a⟩)
      waiting := update c.waiting t rest }

theorem poolStep_change (c : Pool E R N X Q ρ σ T) (m : PoolMove X Q T) :
    PoolChange sys thread c m (sys.poolStep thread c m) := by
  cases m with
  | call q =>
      show PoolChange sys thread c _ (match c.running (thread q) with | some _ => c | none => _)
      split
      · exact .nothing _
      · next hidle => exact .called q hidle
  | go t =>
      show PoolChange sys thread c _ (match c.running t with | none => c | some r => sys.tick t r c)
      split
      · exact .nothing _
      · next r hbusy =>
        unfold tick
        split
        · next a hrest => exact .returned t r (.ok a) hbusy hrest
        · next x hrest => exact .returned t r (.error x) hbusy hrest
        · next e k hrest => exact .performed t r e k hbusy hrest
        · next n k hrest => exact .notified t r n k hbusy hrest
  | answer t a =>
      show PoolChange sys thread c _
        (match c.running t, c.waiting t with | none, f :: rest => _ | _, _ => c)
      split
      · next f rest hidle hfirst => exact .resumed t f rest a hidle hfirst
      · exact .nothing _

variable {sys} {thread}

/-- What holds before anything has been called and is kept by every change holds
in every pool. -/
theorem pool_induct {s : σ} {K : Pool E R N X Q ρ σ T → Prop} (h0 : K (poolStart s))
    (hstep : ∀ c m c', K c → PoolChange sys thread c m c' → K c') (ms : List (PoolMove X Q T)) :
    K (sys.runPool thread s ms) := by
  induction ms using List.reverseRecOn with
  | nil => exact h0
  | append_singleton ms m ih =>
      rw [runPool_append_singleton]
      exact hstep _ m _ ih (poolStep_change sys thread _ m)

/-- What is said of all calls that run, when one thread has changed. -/
theorem forall_update_some {β : Type} {f : T → Option β} {t : T} {o : Option β}
    {K : T → β → Prop} (hself : ∀ r, o = some r → K t r)
    (hothers : ∀ t', t' ≠ t → ∀ r, f t' = some r → K t' r) :
    ∀ t' r, update f t o t' = some r → K t' r :=
  (forall_update_iff f fun t o => ∀ r, o = some r → K t r).mpr ⟨hself, hothers⟩

/-- What is said of all calls that wait, when one thread has changed. -/
theorem forall_mem_update {β : Type} {f : T → List β} {t : T} {l : List β} {K : T → β → Prop}
    (hself : ∀ x ∈ l, K t x) (hothers : ∀ t', t' ≠ t → ∀ x ∈ f t', K t' x) :
    ∀ t', ∀ x ∈ update f t l t', K t' x :=
  (forall_update_iff f fun t l => ∀ x ∈ l, K t x).mpr ⟨hself, hothers⟩

/-! ### Numbers -/

/-- Instance `i` is the call `q`. -/
def IsCall (h : Hist E N X Q ρ σ) (i : Nat) (q : Q) : Prop :=
  ∃ x ∈ h.2, x.inst = i ∧ x.act = .called q

theorem IsCall.push {h : Hist E N X Q ρ σ} {i : Nat} {q : Q} (hc : IsCall h i q) (j : Nat)
    (a : Act E N X Q ρ) : IsCall (sys.push h j a) i q := by
  obtain ⟨x, hx, hi, ha⟩ := hc
  exact ⟨x, List.mem_cons_of_mem _ hx, hi, ha⟩

theorem isCall_push_iff {h : Hist E N X Q ρ σ} {i j : Nat} {q : Q} {a : Act E N X Q ρ}
    (ha : ∀ q', a ≠ .called q') : IsCall (sys.push h j a) i q ↔ IsCall h i q := by
  refine ⟨?_, fun hc => hc.push j a⟩
  rintro ⟨x, hx, hi, hact⟩
  rcases List.mem_cons.mp hx with rfl | hx
  · exact absurd hact (ha q)
  · exact ⟨x, hx, hi, hact⟩

/-- Numbers are given in order: those of the trace are below the counter, every
call is on its own thread, and what runs or waits on a thread was called after
everything that waits behind it. -/
structure PoolNumbered (thread : Q → T) (c : Pool E R N X Q ρ σ T) : Prop where
  trace_lt : ∀ x ∈ c.hist.2, x.inst < c.next
  called : ∀ i q q', IsCall c.hist i q → IsCall c.hist i q' → q = q'
  running : ∀ t r, c.running t = some r → thread r.call = t ∧ IsCall c.hist r.inst r.call ∧
    ∀ f ∈ c.waiting t, f.inst < r.inst
  waiting : ∀ t, ∀ f ∈ c.waiting t, thread f.call = t ∧ IsCall c.hist f.inst f.call
  order : ∀ t, (c.waiting t).Pairwise fun f g => g.inst < f.inst

omit [DecidableEq T] in
theorem IsCall.lt {c : Pool E R N X Q ρ σ T} (hn : PoolNumbered thread c) {i : Nat} {q : Q}
    (hc : IsCall c.hist i q) : i < c.next := by
  obtain ⟨x, hx, rfl, -⟩ := hc
  exact hn.trace_lt x hx

omit [DecidableEq T] in
/-- An act of a call that runs or is resumed changes nothing about the numbers. -/
theorem PoolNumbered.push {c : Pool E R N X Q ρ σ T} (hn : PoolNumbered thread c) {i : Nat}
    {q : Q} (hi : IsCall c.hist i q) {a : Act E N X Q ρ} (ha : ∀ q', a ≠ .called q') :
    PoolNumbered thread { c with hist := sys.push c.hist i a } where
  trace_lt x hx := by
    rcases List.mem_cons.mp hx with rfl | hx
    · exact hi.lt hn
    · exact hn.trace_lt x hx
  called j q q' hq hq' :=
    hn.called j q q' ((isCall_push_iff ha).mp hq) ((isCall_push_iff ha).mp hq')
  running t r hr := ⟨(hn.running t r hr).1, (hn.running t r hr).2.1.push i a,
    (hn.running t r hr).2.2⟩
  waiting t f hf := ⟨(hn.waiting t f hf).1, (hn.waiting t f hf).2.push i a⟩
  order := hn.order

theorem PoolNumbered.change {c c' : Pool E R N X Q ρ σ T} {m : PoolMove X Q T}
    (hn : PoolNumbered thread c) (hc : PoolChange sys thread c m c') : PoolNumbered thread c' := by
  cases hc with
  | nothing m => exact hn
  | called q idle =>
      -- the new call has a number above all others
      have hnew : ∀ i q', IsCall (sys.push c.hist c.next (.called q)) i q' →
          (i = c.next ∧ q' = q) ∨ (i < c.next ∧ IsCall c.hist i q') := by
        rintro i q' ⟨x, hx, rfl, hact⟩
        rcases List.mem_cons.mp hx with rfl | hx
        · cases hact
          exact Or.inl ⟨rfl, rfl⟩
        · exact Or.inr ⟨hn.trace_lt x hx, x, hx, rfl, hact⟩
      refine ⟨fun x hx => ?_, fun i q1 q2 h1 h2 => ?_,
        forall_update_some (fun r hr => ?_) fun t _ r hr => ?_, fun t f hf => ?_, hn.order⟩
      · rcases List.mem_cons.mp hx with rfl | hx
        · exact Nat.lt_succ_self _
        · exact Nat.lt_succ_of_lt (hn.trace_lt x hx)
      · rcases hnew i q1 h1 with ⟨rfl, rfl⟩ | ⟨hlt, h1⟩
        · rcases hnew _ q2 h2 with ⟨-, rfl⟩ | ⟨hlt, -⟩
          · rfl
          · exact absurd hlt (Nat.lt_irrefl _)
        · rcases hnew i q2 h2 with ⟨rfl, -⟩ | ⟨-, h2⟩
          · exact absurd hlt (Nat.lt_irrefl _)
          · exact hn.called i q1 q2 h1 h2
      · cases hr
        refine ⟨rfl, ⟨_, List.mem_cons_self, rfl, rfl⟩, fun f hf => ?_⟩
        exact (hn.waiting _ f hf).2.lt hn
      · exact ⟨(hn.running t r hr).1, (hn.running t r hr).2.1.push _ _, (hn.running t r hr).2.2⟩
      · exact ⟨(hn.waiting t f hf).1, (hn.waiting t f hf).2.push _ _⟩
  | returned t r x busy rest =>
      -- the thread is free again, and nobody else has moved
      have hpush : PoolNumbered thread { c with hist := sys.push c.hist r.inst (.returned x) } :=
        hn.push (hn.running t r busy).2.1 fun _ e => by cases e
      exact ⟨hpush.trace_lt, hpush.called,
        forall_update_some (fun _ e => by cases e) fun t' _ => hpush.running t',
        hpush.waiting, hpush.order⟩
  | performed t r e k busy rest =>
      -- the same call goes on
      have hpush : PoolNumbered thread { c with hist := sys.push c.hist r.inst (.did e) } :=
        hn.push (hn.running t r busy).2.1 fun _ e => by cases e
      refine ⟨hpush.trace_lt, hpush.called,
        forall_update_some (fun r' hr' => ?_) fun t' _ => hpush.running t',
        hpush.waiting, hpush.order⟩
      cases hr'
      exact hpush.running t r busy
  | notified t r n k busy rest =>
      -- what runs goes on top of what waits, and is younger
      have hpush : PoolNumbered thread { c with hist := sys.push c.hist r.inst (.notified n) } :=
        hn.push (hn.running t r busy).2.1 fun _ e => by cases e
      obtain ⟨hthread, hcall, hlt⟩ := hpush.running t r busy
      refine ⟨hpush.trace_lt, hpush.called,
        forall_update_some (fun _ e => by cases e) fun t' hne r' hr' => ?_,
        forall_mem_update (fun f hf => ?_) fun t' _ => hpush.waiting t',
        (forall_update_iff c.waiting fun _ l => l.Pairwise fun f g => g.inst < f.inst).mpr
          ⟨List.pairwise_cons.mpr ⟨hlt, hpush.order t⟩, fun t' _ => hpush.order t'⟩⟩
      · show _ ∧ _ ∧ ∀ f ∈ update c.waiting t _ t', f.inst < r'.inst
        rw [update_of_ne hne]
        exact hpush.running t' r' hr'
      · rcases List.mem_cons.mp hf with rfl | hf
        · exact ⟨hthread, hcall⟩
        · exact hpush.waiting t f hf
  | resumed t f rest a idle first =>
      -- the youngest of those that wait on the thread runs again
      have hmem : f ∈ c.waiting t := by
        rw [first]
        exact List.mem_cons_self
      have hpush : PoolNumbered thread { c with hist := sys.push c.hist f.inst (.resumed a) } :=
        hn.push (hn.waiting t f hmem).2 fun _ e => by cases e
      have horder := hpush.order t
      rw [show c.waiting t = f :: rest from first] at horder
      obtain ⟨hlt, horder⟩ := List.pairwise_cons.mp horder
      refine ⟨hpush.trace_lt, hpush.called,
        forall_update_some (fun r' hr' => ?_) fun t' hne r' hr' => ?_,
        forall_mem_update (fun g hg => ?_) fun t' _ => hpush.waiting t',
        (forall_update_iff c.waiting fun _ l => l.Pairwise fun f g => g.inst < f.inst).mpr
          ⟨horder, fun t' _ => hpush.order t'⟩⟩
      · cases hr'
        show _ ∧ _ ∧ ∀ g ∈ update c.waiting t rest t, g.inst < f.inst
        rw [update_self]
        exact ⟨(hpush.waiting t f hmem).1, (hpush.waiting t f hmem).2, hlt⟩
      · show _ ∧ _ ∧ ∀ g ∈ update c.waiting t rest t', g.inst < r'.inst
        rw [update_of_ne hne]
        exact hpush.running t' r' hr'
      · apply hpush.waiting t g
        show g ∈ c.waiting t
        rw [first]
        exact List.mem_cons_of_mem _ hg

theorem poolNumbered (s : σ) (ms : List (PoolMove X Q T)) :
    PoolNumbered thread (sys.runPool thread s ms) := by
  refine pool_induct ⟨?_, ?_, ?_, ?_, fun _ => .nil⟩ (fun c m c' hn hc => hn.change hc) ms
  · exact fun x hx => nomatch hx
  · rintro i q q' ⟨x, hx, -⟩
    cases hx
  · intro t r hr
    cases hr
  · exact fun t f hf => nomatch hf

omit [DecidableEq T] in
/-- Calls on different threads have different numbers. -/
theorem PoolNumbered.inst_ne {c : Pool E R N X Q ρ σ T} (hn : PoolNumbered thread c) {i j : Nat}
    {q q' : Q} (hi : IsCall c.hist i q) (hj : IsCall c.hist j q') (hne : thread q ≠ thread q') :
    i ≠ j := by
  rintro rfl
  exact hne (congrArg thread (hn.called i q q' hi hj))

omit [DecidableEq T] in
theorem PoolNumbered.running_ne {c : Pool E R N X Q ρ σ T} (hn : PoolNumbered thread c) {t t' : T}
    {r r' : Running E R N X Q ρ} (hr : c.running t = some r) (hr' : c.running t' = some r')
    (hne : t' ≠ t) : r.inst ≠ r'.inst ∧ thread r.call ≠ t' := by
  obtain ⟨ht, hi, -⟩ := hn.running t r hr
  obtain ⟨ht', hi', -⟩ := hn.running t' r' hr'
  exact ⟨hn.inst_ne hi hi' (by rw [ht, ht']; exact hne.symm), by rw [ht]; exact hne.symm⟩

omit [DecidableEq T] in
theorem PoolNumbered.waiting_ne {c : Pool E R N X Q ρ σ T} (hn : PoolNumbered thread c) {t t' : T}
    {r : Running E R N X Q ρ} (hr : c.running t = some r) {f : Waiting E R N X Q ρ}
    (hf : f ∈ c.waiting t') : r.inst ≠ f.inst := by
  obtain ⟨ht, hi, hlt⟩ := hn.running t r hr
  obtain ⟨ht', hi'⟩ := hn.waiting t' f hf
  by_cases hne : t' = t
  · subst hne
    exact (Nat.ne_of_lt (hlt f hf)).symm
  · exact hn.inst_ne hi hi' (by rw [ht, ht']; exact Ne.symm hne)

/-! ### Order -/

variable (sys thread) in
/-- No thread begins a call while one of its calls waits. -/
def NoNesting (s : σ) (ms : List (PoolMove X Q T)) : Prop :=
  ∀ before q rest, ms = before ++ .call q :: rest →
    (sys.runPool thread s before).waiting (thread q) = []

theorem NoNesting.of_append {s : σ} {ms : List (PoolMove X Q T)} {m : PoolMove X Q T}
    (hms : NoNesting sys thread s (ms ++ [m])) : NoNesting sys thread s ms := by
  intro before q rest heq
  apply hms before q (rest ++ [m])
  rw [heq, List.append_assoc, List.cons_append]

/-- The instances `i` and `j` of one thread are numbered in this order. -/
def InOrder (thread : Q → T) (h : Hist E N X Q ρ σ) (i j : Nat) : Prop :=
  ∀ q q', IsCall h i q → IsCall h j q' → thread q = thread q' → i ≤ j

/-- No call of the thread `t` is numbered above `i`. -/
def Newest (thread : Q → T) (h : Hist E N X Q ρ σ) (t : T) (i : Nat) : Prop :=
  ∀ j q, IsCall h j q → thread q = t → j ≤ i

/-- One call at a time on each thread: the acts of a thread are in the order of its
calls, and what runs or waits on it was called last. -/
structure PoolOrdered (thread : Q → T) (c : Pool E R N X Q ρ σ T) : Prop where
  acts : c.hist.2.Pairwise fun x y => InOrder thread c.hist y.inst x.inst
  running : ∀ t r, c.running t = some r → c.waiting t = [] ∧ Newest thread c.hist t r.inst
  waiting : ∀ t f rest, c.waiting t = f :: rest → rest = [] ∧ Newest thread c.hist t f.inst

omit [DecidableEq T] in
/-- An act of the newest call of its thread comes after all others of the thread. -/
theorem PoolOrdered.push {c : Pool E R N X Q ρ σ T} (ho : PoolOrdered thread c)
    (hn : PoolNumbered thread c) {i : Nat} {q : Q} (hi : IsCall c.hist i q)
    (hnewest : Newest thread c.hist (thread q) i) {a : Act E N X Q ρ} (ha : ∀ q', a ≠ .called q') :
    PoolOrdered thread { c with hist := sys.push c.hist i a } := by
  have hcall : ∀ j q', IsCall (sys.push c.hist i a) j q' ↔ IsCall c.hist j q' :=
    fun j q' => isCall_push_iff ha
  refine ⟨List.pairwise_cons.mpr ⟨fun y _ q1 q2 h1 h2 ht => ?_, ho.acts.imp ?_⟩,
    fun t r hr => ⟨(ho.running t r hr).1, fun j q' hj => ?_⟩,
    fun t f rest hf => ⟨(ho.waiting t f rest hf).1, fun j q' hj => ?_⟩⟩
  · rw [hcall] at h1 h2
    obtain rfl := hn.called i q q2 hi h2
    exact hnewest y.inst q1 h1 ht
  · intro x y hxy q1 q2 h1 h2
    exact hxy q1 q2 ((hcall _ _).mp h1) ((hcall _ _).mp h2)
  · exact (ho.running t r hr).2 j q' ((hcall _ _).mp hj)
  · exact (ho.waiting t f rest hf).2 j q' ((hcall _ _).mp hj)

theorem PoolOrdered.change {c c' : Pool E R N X Q ρ σ T} {m : PoolMove X Q T}
    (ho : PoolOrdered thread c) (hn : PoolNumbered thread c)
    (hidle : ∀ q, m = .call q → c.waiting (thread q) = [])
    (hc : PoolChange sys thread c m c') : PoolOrdered thread c' := by
  cases hc with
  | nothing m => exact ho
  | called q idle =>
      -- the new call has the greatest number
      have hle : ∀ j q', IsCall (sys.push c.hist c.next (.called q)) j q' → j ≤ c.next := by
        rintro j q' ⟨x, hx, rfl, -⟩
        rcases List.mem_cons.mp hx with rfl | hx
        · exact Nat.le_refl _
        · exact Nat.le_of_lt (hn.trace_lt x hx)
      -- and the others are what they were
      have hold : ∀ j q', IsCall (sys.push c.hist c.next (.called q)) j q' →
          thread q' ≠ thread q ∨ j < c.next → IsCall c.hist j q' := by
        rintro j q' ⟨x, hx, rfl, hact⟩ hor
        rcases List.mem_cons.mp hx with rfl | hx
        · cases hact
          exact absurd hor (not_or.mpr ⟨fun hne => hne rfl, Nat.lt_irrefl _⟩)
        · exact ⟨x, hx, rfl, hact⟩
      refine ⟨List.pairwise_cons.mpr ⟨fun y _ q1 _ h1 _ _ => hle _ q1 h1, ?_⟩,
        forall_update_some (fun r hr => ?_) fun t hne r hr => ?_, fun t f rest hf => ?_⟩
      · refine ho.acts.imp_of_mem fun {x y} hx hy hxy q1 q2 h1 h2 => ?_
        exact hxy q1 q2 (hold _ _ h1 (Or.inr (hn.trace_lt y hy)))
          (hold _ _ h2 (Or.inr (hn.trace_lt x hx)))
      · cases hr
        exact ⟨hidle q rfl, fun j q' hj _ => hle j q' hj⟩
      · obtain ⟨hwaiting, hnewest⟩ := ho.running t r hr
        refine ⟨hwaiting, fun j q' hj ht => ?_⟩
        exact hnewest j q' (hold j q' hj (Or.inl (by rw [ht]; exact hne))) ht
      · dsimp only at hf ⊢
        have hne : t ≠ thread q := by
          rintro rfl
          rw [hidle q rfl] at hf
          cases hf
        obtain ⟨hrest, hnewest⟩ := ho.waiting t f rest hf
        refine ⟨hrest, fun j q' hj ht => ?_⟩
        exact hnewest j q' (hold j q' hj (Or.inl (by rw [ht]; exact hne))) ht
  | returned t r x busy rest =>
      obtain ⟨hthread, hcall, -⟩ := hn.running t r busy
      have hpush : PoolOrdered thread { c with hist := sys.push c.hist r.inst (.returned x) } :=
        ho.push hn hcall (hthread ▸ (ho.running t r busy).2) fun _ e => by cases e
      exact ⟨hpush.acts, forall_update_some (fun _ e => by cases e) fun t' _ => hpush.running t',
        hpush.waiting⟩
  | performed t r e k busy rest =>
      obtain ⟨hthread, hcall, -⟩ := hn.running t r busy
      have hpush : PoolOrdered thread { c with hist := sys.push c.hist r.inst (.did e) } :=
        ho.push hn hcall (hthread ▸ (ho.running t r busy).2) fun _ e => by cases e
      refine ⟨hpush.acts, forall_update_some (fun r' hr' => ?_) fun t' _ => hpush.running t',
        hpush.waiting⟩
      cases hr'
      exact hpush.running t r busy
  | notified t r n k busy rest =>
      obtain ⟨hthread, hcall, -⟩ := hn.running t r busy
      obtain ⟨hnone, hnewest⟩ := ho.running t r busy
      have hpush : PoolOrdered thread { c with hist := sys.push c.hist r.inst (.notified n) } :=
        ho.push hn hcall (hthread ▸ hnewest) fun _ e => by cases e
      refine ⟨hpush.acts, forall_update_some (fun _ e => by cases e) fun t' hne r' hr' => ?_,
        (forall_update_iff c.waiting fun t' l => ∀ f rest, l = f :: rest →
          rest = [] ∧ Newest thread _ t' f.inst).mpr ⟨fun f rest hf => ?_, fun t' _ =>
          hpush.waiting t'⟩⟩
      · show update c.waiting t _ t' = [] ∧ _
        rw [update_of_ne hne]
        exact hpush.running t' r' hr'
      · rw [hnone] at hf
        cases hf
        exact ⟨rfl, (hpush.running t r busy).2⟩
  | resumed t f rest a idle first =>
      have hmem : f ∈ c.waiting t := by
        rw [first]
        exact List.mem_cons_self
      obtain ⟨hthread, hcall⟩ := hn.waiting t f hmem
      obtain ⟨hrest, hnewest⟩ := ho.waiting t f rest first
      have hpush : PoolOrdered thread { c with hist := sys.push c.hist f.inst (.resumed a) } :=
        ho.push hn hcall (hthread ▸ hnewest) fun _ e => by cases e
      refine ⟨hpush.acts, forall_update_some (fun r' hr' => ?_) fun t' hne r' hr' => ?_,
        (forall_update_iff c.waiting fun t' l => ∀ g rest, l = g :: rest →
          rest = [] ∧ Newest thread _ t' g.inst).mpr ⟨fun g rest' hg => ?_, fun t' _ =>
          hpush.waiting t'⟩⟩
      · cases hr'
        show update c.waiting t rest t = [] ∧ _
        rw [update_self]
        exact ⟨hrest, (hpush.waiting t f rest first).2⟩
      · show update c.waiting t rest t' = [] ∧ _
        rw [update_of_ne hne]
        exact hpush.running t' r' hr'
      · rw [hrest] at hg
        cases hg

/-- Where no calls are nested, the acts of each thread are in the order of its calls. -/
theorem poolOrdered (s : σ) (ms : List (PoolMove X Q T)) (hms : NoNesting sys thread s ms) :
    PoolOrdered thread (sys.runPool thread s ms) := by
  induction ms using List.reverseRecOn with
  | nil =>
      refine ⟨.nil, (fun t r hr => by cases hr), fun t f rest hf => ?_⟩
      cases hf
  | append_singleton ms m ih =>
      rw [runPool_append_singleton]
      refine (ih hms.of_append).change (poolNumbered s ms) ?_ (poolStep_change sys thread _ m)
      rintro q rfl
      exact hms ms q [] rfl

/-! ### Idle threads -/

/-- Instance `i` is not running: the last thing it did is return or yield. -/
def Rests (h : Hist E N X Q ρ σ) (i : Nat) : Prop :=
  ∃ a b, (own i h.2).head? = some ⟨i, a, b⟩ ∧ ((∃ r, a = .returned r) ∨ ∃ n, a = .notified n)

/-- No call is running on the thread `t`. -/
def Idle (thread : Q → T) (h : Hist E N X Q ρ σ) (t : T) : Prop :=
  ∀ i q, IsCall h i q → thread q = t → Rests h i

theorem Rests.push {h : Hist E N X Q ρ σ} {i j : Nat} (hr : Rests h i) (hne : j ≠ i)
    (a : Act E N X Q ρ) : Rests (sys.push h j a) i := by
  obtain ⟨b, s, hhead, hb⟩ := hr
  refine ⟨b, s, ?_, hb⟩
  rw [System.push, own_cons_ne hne]
  exact hhead

theorem rests_push_iff {h : Hist E N X Q ρ σ} {i j : Nat} (hne : j ≠ i) {a : Act E N X Q ρ} :
    Rests (sys.push h j a) i ↔ Rests h i := by
  unfold Rests
  rw [System.push, own_cons_ne hne]

theorem Rests.of_push {h : Hist E N X Q ρ σ} {i : Nat} {a : Act E N X Q ρ}
    (ha : (∃ r, a = .returned r) ∨ ∃ n, a = .notified n) : Rests (sys.push h i a) i := by
  refine ⟨a, h.1, ?_, ha⟩
  rw [System.push, own_cons_self]
  rfl

/-- Every call runs or rests. -/
def RunsOrRests (thread : Q → T) (c : Pool E R N X Q ρ σ T) : Prop :=
  ∀ i q, IsCall c.hist i q → (∃ r, c.running (thread q) = some r ∧ r.inst = i) ∨ Rests c.hist i

omit [DecidableEq T] in
/-- An act of a call that runs: the others go on running, or rest. -/
theorem RunsOrRests.push {c : Pool E R N X Q ρ σ T} (hr : RunsOrRests thread c)
    (hn : PoolNumbered thread c) {t : T} {r : Running E R N X Q ρ} (hbusy : c.running t = some r)
    {a : Act E N X Q ρ} (ha : ∀ q, a ≠ .called q) {i : Nat} {q : Q}
    (hi : IsCall (sys.push c.hist r.inst a) i q) : (i = r.inst ∧ thread q = t) ∨
      (∃ r', c.running (thread q) = some r' ∧ r'.inst = i ∧ thread q ≠ t) ∨
        Rests (sys.push c.hist r.inst a) i := by
  rw [isCall_push_iff ha] at hi
  obtain ⟨hthread, hcall, -⟩ := hn.running t r hbusy
  rcases eq_or_ne i r.inst with rfl | hne
  · rw [hn.called _ q r.call hi hcall]
    exact Or.inl ⟨rfl, hthread⟩
  · refine Or.inr ?_
    rcases hr i q hi with ⟨r', hr', hinst⟩ | hrests
    · refine Or.inl ⟨r', hr', hinst, ?_⟩
      rintro rfl
      rw [hbusy] at hr'
      cases hr'
      exact hne hinst.symm
    · exact Or.inr (hrests.push hne.symm a)

theorem RunsOrRests.change {c c' : Pool E R N X Q ρ σ T} {m : PoolMove X Q T}
    (hr : RunsOrRests thread c) (hn : PoolNumbered thread c) (hc : PoolChange sys thread c m c') :
    RunsOrRests thread c' := by
  cases hc with
  | nothing m => exact hr
  | called q idle =>
      intro i q' hi
      obtain ⟨x, hx, rfl, hact⟩ := hi
      rcases List.mem_cons.mp hx with rfl | hx
      · cases hact
        exact Or.inl ⟨_, update_self .., rfl⟩
      -- an earlier call: if it ran, it ran on another thread
      · have hlt := hn.trace_lt x hx
        rcases hr x.inst q' ⟨x, hx, rfl, hact⟩ with ⟨r, hrun, hinst⟩ | hrest
        · have hne : thread q' ≠ thread q := by
            intro e
            rw [e, idle] at hrun
            cases hrun
          exact Or.inl ⟨r, (update_of_ne hne _ _).trans hrun, hinst⟩
        · exact Or.inr (hrest.push (Nat.ne_of_lt hlt).symm _)
  | returned t r x busy rest =>
      -- it rests for good
      intro i q hi
      rcases hr.push hn busy (fun _ e => by cases e) hi with
        ⟨rfl, -⟩ | ⟨r', hr', hinst, hne⟩ | hrest
      · exact Or.inr (.of_push (Or.inl ⟨x, rfl⟩))
      · exact Or.inl ⟨r', (update_of_ne hne _ _).trans hr', hinst⟩
      · exact Or.inr hrest
  | performed t r e k busy rest =>
      -- it still runs
      intro i q hi
      rcases hr.push hn busy (fun _ e => by cases e) hi with
        ⟨rfl, ht⟩ | ⟨r', hr', hinst, hne⟩ | hrest
      · exact Or.inl ⟨⟨r.inst, r.call, k (sys.exec e c.hist.1).1⟩, ht ▸ update_self .., rfl⟩
      · exact Or.inl ⟨r', (update_of_ne hne _ _).trans hr', hinst⟩
      · exact Or.inr hrest
  | notified t r n k busy rest =>
      -- it rests until it is answered
      intro i q hi
      rcases hr.push hn busy (fun _ e => by cases e) hi with
        ⟨rfl, -⟩ | ⟨r', hr', hinst, hne⟩ | hrest
      · exact Or.inr (.of_push (Or.inr ⟨n, rfl⟩))
      · exact Or.inl ⟨r', (update_of_ne hne _ _).trans hr', hinst⟩
      · exact Or.inr hrest
  | resumed t f rest a idle first =>
      intro i q hi
      rw [isCall_push_iff fun _ e => by cases e] at hi
      have hmem : f ∈ c.waiting t := by
        rw [first]
        exact List.mem_cons_self
      -- the call that is answered runs again, all others are where they were
      obtain ⟨hthread, hcall⟩ := hn.waiting t f hmem
      rcases eq_or_ne i f.inst with rfl | hne
      · obtain rfl := hn.called _ q f.call hi hcall
        exact Or.inl ⟨⟨f.inst, f.call, f.resume a⟩, hthread ▸ update_self .., rfl⟩
      · rcases hr i q hi with ⟨r', hr', hinst⟩ | hrest
        · have hne' : thread q ≠ t := by
            rintro rfl
            rw [idle] at hr'
            cases hr'
          exact Or.inl ⟨r', (update_of_ne hne' _ _).trans hr', hinst⟩
        · exact Or.inr (hrest.push hne.symm (.resumed a))

theorem runsOrRests (s : σ) (ms : List (PoolMove X Q T)) :
    RunsOrRests thread (sys.runPool thread s ms) := by
  induction ms using List.reverseRecOn with
  | nil =>
      rintro i q ⟨x, hx, -⟩
      cases hx
  | append_singleton ms m ih =>
      rw [runPool_append_singleton]
      exact ih.change (poolNumbered s ms) (poolStep_change sys thread _ m)

/-- On a thread on which nothing runs, every call rests. -/
theorem pool_idle (s : σ) (ms : List (PoolMove X Q T)) {t : T}
    (ht : (sys.runPool thread s ms).running t = none) :
    Idle thread (sys.runPool thread s ms).hist t := by
  intro i q hi hq
  rcases runsOrRests s ms i q hi with ⟨r, hr, -⟩ | hrest
  · rw [hq, ht] at hr
    cases hr
  · exact hrest

/-- Instances are calls of one kind, and of each thread at most one is running. -/
structure Scheduled (thread : Q → T) (h : Hist E N X Q ρ σ) : Prop where
  called : ∀ i q q', IsCall h i q → IsCall h i q' → q = q'
  one : ∀ i j q q', IsCall h i q → IsCall h j q' → thread q = thread q' →
    ¬ Rests h i → ¬ Rests h j → i = j

theorem scheduled (s : σ) (ms : List (PoolMove X Q T)) :
    Scheduled thread (sys.runPool thread s ms).hist := by
  refine ⟨(poolNumbered s ms).called, fun i j q q' hi hj heq hri hrj => ?_⟩
  rcases runsOrRests s ms i q hi with ⟨r, hr, rfl⟩ | hrest
  · rcases runsOrRests s ms j q' hj with ⟨r', hr', rfl⟩ | hrest
    · rw [heq, hr'] at hr
      cases hr
      rfl
    · exact absurd hrest hrj
  · exact absurd hrest hri

/-! ### Interference -/

/-- Calls stay inside `P`, and begin as what they are. -/
def Allowed (P : Q → E → Prop) (q : Q) : Act E N X Q ρ → Prop
  | .did e => P q e
  | .called q' => q' = q
  | _ => True

section Rules

variable (sys) (thread) (P : Q → E → Prop) (J I : Hist E N X Q ρ σ → Prop)

/-- One act of a call other than instance `i`, in a state where the invariants hold. -/
def MeanStep (i : Nat) (h h' : Hist E N X Q ρ σ) : Prop :=
  J h ∧ I h ∧ ∃ j q a, j ≠ i ∧ Allowed P q a ∧ h' = sys.push h j a

/-- One act on another thread than `t`. -/
def ElseStep (t : T) (i : Nat) (h h' : Hist E N X Q ρ σ) : Prop :=
  J h ∧ I h ∧ ∃ j q a, j ≠ i ∧ thread q ≠ t ∧ Allowed P q a ∧ h' = sys.push h j a

/-- What may happen while instance `i` waits. -/
def Meanwhile (i : Nat) : Hist E N X Q ρ σ → Hist E N X Q ρ σ → Prop :=
  ReflTransGen (MeanStep sys P J I i)

/-- What may happen while instance `i` runs on the thread `t`. -/
def Elsewhere (t : T) (i : Nat) : Hist E N X Q ρ σ → Hist E N X Q ρ σ → Prop :=
  ReflTransGen (ElseStep sys thread P J I t i)

/-- The weakest precondition of a program under interference. -/
def pwp (t : T) (i : Nat) :
    Prog E R N X α → (Except X α → Hist E N X Q ρ σ → Prop) → Hist E N X Q ρ σ → Prop
  | .ret a, post, h => post (.ok a) h
  | .throw x, post, h => post (.error x) h
  | .perform e k, post, h => ∀ h', J h' → I h' → Elsewhere sys thread P J I t i h h' →
      I (sys.push h' i (.did e)) ∧
        pwp t i (k (sys.exec e h'.1).1) post (sys.push h' i (.did e))
  | .yield n k, post, h => ∀ h', J h' → I h' → Elsewhere sys thread P J I t i h h' →
      I (sys.push h' i (.notified n)) ∧
        ∀ a h'', J h'' → I h'' → Meanwhile sys P J I i (sys.push h' i (.notified n)) h'' →
          I (sys.push h'' i (.resumed a)) ∧ pwp t i (k a) post (sys.push h'' i (.resumed a))

/-- The postcondition of a call: whatever happens elsewhere before it returns, the
invariant holds once it has returned. -/
def Returns (t : T) (i : Nat) : Except X ρ → Hist E N X Q ρ σ → Prop :=
  fun r h => ∀ h', J h' → I h' → Elsewhere sys thread P J I t i h h' →
    I (sys.push h' i (.returned r))

end Rules

section Run

variable {P : Q → E → Prop} {V : Q → N → Prop} {J I : Hist E N X Q ρ σ → Prop}
  {h h' : Hist E N X Q ρ σ} {i : Nat} {t : T}

omit [DecidableEq T] in
theorem Elsewhere.meanwhile (he : Elsewhere sys thread P J I t i h h') :
    Meanwhile sys P J I i h h' := by
  refine ReflTransGen.mono (fun h h' hstep => ?_) _ _ he
  obtain ⟨hJ, hI, j, q, a, hj, -, ha, rfl⟩ := hstep
  exact ⟨hJ, hI, j, q, a, hj, ha, rfl⟩

theorem Meanwhile.others (hm : Meanwhile sys P J I i h h') : sys.Others i h h' := by
  refine ReflTransGen.mono (fun h h' hstep => ?_) _ _ hm
  obtain ⟨-, -, j, q, a, hj, -, rfl⟩ := hstep
  exact ⟨j, a, hj, rfl⟩

omit [DecidableEq T] in
/-- What happens elsewhere before a program goes on does not matter to it, if it
does not matter to the postcondition. -/
theorem pwp_elsewhere {p : Prog E R N X α} {post : Except X α → Hist E N X Q ρ σ → Prop}
    (hpost : ∀ r h h', Elsewhere sys thread P J I t i h h' → post r h → post r h')
    (hp : pwp sys thread P J I t i p post h) (he : Elsewhere sys thread P J I t i h h') :
    pwp sys thread P J I t i p post h' := by
  cases p with
  | ret a => exact hpost _ _ _ he hp
  | throw x => exact hpost _ _ _ he hp
  | perform e k => exact fun h'' hJ hI he' => hp h'' hJ hI (he.trans he')
  | yield n k => exact fun h'' hJ hI he' => hp h'' hJ hI (he.trans he')

omit [DecidableEq T] in
theorem Returns.elsewhere (r : Except X ρ) {h h' : Hist E N X Q ρ σ}
    (he : Elsewhere sys thread P J I t i h h') (hr : Returns sys thread P J I t i r h) :
    Returns sys thread P J I t i r h' :=
  fun h'' hJ hI he' => hr h'' hJ hI (he.trans he')

/-! ### Rules -/

omit [DecidableEq T]

theorem pwp_mono {p : Prog E R N X α} {post post' : Except X α → Hist E N X Q ρ σ → Prop}
    (hpost : ∀ r h, post r h → post' r h) (hp : pwp sys thread P J I t i p post h) :
    pwp sys thread P J I t i p post' h := by
  induction p generalizing h with
  | ret a => exact hpost _ _ hp
  | throw x => exact hpost _ _ hp
  | perform e k ih =>
      intro h' hJ hI he
      exact ⟨(hp h' hJ hI he).1, ih _ (hp h' hJ hI he).2⟩
  | yield n k ih =>
      intro h' hJ hI he
      refine ⟨(hp h' hJ hI he).1, fun a h'' hJ' hI' hm => ?_⟩
      exact ⟨((hp h' hJ hI he).2 a h'' hJ' hI' hm).1, ih a ((hp h' hJ hI he).2 a h'' hJ' hI' hm).2⟩

/-- Sequencing: the second program starts where the first returned. -/
theorem pwp_bind {p : Prog E R N X α} {f : α → Prog E R N X β}
    {post : Except X β → Hist E N X Q ρ σ → Prop}
    (hp : pwp sys thread P J I t i p (fun r h => match r with
      | .ok a => pwp sys thread P J I t i (f a) post h
      | .error x => post (.error x) h) h) :
    pwp sys thread P J I t i (p.bind f) post h := by
  induction p generalizing h with
  | ret a => exact hp
  | throw x => exact hp
  | perform e k ih =>
      intro h' hJ hI he
      exact ⟨(hp h' hJ hI he).1, ih _ (hp h' hJ hI he).2⟩
  | yield n k ih =>
      intro h' hJ hI he
      refine ⟨(hp h' hJ hI he).1, fun a h'' hJ' hI' hm => ?_⟩
      exact ⟨((hp h' hJ hI he).2 a h'' hJ' hI' hm).1, ih a ((hp h' hJ hI he).2 a h'' hJ' hI' hm).2⟩

/-- One action, and then the rest. -/
theorem pwp_step {e : E} {f : R e → Prog E R N X β} {post : Except X β → Hist E N X Q ρ σ → Prop}
    (k : ∀ h' h'', J h' → I h' → Elsewhere sys thread P J I t i h h' →
      h'' = sys.push h' i (.did e) →
      I h'' ∧ pwp sys thread P J I t i (f (sys.exec e h'.1).1) post h'') :
    pwp sys thread P J I t i ((Prog.act e : Prog E R N X (R e)) >>= f) post h :=
  fun h' hJ hI he => k h' _ hJ hI he rfl

/-- A pure computation, and then the rest. -/
theorem pwp_ofExcept_bind {x : Except X α} {f : α → Prog E R N X β}
    {post : Except X β → Hist E N X Q ρ σ → Prop}
    (hok : ∀ a, x = .ok a → pwp sys thread P J I t i (f a) post h)
    (herr : ∀ e, x = .error e → post (.error e) h) :
    pwp sys thread P J I t i ((Prog.ofExcept x : Prog E R N X α) >>= f) post h := by
  rcases x with e | a
  · exact herr e rfl
  · exact hok a rfl

/-- A program all of whose acts keep `I`, and an assertion `K` that the others do
not disturb. -/
theorem pwp_of_allActs {S : E → Prop} {W : N → Prop} {K : Hist E N X Q ρ σ → Prop}
    (hothers : ∀ h h', Meanwhile sys P J I i h h' → K h → K h')
    (hpush : ∀ h a, J h → I h → K h → (∀ e, a = .did e → S e) → (∀ n, a = .notified n → W n) →
      (∀ q, a ≠ .called q) → I (sys.push h i a) ∧ K (sys.push h i a))
    {p : Prog E R N X α} (hp : p.AllActs S W) (hK : K h) :
    pwp sys thread P J I t i p (fun _ h => K h) h := by
  induction p generalizing h with
  | ret a => exact hK
  | throw x => exact hK
  | perform e k ih =>
      intro h' hJ hI he
      have hpushed := hpush h' (.did e) hJ hI (hothers _ _ he.meanwhile hK)
        (fun e' heq => by cases heq; exact hp.1) (fun _ heq => by cases heq) fun _ heq => by cases heq
      exact ⟨hpushed.1, ih _ (hp.2 _) hpushed.2⟩
  | yield n k ih =>
      intro h' hJ hI he
      have hpushed := hpush h' (.notified n) hJ hI (hothers _ _ he.meanwhile hK)
        (fun _ heq => by cases heq) (fun n' heq => by cases heq; exact hp.1) fun _ heq => by cases heq
      refine ⟨hpushed.1, fun a h'' hJ' hI' hm => ?_⟩
      have hpushed' := hpush h'' (.resumed a) hJ' hI' (hothers _ _ hm hpushed.2)
        (fun _ heq => by cases heq) (fun _ heq => by cases heq) fun _ heq => by cases heq
      exact ⟨hpushed'.1, ih a (hp.2 a) hpushed'.2⟩

/-! ### Pools -/

variable (sys thread P J I) in
/-- What is known of a call that runs. -/
structure RunsOn (t : T) (r : Running E R N X Q ρ) (h : Hist E N X Q ρ σ) : Prop where
  acts : r.rest.AllActs (P r.call) fun _ => True
  goesOn : pwp sys thread P J I t r.inst r.rest (Returns sys thread P J I t r.inst) h

variable (sys thread P J I) in
/-- What is known of a call that waits. -/
structure WaitsOn (t : T) (f : Waiting E R N X Q ρ) (h : Hist E N X Q ρ σ) : Prop where
  acts : ∀ a, (f.resume a).AllActs (P f.call) fun _ => True
  goesOn : ∀ a h', J h' → I h' → Meanwhile sys P J I f.inst h h' →
    I (sys.push h' f.inst (.resumed a)) ∧ pwp sys thread P J I t f.inst (f.resume a)
      (Returns sys thread P J I t f.inst) (sys.push h' f.inst (.resumed a))

theorem RunsOn.push {r : Running E R N X Q ρ} (hr : RunsOn sys thread P J I t r h) (hJ : J h)
    (hI : I h) {q : Q} (hi : i ≠ r.inst) (hq : thread q ≠ t) {a : Act E N X Q ρ}
    (ha : Allowed P q a) : RunsOn sys thread P J I t r (sys.push h i a) :=
  ⟨hr.acts, pwp_elsewhere (fun _ _ _ he => Returns.elsewhere _ he) hr.goesOn
    (.single ⟨hJ, hI, i, q, a, hi, hq, ha, rfl⟩)⟩

theorem WaitsOn.push {f : Waiting E R N X Q ρ} (hf : WaitsOn sys thread P J I t f h) (hJ : J h)
    (hI : I h) {q : Q} (hi : i ≠ f.inst) {a : Act E N X Q ρ} (ha : Allowed P q a) :
    WaitsOn sys thread P J I t f (sys.push h i a) :=
  ⟨hf.acts, fun b h' hJ' hI' hm =>
    hf.goesOn b h' hJ' hI' (hm.head ⟨hJ, hI, i, q, a, hi, ha, rfl⟩)⟩

variable (sys thread P J I) in
/-- What is known of a pool. -/
structure PoolKept (c : Pool E R N X Q ρ σ T) : Prop where
  kept : I c.hist
  running : ∀ t r, c.running t = some r → RunsOn sys thread P J I t r c.hist
  waiting : ∀ t, ∀ f ∈ c.waiting t, WaitsOn sys thread P J I t f c.hist

/-- An act of a call that runs leaves what is known of the others. -/
theorem PoolKept.push {c : Pool E R N X Q ρ σ T} (hk : PoolKept sys thread P J I c) (hJ : J c.hist)
    (hn : PoolNumbered thread c) {r : Running E R N X Q ρ} (hr : c.running t = some r)
    {a : Act E N X Q ρ} (ha : Allowed P r.call a) :
    (∀ t' r', t' ≠ t → c.running t' = some r' →
      RunsOn sys thread P J I t' r' (sys.push c.hist r.inst a)) ∧
    ∀ t', ∀ f ∈ c.waiting t', WaitsOn sys thread P J I t' f (sys.push c.hist r.inst a) := by
  refine ⟨fun t' r' hne hr' => ?_, fun t' f hf => ?_⟩
  · obtain ⟨hi, hq⟩ := hn.running_ne hr hr' hne
    exact (hk.running t' r' hr').push hJ hk.kept hi hq ha
  · exact (hk.waiting t' f hf).push hJ hk.kept (hn.waiting_ne hr hf) ha

theorem PoolKept.change [DecidableEq T] {c c' : Pool E R N X Q ρ σ T} {m : PoolMove X Q T}
    (hk : PoolKept sys thread P J I c)
    (hJ : J c.hist) (hn : PoolNumbered thread c)
    (hidle : ∀ t, c.running t = none → Idle thread c.hist t)
    (hbody : ∀ q, (sys.body q).AllActs (P q) fun _ => True)
    (hcall : ∀ q h i, J h → I h → (∀ x ∈ h.2, x.inst < i) → Idle thread h (thread q) →
      I (sys.push h i (.called q)) ∧ pwp sys thread P J I (thread q) i (sys.body q)
        (Returns sys thread P J I (thread q) i) (sys.push h i (.called q)))
    (hc : PoolChange sys thread c m c') : PoolKept sys thread P J I c' := by
  cases hc with
  | nothing m => exact hk
  | called q idle =>
      -- the thread was idle, so the call may begin; it is another instance for everybody else
      obtain ⟨hI, hgoes⟩ := hcall q c.hist c.next hJ hk.kept hn.trace_lt (hidle _ idle)
      refine ⟨hI, forall_update_some (fun r hr => ?_) fun t hne r hr => ?_, fun t f hf => ?_⟩
      · cases hr
        exact ⟨hbody q, hgoes⟩
      · have hlt := (hn.running t r hr).2.1.lt hn
        exact (hk.running t r hr).push hJ hk.kept (Nat.ne_of_lt hlt).symm hne.symm
          (show Allowed P q (.called q) from rfl)
      · have hlt := (hn.waiting t f hf).2.lt hn
        exact (hk.waiting t f hf).push hJ hk.kept (Nat.ne_of_lt hlt).symm
          (show Allowed P q (.called q) from rfl)
  | returned t r x busy rest =>
      -- a program that has returned gives its postcondition
      have hrun := hk.running t r busy
      obtain ⟨hothers, hwaiting⟩ := hk.push hJ hn busy (a := .returned x) trivial
      have hret : Returns sys thread P J I t r.inst x c.hist := by
        have hgoes := hrun.goesOn
        rw [rest] at hgoes
        rcases x with x | a <;> exact hgoes
      exact ⟨hret c.hist hJ hk.kept .refl,
        forall_update_some (fun _ e => by cases e) fun t' hne r' => hothers t' r' hne, hwaiting⟩
  | performed t r e k busy rest =>
      -- its next action was accounted for, and what remains goes on
      have hrun := hk.running t r busy
      have hacts := hrun.acts
      have hgoes := hrun.goesOn
      rw [rest] at hacts hgoes
      obtain ⟨hothers, hwaiting⟩ := hk.push hJ hn busy (a := .did e) hacts.1
      obtain ⟨hI, hgoes⟩ := hgoes c.hist hJ hk.kept .refl
      refine ⟨hI, forall_update_some (fun r' hr' => ?_) fun t' hne r' => hothers t' r' hne,
        hwaiting⟩
      cases hr'
      exact ⟨hacts.2 _, hgoes⟩
  | notified t r n k busy rest =>
      -- while it waits, the others may do what is allowed to them
      have hrun := hk.running t r busy
      have hacts := hrun.acts
      have hgoes := hrun.goesOn
      rw [rest] at hacts hgoes
      obtain ⟨hothers, hwaiting⟩ := hk.push hJ hn busy (a := .notified n) trivial
      obtain ⟨hI, hgoes⟩ := hgoes c.hist hJ hk.kept .refl
      refine ⟨hI, forall_update_some (fun _ e => by cases e) fun t' hne r' => hothers t' r' hne,
        forall_mem_update (fun f hf => ?_) fun t' _ => hwaiting t'⟩
      rcases List.mem_cons.mp hf with rfl | hf
      · exact ⟨hacts.2, hgoes⟩
      · exact hwaiting t f hf
  | resumed t f rest a idle first =>
      -- it was prepared for every answer
      have hmem : f ∈ c.waiting t := by
        rw [first]
        exact List.mem_cons_self
      have hwait := hk.waiting t f hmem
      obtain ⟨hI, hgoes⟩ := hwait.goesOn a c.hist hJ hk.kept .refl
      obtain ⟨hthread, hf⟩ := hn.waiting t f hmem
      have horder := hn.order t
      rw [first] at horder
      have hallowed : Allowed P f.call (Act.resumed a : Act E N X Q ρ) := trivial
      refine ⟨hI, forall_update_some (fun r' hr' => ?_) fun t' hne r' hr' => ?_,
        forall_mem_update (fun g hg => ?_) fun t' hne g hg => ?_⟩
      · cases hr'
        exact ⟨hwait.acts a, hgoes⟩
      · exact (hk.running t' r' hr').push hJ hk.kept (hn.waiting_ne hr' hmem).symm
          (by rw [hthread]; exact hne.symm) hallowed
      · have hlt := (List.pairwise_cons.mp horder).1 g hg
        refine (hk.waiting t g ?_).push hJ hk.kept (Nat.ne_of_lt hlt).symm hallowed
        rw [first]
        exact List.mem_cons_of_mem _ hg
      · obtain ⟨hthread', hg'⟩ := hn.waiting t' g hg
        refine (hk.waiting t' g hg).push hJ hk.kept (hn.inst_ne hf hg' ?_) hallowed
        rw [hthread, hthread']
        exact hne.symm

variable (sys thread) in
/-- **Invariants of interleavings.**  If calls stay inside `P`, `J` holds throughout
every interleaving, `I` holds at the start, and every call keeps `I` under the
interference of the others, once it begins on an idle thread, then `I` holds
throughout every interleaving. -/
theorem pool_invariant [DecidableEq T] {s : σ} (hbody : ∀ q, (sys.body q).AllActs (P q) fun _ => True)
    (hJ : ∀ ms, J (sys.runPool thread s ms).hist) (h0 : I (s, []))
    (hcall : ∀ q h i, J h → I h → (∀ x ∈ h.2, x.inst < i) → Idle thread h (thread q) →
      I (sys.push h i (.called q)) ∧ pwp sys thread P J I (thread q) i (sys.body q)
        (Returns sys thread P J I (thread q) i) (sys.push h i (.called q)))
    (ms : List (PoolMove X Q T)) : I (sys.runPool thread s ms).hist := by
  have hkept : PoolKept sys thread P J I (sys.runPool thread s ms) := by
    induction ms using List.reverseRecOn with
    | nil => exact ⟨h0, (fun t r hr => by cases hr), fun t f hf => nomatch hf⟩
    | append_singleton ms m ih =>
        rw [runPool_append_singleton]
        exact ih.change (hJ ms) (poolNumbered s ms) (fun t => pool_idle s ms) hbody hcall
          (poolStep_change sys thread _ m)
  exact hkept.kept

variable (sys thread) in
/-- An invariant that every act of every call keeps. -/
theorem pool_keeps [DecidableEq T] {s : σ}
    (hbody : ∀ q, (sys.body q).AllActs (P q) fun _ => True) (h0 : I (s, []))
    (hpush : ∀ q h i a, I h → Allowed P q a → I (sys.push h i a))
    (ms : List (PoolMove X Q T)) : I (sys.runPool thread s ms).hist := by
  refine pool_invariant sys thread (J := fun _ => True) (I := I) hbody (fun _ => trivial) h0 ?_ ms
  intro q h i _ hI _ _
  refine ⟨hpush q h i _ hI rfl, pwp_mono (fun r h' _ h'' _ hI'' _ => hpush q h'' i _ hI'' trivial)
    (pwp_of_allActs (K := fun _ => True) (fun _ _ _ _ => trivial) ?_ (hbody q) trivial)⟩
  intro h' a _ hI' _ hS _ hcalled
  refine ⟨hpush q h' i a hI' ?_, trivial⟩
  cases a with
  | called q' => exact absurd rfl (hcalled q')
  | did e => exact hS e rfl
  | _ => trivial

end Run

end System

end Callback
