/-
Evlampy/Traces.lean

What the trace of a run says about a call: which call an instance is
(`CalledAt`), which numbers it has drawn (`Owns`), which messages it has stored
(`copiesOf`) and which notices it has given (`noticesBy`), the newest first.

`Grows h h'` collects what only grows in the course of a run: the trace, the
public keys on record, the groups, and the number of draws.
-/
import Evlampy.Keys

namespace Evlampy

open Cxx Callback System

variable {env : Env} {h h' : History} {i j : Nat}

/-! ### Reading a trace -/

/-- The message an act stores. -/
def storedBy : Act Eff Notice Exn Call Value → Option Message
  | .did (.server (.storeMessage m)) => some m
  | _ => none

/-- The notice an act gives. -/
def noticeOf : Act Eff Notice Exn Call Value → Option Notice
  | .notified n => some n
  | _ => none

/-- The call an instance begins with. -/
def callOf : Act Eff Notice Exn Call Value → Option Call
  | .called q => some q
  | _ => none

/-- What an act returns, if it returns normally. -/
def valueOf : Act Eff Notice Exn Call Value → Option Value
  | .returned (.ok v) => some v
  | _ => none

/-- What the newest entry of a trace returns. -/
def resultOf (h : History) : Option Value := h.2.head?.bind fun x => valueOf x.act

/-- The messages instance `i` has stored. -/
def copiesOf (i : Nat) (h : History) : List Message :=
  (own i h.2).filterMap fun x => storedBy x.act

/-- The notices instance `i` has given. -/
def noticesBy (i : Nat) (h : History) : List Notice :=
  (own i h.2).filterMap fun x => noticeOf x.act

/-- All notices that have been given. -/
def noticesOf (h : History) : List Notice := h.2.filterMap fun x => noticeOf x.act

/-- Instance `i` has drawn the number `k`. -/
def Owns (h : History) (i k : Nat) : Prop :=
  ∃ x ∈ h.2, x.inst = i ∧ ∃ count, x.act = .did (.draw count) ∧
    x.before.draws ≤ k ∧ k < x.before.draws + count

/-- Instance `i` is the call `q`, made in the world `w`. -/
def CalledAt (h : History) (i : Nat) (q : Call) (w : World) : Prop :=
  ∃ x ∈ h.2, x.inst = i ∧ x.act = .called q ∧ x.before = w

theorem copiesOf_push_self (a : Act Eff Notice Exn Call Value) :
    copiesOf i (env.system.push h i a) = (storedBy a).toList ++ copiesOf i h := by
  rw [copiesOf, System.push, own_cons_self, List.filterMap_cons]
  cases storedBy a <;> rfl

theorem copiesOf_push_ne (hj : j ≠ i) (a : Act Eff Notice Exn Call Value) :
    copiesOf i (env.system.push h j a) = copiesOf i h := by
  rw [copiesOf, System.push, own_cons_ne hj, copiesOf]

theorem noticesBy_push_self (a : Act Eff Notice Exn Call Value) :
    noticesBy i (env.system.push h i a) = (noticeOf a).toList ++ noticesBy i h := by
  rw [noticesBy, System.push, own_cons_self, List.filterMap_cons]
  cases noticeOf a <;> rfl

theorem noticesBy_push_ne (hj : j ≠ i) (a : Act Eff Notice Exn Call Value) :
    noticesBy i (env.system.push h j a) = noticesBy i h := by
  rw [noticesBy, System.push, own_cons_ne hj, noticesBy]

/-- An act that stores nothing. -/
theorem copiesOf_push_of_none {a : Act Eff Notice Exn Call Value} (ha : storedBy a = none) :
    copiesOf i (env.system.push h j a) = copiesOf i h := by
  rcases eq_or_ne j i with rfl | hj
  · rw [copiesOf_push_self, ha]
    rfl
  · exact copiesOf_push_ne hj a

/-- An act that gives no notice. -/
theorem noticesBy_push_of_none {a : Act Eff Notice Exn Call Value} (ha : noticeOf a = none) :
    noticesBy i (env.system.push h j a) = noticesBy i h := by
  rcases eq_or_ne j i with rfl | hj
  · rw [noticesBy_push_self, ha]
    rfl
  · exact noticesBy_push_ne hj a

theorem copiesOf_others (ho : env.system.Others i h h') : copiesOf i h' = copiesOf i h := by
  rw [copiesOf, ho.own_eq, copiesOf]

theorem noticesBy_others (ho : env.system.Others i h h') : noticesBy i h' = noticesBy i h := by
  rw [noticesBy, ho.own_eq, noticesBy]

/-- A copy is a `storeMessage` in the trace. -/
theorem mem_copiesOf {m : Message} : m ∈ copiesOf i h ↔
    ∃ x ∈ h.2, x.inst = i ∧ x.act = .did (.server (.storeMessage m)) := by
  simp only [copiesOf, List.mem_filterMap, mem_own]
  constructor
  · rintro ⟨x, ⟨hx, hi⟩, hm⟩
    refine ⟨x, hx, hi, ?_⟩
    obtain ⟨inst, act, before⟩ := x
    cases act with
    | did e =>
        cases e with
        | server q =>
            cases q with
            | storeMessage m' => cases hm; rfl
            | _ => cases hm
        | _ => cases hm
    | _ => cases hm
  · rintro ⟨x, hx, hi, ha⟩
    exact ⟨x, ⟨hx, hi⟩, by rw [ha]; rfl⟩

theorem called_of_callOf {a : Act Eff Notice Exn Call Value} {q : Call}
    (hq : callOf a = some q) : a = .called q := by
  cases a with
  | called q' =>
      cases hq
      rfl
  | _ => cases hq

theorem notified_of_noticeOf {a : Act Eff Notice Exn Call Value} {n : Notice}
    (hn : noticeOf a = some n) : a = .notified n := by
  cases a with
  | notified n' =>
      cases hn
      rfl
  | _ => cases hn

theorem returned_of_valueOf {a : Act Eff Notice Exn Call Value} {v : Value}
    (hv : valueOf a = some v) : a = .returned (.ok v) := by
  cases a with
  | returned r =>
      rcases r with x | v'
      · cases hv
      · cases hv
        rfl
  | _ => cases hv

/-- A call is in the trace with the world it was made in. -/
theorem calledAt_of_callOf {q : Call} (hq : ∃ x ∈ h.2, x.inst = i ∧ callOf x.act = some q) :
    ∃ w, CalledAt h i q w := by
  obtain ⟨x, hx, hi, ha⟩ := hq
  exact ⟨x.before, x, hx, hi, called_of_callOf ha, rfl⟩

/-- Notices that are all of one instance. -/
theorem filter_noticesOf {p : Notice → Bool}
    (hp : ∀ j, ∀ n ∈ noticesBy j h, p n = true → j = i) :
    (noticesOf h).filter p = (noticesBy i h).filter p := by
  obtain ⟨w, t⟩ := h
  simp only [noticesOf, noticesBy] at hp ⊢
  induction t with
  | nil => rfl
  | cons x t ih =>
      have htail : ∀ j, ∀ n ∈ (own j t).filterMap fun x => noticeOf x.act, p n = true → j = i := by
        intro j n hn hpn
        refine hp j n ?_ hpn
        obtain ⟨y, hy, hyn⟩ := List.mem_filterMap.mp hn
        refine List.mem_filterMap.mpr ⟨y, mem_own.mpr ⟨?_, (mem_own.mp hy).2⟩, hyn⟩
        exact List.mem_cons_of_mem _ (mem_own.mp hy).1
      obtain ⟨inst, act, before⟩ := x
      have hhead : ∀ n, noticeOf act = some n → p n = true → inst = i := by
        intro n hn hpn
        refine hp inst n (List.mem_filterMap.mpr ⟨⟨inst, act, before⟩, ?_, hn⟩) hpn
        exact mem_own.mpr ⟨List.mem_cons_self, rfl⟩
      rcases eq_or_ne inst i with rfl | hne
      · rw [own_cons_self, List.filterMap_cons, List.filterMap_cons]
        rcases hn : noticeOf act with - | n
        · simpa only [hn] using ih htail
        · simp only [List.filter_cons, ih htail]
      · rw [own_cons_ne hne, List.filterMap_cons]
        rcases hn : noticeOf act with - | n
        · simpa only [hn] using ih htail
        · have hpn : ¬ p n = true := fun hpn => hne (hhead n hn hpn)
          simp only [List.filter_cons_of_neg hpn, ih htail]

/-- Nobody has acted as `i` yet. -/
theorem copiesOf_of_lt (hlt : ∀ x ∈ h.2, x.inst < i) : copiesOf i h = [] := by
  rw [copiesOf, List.filterMap_eq_nil_iff]
  intro x hx
  obtain ⟨hmem, hinst⟩ := mem_own.mp hx
  exact absurd hinst (Nat.ne_of_lt (hlt x hmem))

/-! ### What only grows -/

/-- The history `h'` is later than `h`, as far as can be told. -/
structure Grows (h h' : History) : Prop where
  trace : ∀ x ∈ h.2, x ∈ h'.2
  publicKeyOf : ∀ u pem, h.1.server.publicKeyOf u = some pem → h'.1.server.publicKeyOf u = some pem
  groups : ∀ g record, h.1.server.groups.lookup g = some record →
    h'.1.server.groups.lookup g = some record
  draws : h.1.draws ≤ h'.1.draws

theorem Grows.refl (h : History) : Grows h h :=
  ⟨fun _ => id, fun _ _ => id, fun _ _ => id, Nat.le_refl _⟩

theorem Grows.trans {h'' : History} (h1 : Grows h h') (h2 : Grows h' h'') : Grows h h'' :=
  ⟨fun x hx => h2.trace x (h1.trace x hx), fun u pem hu => h2.publicKeyOf u pem (h1.publicKeyOf u pem hu),
    fun g r hg => h2.groups g r (h1.groups g r hg), h1.draws.trans h2.draws⟩

/-- Numbers are never given back. -/
theorem draws_le_after (env : Env) (a : Act Eff Notice Exn Call Value) (w : World) :
    w.draws ≤ (env.system.after a w).draws := by
  cases a with
  | did e =>
      cases e with
      | draw count => exact Nat.le_add_right _ _
      | file q => exact Nat.le_add_right _ _
      | _ => exact Nat.le_refl _
  | _ => exact Nat.le_refl _

theorem Grows.recorded (hg : Grows h h') : h.1.server.recorded ⊆ h'.1.server.recorded :=
  fun u ⟨pem, hu⟩ => ⟨pem, hg.publicKeyOf u pem hu⟩

theorem Grows.push (env : Env) (h : History) (j : Nat) (a : Act Eff Notice Exn Call Value) :
    Grows h (env.system.push h j a) := by
  refine ⟨fun x hx => List.mem_cons_of_mem _ hx, fun u pem hu => ?_, fun g record hg => ?_,
    draws_le_after env a h.1⟩
  · cases a with
    | did e => exact exec_publicKeyOf_of_some env e hu
    | _ => exact hu
  · cases a with
    | did e =>
        cases e with
        | server q => exact (q.exec_change h.1.server).groups_of_some hg
        | _ => exact hg
    | _ => exact hg

theorem Grows.of_others (ho : env.system.Others i h h') : Grows h h' := by
  induction ho with
  | refl => exact Grows.refl h
  | tail _ hstep ih =>
      obtain ⟨j, a, -, rfl⟩ := hstep
      exact ih.trans (Grows.push env _ j a)

theorem Owns.mono (hg : Grows h h') {k : Nat} (hk : Owns h i k) : Owns h' i k := by
  obtain ⟨x, hx, hi, count, ha, hlo, hhi⟩ := hk
  exact ⟨x, hg.trace x hx, hi, count, ha, hlo, hhi⟩

theorem CalledAt.mono (hg : Grows h h') {q : Call} {w : World} (hq : CalledAt h i q w) :
    CalledAt h' i q w := by
  obtain ⟨x, hx, hi, ha, hb⟩ := hq
  exact ⟨x, hg.trace x hx, hi, ha, hb⟩

/-- There have been fewer draws before an entry than at the end of the run. -/
theorem draws_before_le (env : Env) (names : ClientId → Str) (disk : Str → Option Str)
    (ms : List (Move Exn Call)) {x : Entry Eff Notice Exn Call Value World}
    (hx : x ∈ (env.run names disk ms).hist.2) :
    x.before.draws ≤ (env.run names disk ms).hist.1.draws :=
  kept_of_before env.system (S := fun w => x.before.draws ≤ w.draws)
    (fun e w hw => hw.trans (draws_le_after env (.did e) w)) _ ms hx (Nat.le_refl _)

/-- What only grows grows when a run goes on. -/
theorem grows_append (env : Env) (names : ClientId → Str) (disk : Str → Option Str)
    (ms ms' : List (Move Exn Call)) :
    Grows (env.run names disk ms).hist (env.run names disk (ms ++ ms')).hist where
  trace x hx := by
    obtain ⟨since, ht⟩ := trace_run_append env.system (World.initial names disk) ms ms'
    show x ∈ (env.system.run (World.initial names disk) (ms ++ ms')).hist.2
    rw [ht]
    exact List.mem_append_right _ hx
  publicKeyOf u pem := run_append_kept env.system
    (S := fun w => w.server.publicKeyOf u = some pem)
    (fun e _ => exec_publicKeyOf_of_some env e) _ ms ms'
  groups g record := run_append_kept env.system
    (S := fun w => w.server.groups.lookup g = some record)
    (fun e w => (Grows.push env (w, []) 0 (.did e)).groups g record) _ ms ms'
  draws := run_append_kept env.system
    (S := fun w => (env.run names disk ms).hist.1.draws ≤ w.draws)
    (fun e w hw => hw.trans (draws_le_after env (.did e) w)) _ ms ms' (Nat.le_refl _)

/-! ### Names -/

/-- A client keeps its name. -/
theorem exec_username (env : Env) (e : Eff) (w : World) (c : ClientId) :
    ((e.exec env w).2.clients c).username = (w.clients c).username := by
  cases e with
  | assign d u =>
      show (ite _ _ _ : ChatClient).username = _
      split
      · next hd =>
        rw [hd]
        cases u <;> rfl
      · rfl
  | _ => rfl

/-- The clients of `w` have the names they started with. -/
def Named (names : ClientId → Str) (w : World) : Prop :=
  ∀ c, (w.clients c).username = names c

theorem named_run (env : Env) (names : ClientId → Str) (disk : Str → Option Str)
    (ms : List (Move Exn Call)) : Named names (env.run names disk ms).hist.1 := by
  refine (run_invariant env.system (J := fun _ => True) (I := fun h => Named names h.1)
    (fun _ => trivial) (fun _ => rfl) ?_ ms).1
  intro q h i _ hI _
  refine wp_mono (fun r h' hK => hK) (wp_of_allActs (K := fun h : History => Named names h.1) ?_ ?_
    (body_allActs env q) hI)
  · intro e h' _ hK c
    exact (exec_username env e h'.1 c).trans (hK c)
  · exact fun n h' _ hK => ⟨hK, fun _ h' _ hI' _ => hI'⟩

end Evlampy
