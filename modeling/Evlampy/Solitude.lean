/-
Evlampy/Solitude.lean

Calls that are made while nobody else is logged in.  Whoever is found then is the caller
itself: all notices are about messages to oneself, and what is stored for anybody else is
stored as sent (`Attentive.notices_own`, `Attentive.stored_sent`).
-/
import Evlampy.Listener
import Evlampy.Presence
import Evlampy.Window

namespace Evlampy

open Cxx Callback Prog System

variable {env : Env} {names : ClientId → Str} {h : History} {i : Nat} {c : ClientId} {op : Op}
  {w : World} {m : Message} {a : Act Eff Notice Exn Call Value} {ω : Type}
  {react : Notice → World → ω → ω} {x : ω}

/-- No client but `c` is logged in. -/
def Sole (c : ClientId) (w : World) : Prop := ∀ d, (w.clients d).loggedIn = true → d = c

/-- No client is logged in while another one's call runs. -/
def Alone (h : History) : Prop :=
  ∀ x ∈ h.2, ∀ q w, CalledAt h x.inst q w → Sole q.client x.before

/-! ### Calls -/

/-- Call `i` of the client `c` runs alone. -/
structure RunsAlone (c : ClientId) (i : Nat) (h : History) : Prop where
  sole : Sole c h.1
  alone : Alone h
  own : ∀ q w, CalledAt h i q w → q.client = c

theorem Sole.exec (hs : Sole c w) {e : Eff} (he : Footprint c op e) :
    Sole c (e.exec env w).2 := by
  intro d hd
  by_contra hne
  rw [exec_clients_of_footprint hne he] at hd
  exact hne (hs d hd)

/-- An act of the call, which is not its first. -/
theorem RunsAlone.push (hr : RunsAlone c i h) (ha : callOf a = none)
    (hsole : Sole c (env.system.after a h.1)) : RunsAlone c i (env.system.push h i a) := by
  have hcalled : ∀ {j q w}, CalledAt (env.system.push h i a) j q w → CalledAt h j q w := by
    intro j q w hq
    rcases calledAt_push.mp hq with hq | ⟨-, rfl, -⟩
    · exact hq
    · cases ha
  refine ⟨hsole, fun y hy q w hq => ?_, fun q w hq => hr.own q w (hcalled hq)⟩
  rcases List.mem_cons.mp hy with rfl | hy
  · rw [hr.own q w (hcalled hq)]
    exact hr.sole
  · exact hr.alone y hy q w (hcalled hq)

theorem RunsAlone.returned (hr : RunsAlone c i h) (r : Except Exn Value) :
    RunsAlone c i (env.system.push h i (.returned r)) := hr.push rfl hr.sole

/-- The first act of a call. -/
theorem Alone.called (ha : Alone h) (hlt : ∀ y ∈ h.2, y.inst < i) (hs : Sole c h.1) (op : Op) :
    RunsAlone c i (env.system.push h i (.called ⟨c, op⟩)) := by
  have hnew : ∀ {q w}, ¬ CalledAt h i q w := by
    rintro q w ⟨y, hy, hi, -⟩
    exact absurd hi (Nat.ne_of_lt (hlt y hy))
  have hown : ∀ q w, CalledAt (env.system.push h i (.called ⟨c, op⟩)) i q w → q.client = c := by
    intro q w hq
    rcases calledAt_push.mp hq with hq | ⟨-, heq, -⟩
    · exact absurd hq hnew
    · cases heq
      rfl
  refine ⟨hs, fun y hy q w hq => ?_, hown⟩
  rcases List.mem_cons.mp hy with rfl | hy
  · rw [hown q w hq]
    exact hs
  · rcases calledAt_push.mp hq with hq | ⟨hi, -, -⟩
    · exact ha y hy q w hq
    · exact absurd hi (Nat.ne_of_gt (hlt y hy))

/-- Only the caller is let in or out. -/
theorem attended_alone (hr : RunsAlone c i h) :
    env.system.attended react i (Call.body env ⟨c, op⟩) (fun _ h' _ => RunsAlone c i h') h x := by
  refine attended_of_allActs (K := RunsAlone c i) (fun e h' he hK => ?_) (fun n h' _ hK => ?_)
    (body_allActs env ⟨c, op⟩) hr
  · exact hK.push rfl (hK.sole.exec he)
  · -- observers of the window call nobody, so the next act is the caller's again
    have hnotified : RunsAlone c i (env.system.push h' i (.notified n)) := hK.push rfl hK.sole
    exact hnotified.push rfl hK.sole

/-- A call of the window. -/
theorem Gui.alone_call {qt : Qt} {g g' : Gui} {v : Value} (ha : Alone g.cfg.hist)
    (hlt : ∀ y ∈ g.cfg.hist.2, y.inst < g.cfg.next) (hs : Sole c g.cfg.hist.1)
    (hcall : g.call env qt c op = .ok (v, g')) : Alone g'.cfg.hist := by
  have hr : env.system.attended (MessengerMainWindow.react qt) g.cfg.next (Call.body env ⟨c, op⟩)
      (fun _ h' _ => RunsAlone c g.cfg.next h')
      (env.system.push g.cfg.hist g.cfg.next (.called ⟨c, op⟩)) g.window :=
    attended_alone (ha.called hlt hs op)
  unfold System.attended at hr
  unfold call at hcall
  simp only [] at hcall
  split at hcall
  · cases hcall
  · cases hcall
    exact (hr.returned _).alone

/-! ### What follows -/

/-- Whoever takes part in such a call is its client. -/
theorem Alone.eq_of_madeBy (ha : Alone h) {y : Entry Eff Notice Exn Call Value World} (hy : y ∈ h.2)
    {u : Str} (hmade : MadeBy names h y.inst u) {r : ClientId}
    (hlog : (y.before.clients r).loggedIn = true) : names r = u := by
  obtain ⟨q, w, hcalled, -, hname⟩ := hmade
  rw [ha y hy q w hcalled r hlog]
  exact hname

theorem Attentive.notices_own (hatt : Attentive names h) (ha : Alone h) {n : Notice}
    (hn : n ∈ noticesOf h) : n.event.fromUser = names n.receiver := by
  obtain ⟨y, hy, hnotice⟩ := List.mem_filterMap.mp hn
  obtain ⟨hlog, hmade⟩ := (hatt y hy).notice n hnotice
  exact (ha.eq_of_madeBy hy hmade hlog).symm

theorem Attentive.stored_sent (hatt : Attentive names h) (ha : Alone h) (hm : m ∈ copiesOf i h)
    (hne : m.receiver ≠ m.sender) : m.status = .sent := by
  obtain ⟨y, hy, hstored⟩ := List.mem_filterMap.mp hm
  obtain ⟨hmem, hi⟩ := mem_own.mp hy
  obtain ⟨hmade, -, hsent⟩ := (hatt y hmem).stored m hstored
  refine hsent.mpr ?_
  rintro ⟨z, hz, hinst, -, r, hname, hlog⟩
  rw [← hinst] at hmade
  exact hne (hname.symm.trans (ha.eq_of_madeBy hz hmade hlog))

end Evlampy
