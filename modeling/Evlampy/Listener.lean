/-
Evlampy/Listener.lean

Running a program for a listener.  The listener has a state of its own, which no call
can see: at every notice it changes that state, looking at the notice and at the state
of the machine, and gives control back without calling anything.  `attend` runs a
program in this way, and `attended` is its weakest precondition, with the same rules as
`wp` and `calmly`.  A run for a listener is a run of the machine (`run_of_attend`), so
everything known of all runs is known of it.
-/
import Evlampy.Machine

namespace Callback

namespace System

variable {E : Type} {R : E → Type} {N X Q ρ σ α β ω : Type} {sys : System E R N X Q ρ σ} {i : Nat}
  {react : N → σ → ω → ω}

variable (sys) in
/-- Run a program as instance `i`, for a listener that reacts to its notices. -/
def attend (react : N → σ → ω → ω) (i : Nat) :
    Prog E R N X α → Hist E N X Q ρ σ → ω → Except X α × Hist E N X Q ρ σ × ω
  | .ret a, h, w => (.ok a, h, w)
  | .throw x, h, w => (.error x, h, w)
  | .perform e k, h, w => attend react i (k (sys.exec e h.1).1) (sys.push h i (.did e)) w
  | .yield n k, h, w =>
      attend react i (k (.ok ())) (sys.push (sys.push h i (.notified n)) i (.resumed (.ok ())))
        (react n h.1 w)

variable (sys) in
/-- The weakest precondition of a program that runs for a listener. -/
def attended (react : N → σ → ω → ω) (i : Nat) (p : Prog E R N X α)
    (post : Except X α → Hist E N X Q ρ σ → ω → Prop) (h : Hist E N X Q ρ σ) (w : ω) : Prop :=
  post (sys.attend react i p h w).1 (sys.attend react i p h w).2.1 (sys.attend react i p h w).2.2

theorem attended_mono {p : Prog E R N X α} {post post' : Except X α → Hist E N X Q ρ σ → ω → Prop}
    (hpost : ∀ r h w, post r h w → post' r h w) {h : Hist E N X Q ρ σ} {w : ω}
    (hp : sys.attended react i p post h w) : sys.attended react i p post' h w :=
  hpost _ _ _ hp

theorem attended_bind {p : Prog E R N X α} {f : α → Prog E R N X β}
    {post : Except X β → Hist E N X Q ρ σ → ω → Prop} {h : Hist E N X Q ρ σ} {w : ω} :
    sys.attended react i (p.bind f) post h w
      ↔ sys.attended react i p (fun r h w => match r with
          | .ok a => sys.attended react i (f a) post h w
          | .error x => post (.error x) h w) h w := by
  induction p generalizing h w with
  | ret a => exact Iff.rfl
  | throw x => exact Iff.rfl
  | perform e k ih => exact ih _
  | yield n k ih => exact ih _

theorem attended_tryCatch {p : Prog E R N X α} {f : X → Prog E R N X α}
    {post : Except X α → Hist E N X Q ρ σ → ω → Prop} {h : Hist E N X Q ρ σ} {w : ω} :
    sys.attended react i (p.tryCatch f) post h w
      ↔ sys.attended react i p (fun r h w => match r with
          | .ok a => post (.ok a) h w
          | .error x => sys.attended react i (f x) post h w) h w := by
  induction p generalizing h w with
  | ret a => exact Iff.rfl
  | throw x => exact Iff.rfl
  | perform e k ih => exact ih _
  | yield n k ih => exact ih _

/-- One action, with names for its answer and for the history after it. -/
theorem attended_step {e : E} {f : R e → Prog E R N X β}
    {post : Except X β → Hist E N X Q ρ σ → ω → Prop} {h : Hist E N X Q ρ σ} {w : ω}
    (k : ∀ r h', r = (sys.exec e h.1).1 → h' = sys.push h i (.did e) →
      sys.attended react i (f r) post h' w) :
    sys.attended react i ((Prog.act e : Prog E R N X (R e)) >>= f) post h w :=
  k _ _ rfl rfl

theorem attended_ofExcept_bind {x : Except X α} {f : α → Prog E R N X β}
    {post : Except X β → Hist E N X Q ρ σ → ω → Prop} {h : Hist E N X Q ρ σ} {w : ω}
    (hok : ∀ a, x = .ok a → sys.attended react i (f a) post h w)
    (herr : ∀ e, x = .error e → post (.error e) h w) :
    sys.attended react i ((Prog.ofExcept x : Prog E R N X α) >>= f) post h w := by
  rcases x with e | a
  · exact herr e rfl
  · exact hok a rfl

/-- A program that cannot yield leaves the listener alone. -/
theorem attended_of_wp {J : Hist E N X Q ρ σ → Prop} {p : Prog E R N X α}
    {post : Except X α → Hist E N X Q ρ σ → Prop} {h : Hist E N X Q ρ σ} {w : ω}
    (hp : sys.wp J (fun _ => False) i p post h) :
    sys.attended react i p (fun r h' w' => post r h' ∧ w' = w) h w := by
  induction p generalizing h with
  | ret a => exact ⟨hp, rfl⟩
  | throw x => exact ⟨hp, rfl⟩
  | perform e k ih => exact ih _ hp
  | yield n k ih => exact hp.1.elim

/-- What the actions and the notices of a program keep. -/
theorem attended_of_allActs {P : E → Prop} {V : N → Prop} {K : Hist E N X Q ρ σ → Prop}
    {p : Prog E R N X α} (hact : ∀ e h, P e → K h → K (sys.push h i (.did e)))
    (hnote : ∀ n h, V n → K h → K (sys.push (sys.push h i (.notified n)) i (.resumed (.ok ()))))
    (hp : p.AllActs P V) {h : Hist E N X Q ρ σ} {w : ω} (hK : K h) :
    sys.attended react i p (fun _ h' _ => K h') h w := by
  induction p generalizing h w with
  | ret a => exact hK
  | throw x => exact hK
  | perform e k ih => exact ih _ (hp.2 _) (hact e h hp.1 hK)
  | yield n k ih => exact ih _ (hp.2 _) (hnote n h hp.1 hK)

/-- What the reactions of the listener keep. -/
theorem attended_of_react {K : ω → Prop} (hreact : ∀ n s w, K w → K (react n s w))
    (p : Prog E R N X α) {h : Hist E N X Q ρ σ} {w : ω} (hK : K w) :
    sys.attended react i p (fun _ _ w' => K w') h w := by
  induction p generalizing h w with
  | ret a => exact hK
  | throw x => exact hK
  | perform e k ih => exact ih _ hK
  | yield n k ih => exact ih _ (hreact n h.1 w hK)

variable (sys) in
/-- Running for a listener is one way the machine can run: the environment answers every
notice at once. -/
theorem run_of_attend (react : N → σ → ω → ω) (i : Nat) (p : Prog E R N X ρ)
    (stack : List (Frame E R N X ρ)) (next : Nat) (h : Hist E N X Q ρ σ) (w : ω) :
    ∃ k, (List.replicate k (.answer (.ok ()))).foldl sys.step
        ⟨(sys.advance i stack p h).1, (sys.advance i stack p h).2, next⟩
      = ⟨sys.push (sys.attend react i p h w).2.1 i (.returned (sys.attend react i p h w).1), stack,
          next⟩ := by
  induction p generalizing h w with
  | ret a => exact ⟨0, rfl⟩
  | throw x => exact ⟨0, rfl⟩
  | perform e k ih => exact ih _ _ w
  | yield n k ih =>
      obtain ⟨m, hm⟩ := ih (.ok ()) (sys.push (sys.push h i (.notified n)) i (.resumed (.ok ())))
        (react n h.1 w)
      exact ⟨m + 1, hm⟩

/-- A listener does not throw. -/
theorem attended_of_throws {T : X → Prop} {p : Prog E R N X α} (hp : p.Throws T)
    {h : Hist E N X Q ρ σ} {w : ω} :
    sys.attended react i p (fun r _ _ => ∀ x, r = .error x → T x) h w := by
  induction p generalizing h w with
  | ret a => exact fun x hx => by cases hx
  | throw y =>
      intro x hx
      cases hx
      exact hp
  | perform e k ih => exact ih _ (hp _)
  | yield n k ih => exact ih _ (hp _ fun x hx => by cases hx)

theorem attended_and {p : Prog E R N X α} {post post' : Except X α → Hist E N X Q ρ σ → ω → Prop}
    {h : Hist E N X Q ρ σ} {w : ω} (hp : sys.attended react i p post h w)
    (hp' : sys.attended react i p post' h w) :
    sys.attended react i p (fun r h w => post r h w ∧ post' r h w) h w :=
  ⟨hp, hp'⟩

/-! ### Calls -/

variable (sys) in
/-- Make a call for a listener, and let it run to its end. -/
def callFor (react : N → σ → ω → ω) (q : Q) (s : Config E R N X Q ρ σ × ω) :
    Except X ρ × Config E R N X Q ρ σ × ω :=
  let i := s.1.next
  let r := sys.attend react i (sys.body q) (sys.push s.1.hist i (.called q)) s.2
  (r.1, ⟨sys.push r.2.1 i (.returned r.1), s.1.stack, i + 1⟩, r.2.2)

/-- What holds of a call. -/
theorem callFor_spec {q : Q} {s : Config E R N X Q ρ σ × ω}
    {post : Except X ρ → Hist E N X Q ρ σ → ω → Prop}
    (hp : sys.attended react s.1.next (sys.body q) post
      (sys.push s.1.hist s.1.next (.called q)) s.2) :
    ∃ h', post (sys.callFor react q s).1 h' (sys.callFor react q s).2.2 ∧
      (sys.callFor react q s).2.1.hist.1 = h'.1 :=
  ⟨_, hp, rfl⟩

/-- A call for a listener takes the machine from one state of a run to another. -/
theorem exists_run_callFor (react : N → σ → ω → ω) (q : Q) {s : Config E R N X Q ρ σ × ω} {s₀ : σ}
    {ms : List (Move X Q)} (hs : s.1 = sys.run s₀ ms) :
    ∃ ms', (sys.callFor react q s).2.1 = sys.run s₀ (ms ++ ms') := by
  obtain ⟨k, hk⟩ := run_of_attend sys react s.1.next (sys.body q) s.1.stack (s.1.next + 1)
    (sys.push s.1.hist s.1.next (.called q)) s.2
  refine ⟨.call q :: List.replicate k (.answer (.ok ())), ?_⟩
  rw [run, List.foldl_append, List.foldl_cons]
  show _ = (List.replicate k (.answer (.ok ()))).foldl sys.step (sys.step (sys.run s₀ ms) (.call q))
  rw [← hs]
  exact hk.symm

end System

end Callback
