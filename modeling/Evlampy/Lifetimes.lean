/-
Evlampy/Lifetimes.lean

Lifetimes.  A `ChatClient` has no destructor of its own, and neither has its
`TcpClient`: destroying a client that is logged in leaves its handler, a lambda
that refers to the object, in the server's table.  A `Life` is a configuration
of the clients together with which of them have been created and still exist;
the clients not created yet are as the constructor makes them.

`lifetimes_iff`: the table refers to existing clients only, no handler of a
destroyed client is invoked and the users of destroyed clients can log in again,
throughout a run, if and only if no client is destroyed while it is logged in.
-/
import Evlampy.Registration

namespace Evlampy

open Cxx Callback Prog System ChatClient

/-! ### Lives -/

/-- A configuration, and which clients have been created and still exist. -/
structure Life where
  cfg : Configuration
  created : ClientId → Bool
  alive : ClientId → Bool

/-- A constructor, a destructor, or a move of the system. -/
inductive LifeMove
  | create (c : ClientId)
  | destroy (c : ClientId)
  | move (m : Move Exn Call)

/-- One move.  A client is created once, destroyed only if it exists, and called
only while it exists; nothing happens otherwise. -/
def Env.live (env : Env) (l : Life) : LifeMove → Life
  | .create c =>
      if l.created c then l
      else { l with
        created := fun d => d = c || l.created d
        alive := fun d => d = c || l.alive d }
  | .destroy c =>
      -- the members go, and nobody tells the server
      { l with alive := fun d => d ≠ c && l.alive d }
  | .move (.call q) =>
      if l.alive q.client then { l with cfg := env.system.step l.cfg (.call q) } else l
  | .move (.answer a) => { l with cfg := env.system.step l.cfg (.answer a) }

/-- A run in which clients come and go.  At first there are none. -/
def Env.lives (env : Env) (names : ClientId → Str) (disk : Str → Option Str)
    (ms : List LifeMove) : Life :=
  ms.foldl env.live ⟨env.run names disk [], fun _ => false, fun _ => false⟩

/-- The client an act of the transport invokes the handler of. -/
def invokedClient : Act Eff Notice Exn Call Value → Option ClientId
  | .did (.invoke c _ _) => some c
  | _ => none

/-- The clients whose handlers are invoked between two configurations. -/
def invokedBetween (cfg cfg' : Configuration) : List ClientId :=
  (cfg'.hist.2.take (cfg'.hist.2.length - cfg.hist.2.length)).filterMap fun x => invokedClient x.act

variable {env : Env} {names : ClientId → Str} {disk : Str → Option Str} {h : History}
  {c d : ClientId} {w : World} {ms : List LifeMove} {l : Life}

theorem lives_append_singleton (m : LifeMove) :
    env.lives names disk (ms ++ [m]) = env.live (env.lives names disk ms) m := by
  simp [Env.lives, List.foldl_append]

/-- What a move can do. -/
inductive LifeChange (env : Env) (l : Life) : LifeMove → Life → Prop
  | nothing (m : LifeMove) : LifeChange env l m l
  | created (c : ClientId) (new : l.created c = false) : LifeChange env l (.create c) { l with
      created := fun d => d = c || l.created d
      alive := fun d => d = c || l.alive d }
  | destroyed (c : ClientId) :
      LifeChange env l (.destroy c) { l with alive := fun d => d ≠ c && l.alive d }
  | called (q : Call) (exists_ : l.alive q.client = true) :
      LifeChange env l (.move (.call q)) { l with cfg := env.system.step l.cfg (.call q) }
  | answered (a : Except Exn Unit) :
      LifeChange env l (.move (.answer a)) { l with cfg := env.system.step l.cfg (.answer a) }

theorem live_change (env : Env) (l : Life) (m : LifeMove) : LifeChange env l m (env.live l m) := by
  rcases m with c | c | q | a
  · show LifeChange env l _ (if l.created c then l else _)
    split
    · exact .nothing _
    · next hnew => exact .created c (Bool.eq_false_iff.mpr hnew)
  · exact .destroyed c
  · show LifeChange env l _ (if l.alive q.client then _ else l)
    split
    · next halive => exact .called q halive
    · exact .nothing _
  · exact .answered a

/-- What holds before anything has been created and is kept by every change holds
throughout a life. -/
theorem lives_induct {K : Life → Prop}
    (h0 : K ⟨env.run names disk [], fun _ => false, fun _ => false⟩)
    (hstep : ∀ l m l', K l → LifeChange env l m l' → K l') (ms : List LifeMove) :
    K (env.lives names disk ms) := by
  induction ms using List.reverseRecOn with
  | nil => exact h0
  | append_singleton ms m ih =>
      rw [lives_append_singleton]
      exact hstep _ m _ ih (live_change env _ m)

/-- The configuration of a life is that of a run. -/
theorem exists_run (env : Env) (names : ClientId → Str) (disk : Str → Option Str)
    (ms : List LifeMove) : ∃ ms', (env.lives names disk ms).cfg = env.run names disk ms' := by
  refine lives_induct (K := fun l => ∃ ms', l.cfg = env.run names disk ms') ⟨[], rfl⟩ ?_ ms
  rintro l m l' ⟨ms', hms'⟩ hchange
  cases hchange with
  | nothing m => exact ⟨ms', hms'⟩
  | created c new => exact ⟨ms', hms'⟩
  | destroyed c => exact ⟨ms', hms'⟩
  | called q halive => exact ⟨ms' ++ [.call q], by rw [Env.run_append_singleton, ← hms']⟩
  | answered a => exact ⟨ms' ++ [.answer a], by rw [Env.run_append_singleton, ← hms']⟩

/-! ### Acts of a send -/

theorem sendActs_transport {e : Eff} (he : SendActs e) (w : World) :
    (e.exec env w).2.server.transport = w.server.transport :=
  (sameSessions_exec env (sessionFree_of_sendActs he) w).transport

theorem sendActs_of_sends {c : ClientId} {op : Op} {e : Eff} (hop : op.Sends)
    (he : Footprint c op e) : SendActs e := by
  cases op with
  | sendMessage _ _ => exact he
  | sendGroupMessage _ _ => exact he
  | _ => exact hop.elim

/-- Whatever goes on in a suspended call, no client and no session changes. -/
theorem step_answer (env : Env) (names : ClientId → Str) (disk : Str → Option Str)
    (ms : List (Move Exn Call)) (a : Except Exn Unit) :
    (env.system.step (env.run names disk ms) (.answer a)).hist.1.clients
        = (env.run names disk ms).hist.1.clients ∧
      (env.system.step (env.run names disk ms) (.answer a)).hist.1.server.transport
        = (env.run names disk ms).hist.1.server.transport := by
  have hframes : ∀ f ∈ (env.run names disk ms).stack, ∃ q : Call, q.op.Sends ∧
      ∀ a, (f.resume a).AllActs (Footprint q.client q.op) (fun _ => q.op.Sends) :=
    stack_allActs env.system (body_allActs env) (World.initial names disk) ms
  generalize env.run names disk ms = cfg at hframes ⊢
  rcases hs : cfg.stack with - | ⟨f, rest⟩
  · simp only [step, hs, and_self]
  · obtain ⟨q, hsends, hacts⟩ := hframes f (by rw [hs]; exact List.mem_cons_self)
    simp only [step, hs]
    refine advance_of_allActs (S := fun w : World => w.clients = cfg.hist.1.clients ∧
      w.server.transport = cfg.hist.1.server.transport) ?_ (hacts a) ⟨rfl, rfl⟩
    intro e w he hw
    have hsend := sendActs_of_sends hsends he
    exact ⟨(sendActs_clients hsend w).trans hw.1, (sendActs_transport hsend w).trans hw.2⟩

/-! ### Invoked handlers -/

/-- A handler that is invoked is in the table. -/
def InvokesOnline (h : History) : Prop :=
  ∀ x ∈ h.2, ∀ c ∈ invokedClient x.act, ∃ u, x.before.server.transport.handlers.lookup u = some c

theorem InvokesOnline.push {i : Nat} (hI : InvokesOnline h) {a : Act Eff Notice Exn Call Value}
    (ha : ∀ c ∈ invokedClient a, ∃ u, h.1.server.transport.handlers.lookup u = some c) :
    InvokesOnline (env.system.push h i a) := by
  intro x hx
  rcases List.mem_cons.mp hx with rfl | hx
  · exact ha
  · exact hI x hx

/-- Programs that invoke no handler. -/
theorem keeps_of_allActs {α : Type} {p : Code α} {P : Eff → Prop} {V : Notice → Prop}
    (hp : p.AllActs P V) (hP : ∀ e, P e → ∀ d f q, e ≠ .invoke d f q) :
    env.system.Keeps InvokesOnline p := by
  refine .of_allActs hp (fun i e h he hI => hI.push fun c hc => ?_) fun i a h ha hI =>
    hI.push fun c hc => ?_
  · cases e with
    | invoke d f q => exact absurd rfl (hP _ he d f q)
    | _ => cases hc
  · cases a with
    | did e => exact absurd rfl (ha e)
    | _ => cases hc

theorem keeps_act {e : Eff} (he : ∀ d f q, e ≠ .invoke d f q) :
    env.system.Keeps InvokesOnline (Prog.act e : Code e.Res) :=
  keeps_of_allActs (P := fun e => ∀ d f q, e ≠ .invoke d f q) (V := fun _ => True)
    (allActs_act.mpr he) fun _ h => h

theorem keeps_pure {α : Type} (a : α) : env.system.Keeps InvokesOnline (pure a : Code α) :=
  fun _ _ hI => hI

theorem keeps_ofExcept {α : Type} (x : Except Exn α) :
    env.system.Keeps InvokesOnline (Prog.ofExcept x : Code α) :=
  fun _ _ hI => wp_ofExcept.mpr hI

theorem keeps_send (c : ClientId) (toUser payload : Str) :
    env.system.Keeps InvokesOnline (send env c toUser payload) := by
  apply Keeps.bind (keeps_act fun _ _ _ e => by cases e)
  intro self
  split
  · -- the handler has just been found
    intro i h hI
    refine wp_step fun handler h1 hfind hh1 => ?_
    have hI1 : InvokesOnline h1 := by
      rw [hh1]
      exact hI.push fun _ hc => by cases hc
    rcases handler with - | receiver
    · exact hI1
    · refine wp_step fun _ h2 _ hh2 => ?_
      have hI2 : InvokesOnline h2 := by
        rw [hh2]
        refine hI1.push fun d hd => ?_
        cases hd
        rw [hh1]
        exact ⟨toUser, hfind.symm⟩
      have hhandled : env.system.Keeps InvokesOnline
          (handleIncoming env receiver self.transport.username payload) :=
        keeps_of_allActs (handleIncoming_invokes_nothing env receiver _ payload) fun _ h => h
      exact hhandled.bind (fun _ => keeps_pure true) i h2 hI2
  · exact keeps_pure false

theorem keeps_deliver (c : ClientId) (toUser : Str) (message : Message) :
    env.system.Keeps InvokesOnline (deliver env c toUser message) := by
  apply (keeps_ofExcept _).bind
  intro wire
  apply (keeps_send c toUser wire).bind
  intro delivered
  exact keeps_act fun _ _ _ e => by cases e

theorem keeps_sendMessage (c : ClientId) (toUser plaintext : Str) :
    env.system.Keeps InvokesOnline (sendMessage env c toUser plaintext) := by
  apply Keeps.bind (keeps_act fun _ _ _ e => by cases e)
  intro self
  split
  · apply Keeps.bind (keeps_act fun _ _ _ e => by cases e)
    intro receiverPublicKey
    split
    · exact keeps_pure false
    · apply Keeps.bind (keeps_act fun _ _ _ e => by cases e)
      intro n
      apply (keeps_ofExcept _).bind
      intro message
      exact (keeps_deliver c toUser message).bind fun _ => keeps_pure true
  · exact keeps_pure false

theorem keeps_sendCopies (c : ClientId) (self : ChatClient) (groupId : Str)
    (sessionKey encryptedPayload : Bytes) (members : List Str) (anySent : Bool) :
    env.system.Keeps InvokesOnline
      (sendCopies env c self groupId sessionKey encryptedPayload members anySent) := by
  induction members generalizing anySent with
  | nil => exact keeps_pure anySent
  | cons member members ih =>
      apply Keeps.bind (keeps_act fun _ _ _ e => by cases e)
      intro receiverPublicKey
      split
      · exact ih anySent
      · apply Keeps.bind (keeps_act fun _ _ _ e => by cases e)
        intro n
        apply (keeps_ofExcept _).bind
        intro message
        exact (keeps_deliver c member message).bind fun _ => ih true

theorem keeps_sendGroupMessage (c : ClientId) (groupId plaintext : Str) :
    env.system.Keeps InvokesOnline (sendGroupMessage env c groupId plaintext) := by
  apply Keeps.bind (keeps_act fun _ _ _ e => by cases e)
  intro self
  split
  · apply Keeps.bind (keeps_act fun _ _ _ e => by cases e)
    intro members
    split
    · exact keeps_pure false
    · apply Keeps.bind (keeps_act fun _ _ _ e => by cases e)
      intro n
      apply (keeps_ofExcept _).bind
      intro r
      exact keeps_sendCopies c self groupId r.1 r.2 members false
  · exact keeps_pure false

theorem not_invoke_of_footprint {op : Op} {e : Eff} (hop : ¬ op.Sends) (he : Footprint c op e)
    (d : ClientId) (fromUser payload : Str) : e ≠ .invoke d fromUser payload := by
  rintro rfl
  cases op with
  | sendMessage _ _ => exact hop trivial
  | sendGroupMessage _ _ => exact hop trivial
  | _ => exact he

theorem keeps_body (q : Call) : env.system.Keeps InvokesOnline (q.body env) := by
  by_cases hop : q.op.Sends
  · obtain ⟨c, op⟩ := q
    cases op with
    | sendMessage toUser plaintext =>
        exact (keeps_sendMessage c toUser plaintext).bind fun _ => keeps_pure _
    | sendGroupMessage groupId plaintext =>
        exact (keeps_sendGroupMessage c groupId plaintext).bind fun _ => keeps_pure _
    | _ => exact hop.elim
  · exact keeps_of_allActs (body_allActs env q) fun e he => not_invoke_of_footprint hop he

theorem invokesOnline_run (env : Env) (names : ClientId → Str) (disk : Str → Option Str)
    (ms : List (Move Exn Call)) : InvokesOnline (env.run names disk ms).hist := by
  refine run_keeps env.system (fun x hx => nomatch hx) keeps_body (fun i a h ha hI => ?_) ms
  refine hI.push fun c hc => ?_
  cases a with
  | did e => exact absurd rfl (ha e)
  | _ => cases hc

/-! ### What one call invokes -/

theorem mem_invokedBetween {cfg cfg' : Configuration}
    {new : List (Entry Eff Notice Exn Call Value World)} (hnew : cfg'.hist.2 = new ++ cfg.hist.2) :
    c ∈ invokedBetween cfg cfg' ↔ ∃ x ∈ new, invokedClient x.act = some c := by
  unfold invokedBetween
  rw [hnew, List.length_append, Nat.add_sub_cancel, List.take_left]
  exact List.mem_filterMap

/-- A call, or the rest of one, invokes handlers only while the table is as it was
when the call went on. -/
theorem advance_invokes (env : Env) {op : Op} {e : ClientId} (i : Nat) {p : Code Value}
    (stack : List (Frame Eff Eff.Res Notice Exn Value)) {V : Notice → Prop}
    (hp : p.AllActs (Footprint e op) V) (h : History) :
    ∃ new, (env.system.advance i stack p h).1.2 = new ++ h.2 ∧
      ∀ x ∈ new, ∀ c ∈ invokedClient x.act, x.before.server.transport = h.1.server.transport := by
  by_cases hop : op.Sends
  · obtain ⟨new, hnew, hall⟩ := advance_new env.system i stack
      (S := fun w => w.server.transport = h.1.server.transport)
      (fun a w ha hw => (sendActs_transport (sendActs_of_sends hop ha) w).trans hw) hp rfl
    exact ⟨new, hnew, fun x hx c _ => (hall x hx).1⟩
  · -- other calls invoke nothing
    obtain ⟨new, hnew, hall⟩ := advance_new env.system i stack
      (S := fun _ => True) (fun _ _ _ _ => trivial) hp (h := h) trivial
    refine ⟨new, hnew, fun x hx c hc => ?_⟩
    rcases hact : x.act with q | a | n | a | r
    · rw [hact] at hc
      cases hc
    · rw [hact] at hc
      cases a with
      | invoke d f q => exact absurd rfl (not_invoke_of_footprint hop ((hall x hx).2 _ hact) d f q)
      | _ => cases hc
    all_goals
      rw [hact] at hc
      cases hc

/-- One move of a run invokes only handlers of the table before it. -/
theorem online_of_invoked {ms : List (Move Exn Call)} {m : Move Exn Call}
    (hc : c ∈ invokedBetween (env.run names disk ms) (env.system.step (env.run names disk ms) m)) :
    ∃ u, (env.run names disk ms).hist.1.server.transport.handlers.lookup u = some c := by
  have honline : InvokesOnline (env.system.step (env.run names disk ms) m).hist := by
    rw [← Env.run_append_singleton]
    exact invokesOnline_run env names disk (ms ++ [m])
  have hframes : ∀ f ∈ (env.run names disk ms).stack, ∃ q : Call, q.op.Sends ∧
      ∀ a, (f.resume a).AllActs (Footprint q.client q.op) (fun _ => q.op.Sends) :=
    stack_allActs env.system (body_allActs env) (World.initial names disk) ms
  generalize env.run names disk ms = cfg at honline hframes hc ⊢
  -- the entries of the move: one that invokes a handler finds the table as it was before the move
  obtain ⟨new, hnew, hsame⟩ : ∃ new, (env.system.step cfg m).hist.2 = new ++ cfg.hist.2 ∧
      ∀ x ∈ new, ∀ c ∈ invokedClient x.act,
        x.before.server.transport = cfg.hist.1.server.transport := by
    cases m with
    | call q =>
        obtain ⟨new, hnew, hall⟩ := advance_invokes env cfg.next cfg.stack
          (body_allActs env q) (env.system.push cfg.hist cfg.next (.called q))
        refine ⟨new ++ [⟨cfg.next, .called q, cfg.hist.1⟩], ?_, fun x hx c hc => ?_⟩
        · rw [List.append_assoc]
          exact hnew
        · rcases List.mem_append.mp hx with hx | hx
          · exact hall x hx c hc
          · rw [List.mem_singleton.mp hx] at hc
            cases hc
    | answer a =>
        -- with nothing waiting the answer adds no entry
        rcases hs : cfg.stack with - | ⟨f, rest⟩
        · exact ⟨[], by simp only [step, hs, List.nil_append], fun x hx => nomatch hx⟩
        · obtain ⟨q, -, hacts⟩ := hframes f (by rw [hs]; exact List.mem_cons_self)
          obtain ⟨new, hnew, hall⟩ := advance_invokes env f.inst rest
            (hacts a) (env.system.push cfg.hist f.inst (.resumed a))
          refine ⟨new ++ [⟨f.inst, .resumed a, cfg.hist.1⟩], ?_, fun x hx c hc => ?_⟩
          · simp only [step, hs]
            rw [List.append_assoc]
            exact hnew
          · rcases List.mem_append.mp hx with hx | hx
            · exact hall x hx c hc
            · rw [List.mem_singleton.mp hx] at hc
              cases hc
  obtain ⟨x, hx, hinvoked⟩ := (mem_invokedBetween hnew).mp hc
  have hmem : x ∈ (env.system.step cfg m).hist.2 := by
    rw [hnew]
    exact List.mem_append_left _ hx
  rw [← hsame x hx c hinvoked]
  exact honline x hmem c hinvoked

/-! ### Sessions of existing clients -/

/-- Every entry of the table belongs to a client that exists. -/
def HandlersLive (l : Life) : Prop :=
  ∀ u c, l.cfg.hist.1.server.transport.handlers.lookup u = some c → l.alive c = true

/-- A user whose client was destroyed can log in again with another one, if no
client that exists is logged in under the name. -/
def Relogin (env : Env) (names : ClientId → Str) (l : Life) : Prop :=
  ∀ c d p n keyPair, l.created c = true → l.alive c = false → l.alive d = true →
    names d = names c →
    (∀ e, l.alive e = true → names e = names c → (l.cfg.hist.1.clients e).loggedIn = false) →
    RightPassword env l.cfg.hist.1.server (names c) n p →
    Saved env l.cfg.hist.1.disk (names c) keyPair →
    resultOf (env.live l (.move (.call ⟨d, .login p⟩))).cfg.hist = some (.bool true)

/-- No session outlives its client in the run `ms`: neither as an entry of the
table, nor by a handler that is invoked, nor by keeping a user out. -/
structure SessionsEnd (env : Env) (names : ClientId → Str) (disk : Str → Option Str)
    (ms : List LifeMove) : Prop where
  handlers : ∀ n, HandlersLive (env.lives names disk (ms.take n))
  invoked : ∀ n c, c ∈ invokedBetween (env.lives names disk (ms.take n)).cfg
    (env.lives names disk (ms.take (n + 1))).cfg → (env.lives names disk (ms.take n)).alive c = true
  relogin : env.LoginsWork → ∀ n, Relogin env names (env.lives names disk (ms.take n))

/-- Clients are logged out when they are destroyed. -/
def DestroyedLoggedOut (env : Env) (names : ClientId → Str) (disk : Str → Option Str)
    (ms : List LifeMove) : Prop :=
  ∀ n c, ms[n]? = some (.destroy c) → (env.lives names disk (ms.take n)).alive c = true →
    ((env.lives names disk (ms.take n)).cfg.hist.1.clients c).loggedIn = false

theorem lives_take_succ (env : Env) (names : ClientId → Str) (disk : Str → Option Str)
    (ms : List LifeMove) (n : Nat) :
    (ms[n]? = none ∧ env.lives names disk (ms.take (n + 1)) = env.lives names disk (ms.take n)) ∨
      ∃ m, ms[n]? = some m ∧ env.lives names disk (ms.take (n + 1))
        = env.live (env.lives names disk (ms.take n)) m := by
  rw [List.take_add_one]
  rcases ms[n]? with - | m
  · exact Or.inl ⟨rfl, by rw [Option.toList_none, List.append_nil]⟩
  · exact Or.inr ⟨m, rfl, lives_append_singleton m⟩

/-- A move other than the destruction of a client that is logged in leaves no
entry without its client. -/
theorem handlersLive_of_change {m : LifeMove} {l' : Life} (hrun : ∃ ms, l.cfg = env.run names disk ms)
    (hlive : HandlersLive l)
    (hm : ∀ c, m = .destroy c → l.alive c = true → (l.cfg.hist.1.clients c).loggedIn = false)
    (hchange : LifeChange env l m l') : HandlersLive l' := by
  obtain ⟨ms, hrun⟩ := hrun
  have hsessions : SessionInv l.cfg.hist.1 := by
    rw [hrun]
    exact sessionInv_run env names disk ms
  intro u d hd
  cases hchange with
  | nothing m => exact hlive u d hd
  | created c new => exact Bool.or_eq_true_iff.mpr (Or.inr (hlive u d hd))
  | destroyed c =>
      have halive := hlive u d hd
      refine Bool.and_eq_true_iff.mpr ⟨decide_eq_true fun e => ?_, halive⟩
      -- the entry would be of a client that is logged in
      subst e
      have hlogged := ((hsessions.handler u d).mp hd).1
      rw [hm d rfl halive] at hlogged
      cases hlogged
  | called q halive =>
      rcases eq_or_ne d q.client with rfl | hne
      · exact halive
      · have hsessions' : SessionInv (env.system.step l.cfg (.call q)).hist.1 := by
          rw [hrun, ← Env.run_append_singleton]
          exact sessionInv_run env names disk _
        obtain ⟨hlogged, hname⟩ := (hsessions'.handler u d).mp hd
        rw [step_other_client env l.cfg q hne] at hlogged hname
        exact hlive u d ((hsessions.handler u d).mpr ⟨hlogged, hname⟩)
  | answered a =>
      apply hlive u d
      have hsame := (step_answer env names disk ms a).2
      rw [← hrun] at hsame
      rw [← hsame]
      exact hd

/-- The handlers a move invokes are those of the table. -/
theorem alive_of_change {m : LifeMove} {l' : Life} (hrun : ∃ ms, l.cfg = env.run names disk ms)
    (hlive : HandlersLive l) (hchange : LifeChange env l m l')
    (hc : c ∈ invokedBetween l.cfg l'.cfg) : l.alive c = true := by
  obtain ⟨ms, hrun⟩ := hrun
  have hstep : ∀ m : Move Exn Call, c ∈ invokedBetween l.cfg (env.system.step l.cfg m) →
      l.alive c = true := by
    intro m hc
    rw [hrun] at hc
    obtain ⟨u, hu⟩ := online_of_invoked hc
    rw [← hrun] at hu
    exact hlive u c hu
  have hnothing : c ∉ invokedBetween l.cfg l.cfg := by
    intro hc
    have hnew : l.cfg.hist.2 = [] ++ l.cfg.hist.2 := (List.nil_append _).symm
    obtain ⟨x, hx, -⟩ := (mem_invokedBetween hnew).mp hc
    cases hx
  cases hchange with
  | called q _ => exact hstep (.call q) hc
  | answered a => exact hstep (.answer a) hc
  | _ => exact absurd hc hnothing

theorem relogin_of_handlersLive (hrun : ∃ ms, l.cfg = env.run names disk ms)
    (hlive : HandlersLive l) (hlw : env.LoginsWork) : Relogin env names l := by
  obtain ⟨ms, hrun⟩ := hrun
  intro c d p n keyPair _ _ halive hd hnobody hright hsaved
  have hsessions : SessionInv l.cfg.hist.1 := by
    rw [hrun]
    exact sessionInv_run env names disk ms
  have hname : ∀ e, (l.cfg.hist.1.clients e).username = names e := by
    intro e
    rw [hrun]
    exact named_run env names disk ms e
  show resultOf (if l.alive d then { l with cfg := env.system.step l.cfg _ } else l : Life).cfg.hist
    = _
  rw [if_pos halive]
  rw [← hd, ← hname d] at hright hsaved
  refine step_login_ok hlw hsessions hright hsaved fun e he => ?_
  -- an entry under the name would be of a client that exists and is logged in
  obtain ⟨hlogged, hename⟩ := (hsessions.handler _ e).mp he
  rw [hname, hname, hd] at hename
  rw [hnobody e (hlive _ e he) hename] at hlogged
  cases hlogged

/-- **When sessions end with their clients.**  No session outlives its client in a
run that creates and destroys clients if and only if every client is logged out
when it is destroyed. -/
theorem lifetimes_iff (env : Env) (names : ClientId → Str) (disk : Str → Option Str)
    (ms : List LifeMove) :
    SessionsEnd env names disk ms ↔ DestroyedLoggedOut env names disk ms := by
  have hrun : ∀ n, ∃ ms', (env.lives names disk (ms.take n)).cfg = env.run names disk ms' :=
    fun n => exists_run env names disk _
  constructor
  · intro hend n c hm halive
    refine Bool.eq_false_iff.mpr fun hlogged => ?_
    obtain ⟨ms', hms'⟩ := hrun n
    have hsessions : SessionInv (env.lives names disk (ms.take n)).cfg.hist.1 := by
      rw [hms']
      exact sessionInv_run env names disk ms'
    -- the entry of the destroyed client stays
    have hentry := (hsessions.handler _ c).mpr ⟨hlogged, rfl⟩
    rcases lives_take_succ env names disk ms n with ⟨hnone, -⟩ | ⟨m, hm', hstep⟩
    · rw [hm] at hnone
      cases hnone
    · rw [hm] at hm'
      cases hm'
      have hlive := hend.handlers (n + 1)
      rw [hstep] at hlive
      have hgone := (Bool.and_eq_true_iff.mp (hlive _ c hentry)).1
      exact of_decide_eq_true hgone rfl
  · intro hout
    have hlive : ∀ n, HandlersLive (env.lives names disk (ms.take n)) := by
      intro n
      induction n with
      | zero =>
          rw [List.take_zero]
          exact fun u c hc => nomatch hc
      | succ n ih =>
          rcases lives_take_succ env names disk ms n with ⟨-, hsame⟩ | ⟨m, hm, hstep⟩
          · rw [hsame]
            exact ih
          · rw [hstep]
            refine handlersLive_of_change (hrun n) ih (fun c e => ?_) (live_change env _ m)
            subst e
            exact hout n c hm
    refine ⟨hlive, fun n c hc => ?_, fun hlw n => relogin_of_handlersLive (hrun n) (hlive n) hlw⟩
    rcases lives_take_succ env names disk ms n with ⟨-, hsame⟩ | ⟨m, -, hstep⟩
    · rw [hsame] at hc
      exact alive_of_change (hrun n) (hlive n) (.nothing (.create c)) hc
    · rw [hstep] at hc
      exact alive_of_change (hrun n) (hlive n) (live_change env _ m) hc

/-- Alice registers, logs in and is destroyed. -/
def Env.orphaned : List LifeMove :=
  [.create 0, .move (.call ⟨0, .registerOnServer (str "pw")⟩),
   .move (.call ⟨0, .login (str "pw")⟩), .destroy 0]

/-- Her entry stays in the table. -/
theorem lifetimes_orphaned : ¬ ∀ (env : Env) (names : ClientId → Str) (disk : Str → Option Str)
    (ms : List LifeMove), SessionsEnd env names disk ms := by
  intro h
  have hlive := (h Env.reference Env.names Env.noFiles Env.orphaned).handlers 4 (str "alice") 0
    (by decide +kernel)
  exact absurd hlive (by decide +kernel)

/-- Another client of hers cannot log in. -/
example : resultOf (Env.reference.lives (fun _ => str "alice") Env.noFiles
    (Env.orphaned ++ [.create 1, .move (.call ⟨1, .login (str "pw")⟩)])).cfg.hist
      = some (.bool false) := by
  decide +kernel

end Evlampy
