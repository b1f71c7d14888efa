/-
Evlampy/Contention.lean

Logins and logouts side by side.  In `Sessions.lean` a login runs from its beginning
to its end; here every client runs its calls on a thread of its own, and between two
steps of a login others may log in or out under the same name.  A client that is
about to log in or out need not agree with the server's table: it may be listed
without being logged in, or be logged in without being listed.  But a client at rest
agrees with it in every interleaving, so no two clients at rest are logged in under
one name (`sessions_under_contention`).

What a thread relies on is `Standing`: what the client says about itself, and whether
the table lists it under its name.  No other thread changes it (`standing_else`).  For
this it matters that a logout takes only its own client out of the table, which the
invariant remembers of every act of the trace (`Contended.ended`).

The clients are told apart by their threads: what another thread reads of a client in
`handleIncoming`, while that client logs in, is a race in the program, but no part of a
session.
-/
import Evlampy.Interleavings

namespace Evlampy

open Cxx Callback Prog System UnorderedMap ChatClient

/-! ### Standing -/

/-- What a client's session is recorded in. -/
structure Standing where
  loggedIn : Bool
  transport : TcpClient
  /-- The table of handlers has the client under its name. -/
  listed : Prop

/-- The records agree. -/
structure Standing.Agrees (name : Str) (s : Standing) : Prop where
  connected : s.loggedIn = s.transport.connected
  username : s.loggedIn = true → s.transport.username = name
  listed : s.loggedIn = true ↔ s.listed

/-- The records of one client in the world. -/
def standing (names : ClientId → Str) (w : World) (c : ClientId) : Standing where
  loggedIn := (w.clients c).loggedIn
  transport := (w.clients c).transport
  listed := w.server.transport.handlers.lookup (names c) = some c

/-- The calls that begin or end a session. -/
def Op.Session : Op → Prop
  | .login _ => True
  | .logout => True
  | _ => False

/-- No login and no logout of the client is under way. -/
def AtRest (h : History) (c : ClientId) : Prop :=
  ∀ i op, IsCall h i ⟨c, op⟩ → op.Session → Rests h i

/-- The table lists clients under their names, clients at rest agree with it, and
logouts have taken only their own clients out of it. -/
structure Contended (names : ClientId → Str) (h : History) : Prop where
  atRest : ∀ c, AtRest h c → (standing names h.1 c).Agrees (names c)
  entry : ∀ u c, h.1.server.transport.handlers.lookup u = some c → u = names c
  ended : ∀ x ∈ h.2, ∀ u, x.act = .did (.tcp (.disconnectClient u)) →
    ∃ c op, IsCall h x.inst ⟨c, op⟩ ∧ op.Session ∧
      x.before.server.transport.handlers.lookup u = some c

/-- What the calls rely on. -/
structure Orderly (names : ClientId → Str) (h : History) : Prop where
  named : Named names h.1
  scheduled : Scheduled Call.client h

variable {env : Env} {names : ClientId → Str} {h h' : History} {i j : Nat} {c d : ClientId}
  {q : Call} {a : Act Eff Notice Exn Call Value} {w w' : World}

theorem Standing.Agrees.congr {name : Str} {s s' : Standing} (hs : s.Agrees name)
    (hlogged : s'.loggedIn = s.loggedIn) (htransport : s'.transport = s.transport)
    (hlisted : s'.listed ↔ s.listed) : s'.Agrees name := by
  refine ⟨?_, ?_, ?_⟩
  · rw [hlogged, htransport]
    exact hs.connected
  · rw [hlogged, htransport]
    exact hs.username
  · rw [hlogged, hlisted]
    exact hs.listed

/-- Logged out, and not listed. -/
theorem Standing.agrees_out (name : Str) {t : TcpClient} (ht : t.connected = false) {listed : Prop}
    (hlisted : ¬ listed) : Standing.Agrees name ⟨false, t, listed⟩ := by
  refine ⟨ht.symm, ?_, ?_⟩
  · intro e
    cases e
  · simpa using hlisted

/-- The client stands as before. -/
structure Stands (names : ClientId → Str) (c : ClientId) (w w' : World) : Prop where
  loggedIn : (w'.clients c).loggedIn = (w.clients c).loggedIn
  transport : (w'.clients c).transport = (w.clients c).transport
  listed : w'.server.transport.handlers.lookup (names c) = some c ↔
    w.server.transport.handlers.lookup (names c) = some c

theorem Stands.refl (names : ClientId → Str) (c : ClientId) (w : World) : Stands names c w w :=
  ⟨rfl, rfl, Iff.rfl⟩

theorem Stands.agrees (hs : Stands names c w w') (ha : (standing names w c).Agrees (names c)) :
    (standing names w' c).Agrees (names c) :=
  ha.congr hs.loggedIn hs.transport hs.listed

theorem SameSessions.stands (same : SameSessions w w') (names : ClientId → Str) (c : ClientId) :
    Stands names c w w' :=
  ⟨same.loggedIn c, same.connection c, by rw [same.transport]⟩

/-- Acts that are no actions change nothing. -/
theorem stands_push_of_ne (ha : ∀ e, a ≠ .did e) (h : History) (c : ClientId) :
    Stands names c h.1 (env.system.push h i a).1 := by
  cases a with
  | did e => exact absurd rfl (ha e)
  | _ => exact .refl names c h.1

/-! ### What other clients do -/

/-- Another client's entry in the table. -/
theorem listed_insert_ne {u : Str} (hne : d ≠ c) {handlers : UnorderedMap Str ClientId}
    (hfree : u ∉ handlers) :
    (handlers.insert u d).lookup (names c) = some c ↔ handlers.lookup (names c) = some c := by
  rcases eq_or_ne (names c) u with rfl | hu
  · rw [AList.lookup_insert, AList.lookup_eq_none.mpr hfree]
    simp [hne]
  · rw [AList.lookup_insert_ne hu]

theorem listed_erase_ne {u : Str} (hne : d ≠ c) {handlers : UnorderedMap Str ClientId}
    (hlisted : handlers.lookup u = some d) :
    (handlers.erase u).lookup (names c) = some c ↔ handlers.lookup (names c) = some c := by
  rcases eq_or_ne (names c) u with rfl | hu
  · rw [AList.lookup_erase, hlisted]
    simp [hne]
  · rw [AList.lookup_erase_ne hu]

/-- An action of a call of another client, which takes none but its own client out of the
table. -/
theorem stands_exec_ne {op : Op} {e : Eff} (hne : d ≠ c) (he : Footprint d op e)
    (hended : ∀ u, e = .tcp (.disconnectClient u) →
      ∃ d', d' ≠ c ∧ w.server.transport.handlers.lookup u = some d') :
    Stands names c w (e.exec env w).2 := by
  have hclients : (e.exec env w).2.clients c = w.clients c :=
    exec_clients_of_footprint hne.symm he
  by_cases hfree : SessionFree e
  · exact (sameSessions_exec env hfree w).stands names c
  · cases e with
    | tcp q =>
        cases q with
        | findHandler u => exact absurd trivial hfree
        | connectClient u d' =>
            have hd : d' = d := by
              cases op with
              | login _ => exact he
              | _ => exact he.elim
            subst hd
            by_cases htaken : u ∈ w.server.transport.handlers
            · rw [exec_connectClient_of_mem env d' htaken]
              exact .refl names c w
            · rw [exec_connectClient_of_notMem env d' htaken]
              exact ⟨rfl, rfl, listed_insert_ne hne htaken⟩
        | disconnectClient u =>
            obtain ⟨d', hne', hlisted⟩ := hended u rfl
            exact ⟨rfl, rfl, listed_erase_ne hne' hlisted⟩
    | assign d' u =>
        exact ⟨by rw [hclients], by rw [hclients], Iff.rfl⟩
    | _ => exact absurd trivial hfree

/-! ### Keeping the invariant -/

theorem not_rests_did {e : Eff} : ¬ Rests (env.system.push h i (.did e)) i := by
  rintro ⟨a, b, hhead, ha⟩
  rw [System.push, own_cons_self] at hhead
  cases hhead
  rcases ha with ⟨r, e⟩ | ⟨n, e⟩
  · cases e
  · cases e

/-- An act of a call of another client, or of one that is no login or logout. -/
theorem AtRest.of_push (hJ : Orderly names h) (hi : IsCall h i q)
    (hq : q.client = c → ¬ q.op.Session) (hrest : AtRest (env.system.push h i a) c) :
    AtRest h c := by
  intro j op hj hop
  have hne : i ≠ j := by
    rintro rfl
    obtain rfl := hJ.scheduled.called i q _ hi hj
    exact hq rfl hop
  exact (rests_push_iff hne).mp (hrest j op (hj.push i a) hop)

theorem Contended.push (hI : Contended names h)
    (hentry : ∀ u c, (env.system.push h i a).1.server.transport.handlers.lookup u = some c →
      u = names c)
    (hended : ∀ u, a = .did (.tcp (.disconnectClient u)) → ∃ c op, IsCall h i ⟨c, op⟩ ∧
      op.Session ∧ h.1.server.transport.handlers.lookup u = some c)
    (hrest : ∀ c, AtRest (env.system.push h i a) c →
      (standing names (env.system.push h i a).1 c).Agrees (names c)) :
    Contended names (env.system.push h i a) := by
  refine ⟨hrest, hentry, fun x hx u hact => ?_⟩
  rcases List.mem_cons.mp hx with rfl | hx
  · obtain ⟨c, op, hi, hop, hlisted⟩ := hended u hact
    exact ⟨c, op, hi.push i a, hop, hlisted⟩
  · obtain ⟨c, op, hi, hop, hlisted⟩ := hI.ended x hx u hact
    exact ⟨c, op, hi.push i a, hop, hlisted⟩

/-- An act that is no action. -/
theorem Contended.push_of_ne (hI : Contended names h) (ha : ∀ e, a ≠ .did e)
    (hrest : ∀ c, AtRest (env.system.push h i a) c → (standing names h.1 c).Agrees (names c)) :
    Contended names (env.system.push h i a) := by
  refine hI.push (fun u c hu => ?_) (fun u e => absurd e (ha _)) fun c hc => ?_
  · cases a with
    | did e => exact absurd rfl (ha e)
    | _ => exact hI.entry u c hu
  · exact (stands_push_of_ne ha h c).agrees (hrest c hc)

/-- The begin of a call. -/
theorem Contended.called (hI : Contended names h) (hlt : ∀ x ∈ h.2, x.inst < i) (q : Call) :
    Contended names (env.system.push h i (.called q)) := by
  refine hI.push_of_ne (fun _ e => by cases e) fun c hc => hI.atRest c fun j op hj hop => ?_
  have hne : i ≠ j := by
    rintro rfl
    obtain ⟨x, hx, rfl, -⟩ := hj
    exact Nat.lt_irrefl _ (hlt x hx)
  exact (rests_push_iff hne).mp (hc j op (hj.push i _) hop)

/-- An act of a call that is no login and no logout. -/
theorem Contended.free (hI : Contended names h) (hJ : Orderly names h) (hi : IsCall h i q)
    (hq : ¬ q.op.Session) (ha : ∀ e, a = .did e → SessionFree e) :
    Contended names (env.system.push h i a) := by
  have hrest : ∀ {c}, AtRest (env.system.push h i a) c → AtRest h c :=
    fun hc => hc.of_push hJ hi fun _ => hq
  by_cases hact : ∃ e, a = .did e
  · obtain ⟨e, rfl⟩ := hact
    have hsame := sameSessions_exec env (ha e rfl) h.1
    refine hI.push (fun u c hu => hI.entry u c ?_) (fun u heq => ?_) fun c hc => ?_
    · rw [← hsame.transport]
      exact hu
    · cases heq
      exact (ha _ rfl).elim
    · exact (hsame.stands names c).agrees (hI.atRest c (hrest hc))
  · exact hI.push_of_ne (fun e he => hact ⟨e, he⟩) fun c hc => hI.atRest c (hrest hc)

/-- An action of a login or logout, under its client's name. -/
theorem Contended.acted {op : Op} {e : Eff} (hI : Contended names h) (hJ : Orderly names h)
    (hi : IsCall h i ⟨c, op⟩) (hop : op.Session) (he : Footprint c op e)
    (hbegins : ∀ u d, e = .tcp (.connectClient u d) → u = names c)
    (hends : ∀ u, e = .tcp (.disconnectClient u) →
      h.1.server.transport.handlers.lookup u = some c) :
    Contended names (env.system.push h i (.did e)) := by
  refine hI.push (fun u d hu => ?_) (fun u heq => ?_) fun d hd => ?_
  · by_cases hfree : SessionFree e
    · apply hI.entry u d
      rw [← (sameSessions_exec env hfree h.1).transport]
      exact hu
    · cases e with
      | tcp q =>
          cases q with
          | findHandler u => exact absurd trivial hfree
          | connectClient u' d' =>
              obtain rfl : d' = c := by
                cases op with
                | login _ => exact he
                | _ => exact he.elim
              rcases lookup_emplace_cases hu with hold | ⟨rfl, rfl⟩
              · exact hI.entry u d hold
              · exact hbegins _ _ rfl
          | disconnectClient u' =>
              have hne : u ≠ u' := by
                rintro rfl
                cases (AList.lookup_erase u h.1.server.transport.handlers).symm.trans hu
              exact hI.entry u d ((AList.lookup_erase_ne hne).symm.trans hu)
      | assign d' u' => exact hI.entry u d hu
      | _ => exact absurd trivial hfree
  · cases heq
    exact ⟨c, op, hi, hop, hends u rfl⟩
  · have hne : c ≠ d := by
      rintro rfl
      exact not_rests_did (hd i op (hi.push i _) hop)
    have hstands : Stands names d h.1 (env.system.push h i (.did e)).1 :=
      stands_exec_ne hne he fun u heq => ⟨c, hne, hends u heq⟩
    exact hstands.agrees (hI.atRest d (hd.of_push hJ hi fun heq => absurd heq hne))

/-! ### What happens elsewhere -/

/-- What calls may do. -/
abbrev Permitted (q : Call) (e : Eff) : Prop := Footprint q.client q.op e

/-- One act of another thread leaves a client that logs in or out as it stands. -/
theorem stands_step {op : Op} (hJ : Orderly names (env.system.push h j a))
    (hI : Contended names (env.system.push h j a)) (hi : IsCall h i ⟨c, op⟩) (hawake : ¬ Rests h i)
    (hj : j ≠ i) (hq : q.client ≠ c) (ha : Allowed Permitted q a) :
    Stands names c h.1 (env.system.push h j a).1 := by
  by_cases hact : ∃ e, a = .did e
  · obtain ⟨e, rfl⟩ := hact
    refine stands_exec_ne hq ha fun u hu => ?_
    subst hu
    obtain ⟨d, op', hcall, -, hlisted⟩ := hI.ended _ List.mem_cons_self u rfl
    refine ⟨d, ?_, hlisted⟩
    -- otherwise two calls of the client would be under way
    rintro rfl
    apply hj
    apply hJ.scheduled.one j i ⟨d, op'⟩ ⟨d, op⟩ hcall (hi.push j _) rfl not_rests_did
    rw [rests_push_iff hj]
    exact hawake
  · exact stands_push_of_ne (fun e he => hact ⟨e, he⟩) h c

/-- A login or logout under way, and where its client stands. -/
structure Underway (names : ClientId → Str) (i : Nat) (c : ClientId) (op : Op) (s : Standing)
    (h : History) : Prop where
  call : IsCall h i ⟨c, op⟩
  session : op.Session
  awake : ¬ Rests h i
  stands : standing names h.1 c = s

theorem Stands.standing_eq (hs : Stands names c w w') :
    standing names w' c = standing names w c := by
  unfold standing
  rw [hs.loggedIn, hs.transport, hs.listed]

theorem standing_else {op : Op} {s : Standing} (hk : Underway names i c op s h)
    (he : Elsewhere env.system Call.client Permitted (Orderly names) (Contended names) c i h h')
    (hJ : Orderly names h') (hI : Contended names h') : Underway names i c op s h' := by
  induction he with
  | refl => exact hk
  | tail _ hstep ih =>
      obtain ⟨hJ1, hI1, j, q, a, hj, hq, ha, rfl⟩ := hstep
      have hk1 := ih hJ1 hI1
      refine ⟨hk1.call.push j a, hk1.session, ?_, ?_⟩
      · rw [rests_push_iff hj]
        exact hk1.awake
      · exact (stands_step hJ hI hk1.call hk1.awake hj hq ha).standing_eq.trans hk1.stands

/-! ### Logins and logouts -/

/-- The weakest precondition of a call of `c` on its thread. -/
abbrev cpre (env : Env) (names : ClientId → Str) (c : ClientId) (i : Nat) {α : Type} (p : Code α)
    (post : Except Exn α → History → Prop) (h : History) : Prop :=
  pwp env.system Call.client Permitted (Orderly names) (Contended names) c i p post h

variable {op : Op} {s : Standing}

theorem Underway.did (hk : Underway names i c op s h) {e : Eff} {s' : Standing}
    (hs : standing names (e.exec env h.1).2 c = s') :
    Underway names i c op s' (env.system.push h i (.did e)) :=
  ⟨hk.call.push i _, hk.session, not_rests_did, hs⟩

/-- One action of a login or logout. -/
theorem cpre_step {α : Type} {e : Eff} {f : e.Res → Code α} {post : Except Exn α → History → Prop}
    (hk : Underway names i c op s h) (he : Footprint c op e)
    (hbegins : ∀ u d, e = .tcp (.connectClient u d) → u = names c)
    (hends : ∀ u, e = .tcp (.disconnectClient u) → s.listed ∧ u = names c)
    (k : ∀ h', Orderly names h' → Underway names i c op s h' →
      cpre env names c i (f (e.exec env h'.1).1) post (env.system.push h' i (.did e))) :
    cpre env names c i ((Prog.act e : Code e.Res) >>= f) post h := by
  refine pwp_step fun h' h'' hJ hI helse hh'' => ?_
  subst hh''
  have hk' := standing_else hk helse hJ hI
  refine ⟨hI.acted hJ hk'.call hk'.session he hbegins fun u hu => ?_, k h' hJ hk'⟩
  obtain ⟨hlisted, rfl⟩ := hends u hu
  rw [← hk'.stands] at hlisted
  exact hlisted

/-- One that leaves the client as it stands. -/
theorem cpre_free {α : Type} {e : Eff} {f : e.Res → Code α} {post : Except Exn α → History → Prop}
    (hk : Underway names i c op s h) (he : Footprint c op e) (hfree : SessionFree e)
    (k : ∀ h' h'', Orderly names h' → Underway names i c op s h' → Underway names i c op s h'' →
      cpre env names c i (f (e.exec env h'.1).1) post h'') :
    cpre env names c i ((Prog.act e : Code e.Res) >>= f) post h := by
  refine cpre_step hk he ?_ ?_ fun h' hJ hk' => ?_
  · rintro u d rfl
    exact hfree.elim
  · rintro u rfl
    exact hfree.elim
  · apply k h' _ hJ hk'
    have hstands := (sameSessions_exec env hfree h'.1).stands names c
    exact hk'.did (hstands.standing_eq.trans hk'.stands)

/-- A program of such actions. -/
theorem cpre_of_free {α : Type} {p : Code α} (hp : p.AllActs (Footprint c op) fun _ => False)
    (hfree : p.AllActs SessionFree fun _ => False) (hk : Underway names i c op s h) :
    cpre env names c i p (fun _ h' => Underway names i c op s h') h := by
  induction p generalizing h with
  | ret a => exact hk
  | throw x => exact hk
  | perform e k ih =>
      apply cpre_free (f := k) hk hp.1 hfree.1
      exact fun h' h'' _ _ hk'' => ih _ (hp.2 _) (hfree.2 _) hk''
  | yield n k => exact hp.1.elim

/-- The client agrees with the table again. -/
def Agreed (names : ClientId → Str) (i : Nat) (c : ClientId) (op : Op) (h : History) : Prop :=
  ∃ s : Standing, s.Agrees (names c) ∧ Underway names i c op s h

/-- The flag `loggedIn_` is set, and agrees with what is there. -/
theorem cpre_loggedIn {α : Type} {b : Bool} {f : Unit → Code α}
    {post : Except Exn α → History → Prop} (hk : Underway names i c op s h)
    (he : Footprint c op (.assign c (.loggedIn b)))
    (k : ∀ h', Underway names i c op { s with loggedIn := b } h' → cpre env names c i (f ()) post h') :
    cpre env names c i ((Code.assign c (.loggedIn b)) >>= f) post h := by
  apply cpre_step hk he
  · exact fun u d e => by cases e
  · exact fun u e => by cases e
  · intro h' _ hk'
    apply k
    apply hk'.did
    rw [← hk'.stands]
    simp only [standing, Eff.exec, World.assign_self, Update.apply]
    rfl

theorem cpre_transport {α : Type} {t : TcpClient} {f : Unit → Code α}
    {post : Except Exn α → History → Prop} (hk : Underway names i c op s h)
    (he : Footprint c op (.assign c (.transport t)))
    (k : ∀ h', Underway names i c op { s with transport := t } h' → cpre env names c i (f ()) post h') :
    cpre env names c i ((Code.assign c (.transport t)) >>= f) post h := by
  apply cpre_step hk he
  · exact fun u d e => by cases e
  · exact fun u e => by cases e
  · intro h' _ hk'
    apply k
    apply hk'.did
    rw [← hk'.stands]
    simp only [standing, Eff.exec, World.assign_self, Update.apply]
    rfl

/-- `connect` puts a client into the table, where its name is free. -/
theorem cpre_connect {p : Str} (hk : Underway names i c (.login p) s h)
    (hout : s.transport.connected = false) :
    cpre env names c i (connect c (names c)) (fun r h' =>
      match r with
      | .ok true => Underway names i c (.login p)
          { s with transport := ⟨names c, true⟩, listed := True } h'
      | .ok false => Underway names i c (.login p) s h'
      | .error _ => False) h := by
  refine cpre_free hk trivial trivial fun h1 h2 _ hk1 hk2 => ?_
  have hconnected : (h1.1.clients c).transport.connected = false := by
    rw [← hout, ← hk1.stands]
    rfl
  show cpre env names c i (if (h1.1.clients c).transport.connected then _ else _) _ h2
  rw [hconnected]
  refine cpre_step hk2 rfl (fun u d e => ?_) (fun u e => by cases e) fun h3 hJ3 hk3 => ?_
  · cases e
    rfl
  by_cases htaken : names c ∈ h3.1.server.transport.handlers
  · have hexec := exec_connectClient_of_mem env c htaken
    have hk4 : Underway names i c (.login p) s
        (env.system.push h3 i (.did (.tcp (.connectClient (names c) c)))) := by
      apply hk3.did
      rw [hexec]
      exact hk3.stands
    show cpre env names c i
      (if (Eff.exec env (.tcp (.connectClient (names c) c)) h3.1).1 then _ else _) _ _
    rw [hexec]
    exact hk4
  · have hexec := exec_connectClient_of_notMem env c htaken
    have hk4 : Underway names i c (.login p) { s with listed := True }
        (env.system.push h3 i (.did (.tcp (.connectClient (names c) c)))) := by
      apply hk3.did
      rw [hexec, ← hk3.stands]
      simp [standing]
    show cpre env names c i
      (if (Eff.exec env (.tcp (.connectClient (names c) c)) h3.1).1 then _ else _) _ _
    rw [hexec]
    exact cpre_transport hk4 rfl fun h5 hk5 => hk5

theorem cpre_login {p : Str} (hk : Underway names i c (.login p) s h) (hs : s.Agrees (names c)) :
    cpre env names c i (login env c p) (fun _ h' => Agreed names i c (.login p) h') h := by
  refine cpre_free hk trivial trivial fun h1 h2 hJ1 hk1 hk2 => ?_
  have hlogged : (h1.1.clients c).loggedIn = s.loggedIn := by
    rw [← hk1.stands]
    rfl
  show cpre env names c i (if (h1.1.clients c).loggedIn then _ else _) _ h2
  rw [hlogged]
  cases hin : s.loggedIn with
  | true => exact ⟨s, hs, hk2⟩
  | false =>
      refine cpre_free hk2 trivial trivial fun h3 h4 _ _ hk4 => ?_
      refine pwp_ofExcept_bind (fun passwordHash _ => ?_) fun _ _ => ⟨s, hs, hk4⟩
      refine cpre_free hk4 trivial trivial fun h5 h6 _ _ hk6 => ?_
      split
      · apply pwp_bind
        have hacts : (loadKeyPairFromDisk env c).AllActs (Footprint c (.login p)) fun _ => False :=
          loadKeyPairFromDisk_allActs env c
        refine pwp_mono (fun r h7 hk7 => ?_)
          (cpre_of_free hacts (loadKeyPairFromDisk_sessionFree env c) hk6)
        rcases r with x | loaded
        · exact ⟨s, hs, hk7⟩
        · cases loaded with
          | false => exact ⟨s, hs, hk7⟩
          | true =>
              have hname : (h1.1.clients c).username = names c := hJ1.named c
              have hout : s.transport.connected = false := hs.connected.symm.trans hin
              show cpre env names c i (connect c (h1.1.clients c).username >>= _) _ h7
              rw [hname]
              refine pwp_bind (pwp_mono (fun r h8 hk8 => ?_) (cpre_connect hk7 hout))
              rcases r with x | _ | _
              · exact hk8.elim
              · -- the name is taken, and the client stays as it was
                refine cpre_loggedIn hk8 rfl fun h9 hk9 => ⟨_, ?_, hk9⟩
                apply Standing.agrees_out _ hout
                rw [← hs.listed, hin]
                decide
              · refine cpre_loggedIn hk8 rfl fun h9 hk9 => ?_
                refine cpre_free hk9 rfl trivial fun h10 h11 _ _ hk11 => ⟨_, ?_, hk11⟩
                exact ⟨rfl, fun _ => rfl, by simp⟩
      · exact ⟨s, hs, hk6⟩

theorem cpre_logout (hk : Underway names i c .logout s h) (hs : s.Agrees (names c)) :
    cpre env names c i (logout c) (fun _ h' => Agreed names i c .logout h') h := by
  refine pwp_bind (cpre_free hk trivial trivial fun h1 h2 _ hk1 hk2 => ?_)
  have htransport : (h1.1.clients c).transport = s.transport := by
    rw [← hk1.stands]
    rfl
  show cpre env names c i (if (h1.1.clients c).transport.connected then
    (Code.tcp (.disconnectClient (h1.1.clients c).transport.username) >>= fun _ =>
      Code.assign c (.transport ⟨[], false⟩)) else _) _ h2
  rw [htransport]
  cases hconnected : s.transport.connected with
  | false =>
      refine cpre_loggedIn (f := pure) hk2 rfl fun h3 hk3 => ⟨_, ?_, hk3⟩
      have hin : s.loggedIn = false := hs.connected.trans hconnected
      apply Standing.agrees_out _ hconnected
      rw [← hs.listed, hin]
      decide
  | true =>
      have hin : s.loggedIn = true := hs.connected.trans hconnected
      have hname : s.transport.username = names c := hs.username hin
      refine cpre_step hk2 trivial (fun u d e => by cases e) (fun u e => ?_) fun h3 hJ3 hk3 => ?_
      · cases e
        exact ⟨hs.listed.mp hin, hname⟩
      · have hk4 : Underway names i c .logout { s with listed := False }
            (env.system.push h3 i (.did (.tcp (.disconnectClient s.transport.username)))) := by
          apply hk3.did
          rw [hname, ← hk3.stands]
          simp [standing, Eff.exec, TcpCall.exec, TcpServer.disconnectClient]
        apply cpre_transport (f := pure) hk4 (show Footprint c .logout _ from rfl)
        intro h5 hk5
        apply cpre_loggedIn (f := pure) hk5 rfl
        exact fun h6 hk6 => ⟨_, Standing.agrees_out _ rfl not_false, hk6⟩

/-! ### Every interleaving -/

/-- The postcondition of a login or logout. -/
theorem Agreed.returns (hk : Agreed names i c op h) (r : Except Exn Value) :
    Returns env.system Call.client Permitted (Orderly names) (Contended names) c i r h := by
  obtain ⟨s, hs, hk⟩ := hk
  intro h' hJ hI helse
  have hk' := standing_else hk helse hJ hI
  refine hI.push_of_ne (fun _ e => by cases e) fun d hd => ?_
  rcases eq_or_ne d c with rfl | hne
  · rw [hk'.stands]
    exact hs
  · exact hI.atRest d (hd.of_push hJ hk'.call fun e => absurd e.symm hne)

theorem cpre_body (q : Call) (hi : IsCall h i q) (hq : ¬ q.op.Session) :
    cpre env names q.client i (q.body env) (fun r h' =>
      Returns env.system Call.client Permitted (Orderly names) (Contended names) q.client i r h')
      h := by
  have hmeanwhile : ∀ h h', Meanwhile env.system Permitted (Orderly names) (Contended names) i
      h h' → IsCall h i q → IsCall h' i q := by
    rintro h h' hm ⟨x, hx, hinst, hact⟩
    exact ⟨x, (Grows.of_others hm.others).trace x hx, hinst, hact⟩
  have hfree : ∀ e, Permitted q e → SessionFree e := by
    intro e he
    obtain ⟨c, op⟩ := q
    apply sessionFree_of_footprint ?_ ?_ he
    · rintro p rfl
      exact hq trivial
    · rintro rfl
      exact hq trivial
  refine pwp_mono (fun r h' hi' h'' hJ hI helse => ?_) (pwp_of_allActs
    (K := fun h => IsCall h i q) hmeanwhile (fun h' a hJ hI hi' ha _ _ => ?_)
    ((body_allActs env q).mono (fun _ => id) fun _ _ => trivial) hi)
  · exact hI.free hJ (hmeanwhile _ _ helse.meanwhile hi') hq fun _ e => by cases e
  · exact ⟨hI.free hJ hi' hq fun e he => hfree e (ha e he), hi'.push i a⟩

theorem orderly_interleaving (env : Env) (w : World) (ms : List (PoolMove Exn Call ClientId)) :
    Orderly w.usernames (env.interleave w ms) :=
  ⟨(ready_interleaving env w ms).named, scheduled w ms⟩

theorem SessionInv.agrees (hw : SessionInv w) (c : ClientId) :
    (standing w.usernames w c).Agrees (w.usernames c) := by
  refine ⟨hw.connected c, hw.username c, ?_⟩
  constructor
  · exact fun hlogged => (hw.handler _ c).mpr ⟨hlogged, rfl⟩
  · exact fun hlisted => ((hw.handler _ c).mp hlisted).1

theorem contended_interleaving (env : Env) (hw : SessionInv w)
    (ms : List (PoolMove Exn Call ClientId)) : Contended w.usernames (env.interleave w ms) := by
  refine pool_invariant env.system Call.client (P := Permitted) (J := Orderly w.usernames)
    (I := Contended w.usernames) ?_ (orderly_interleaving env w) ?_ ?_ ms
  · exact fun q => (body_allActs env q).mono (fun _ => id) fun _ _ => trivial
  · refine ⟨fun c _ => hw.agrees c, fun u c hu => ((hw.handler u c).mp hu).2.symm, fun x hx => ?_⟩
    cases hx
  · intro q h i hJ hI hlt hidle
    have hcalled : Contended w.usernames (env.system.push h i (.called q)) := hI.called hlt q
    have hi : IsCall (env.system.push h i (.called q)) i q := ⟨_, List.mem_cons_self, rfl, rfl⟩
    refine ⟨hcalled, ?_⟩
    by_cases hsession : q.op.Session
    · -- the client was at rest
      have hagrees := hI.atRest q.client fun j op hj _ => hidle j _ hj rfl
      have hawake : ¬ Rests (env.system.push h i (.called q)) i := by
        rintro ⟨a, b, hhead, ha⟩
        rw [System.push, own_cons_self] at hhead
        cases hhead
        rcases ha with ⟨r, e⟩ | ⟨n, e⟩
        · cases e
        · cases e
      have hheld : Underway w.usernames i q.client q.op (standing w.usernames h.1 q.client)
          (env.system.push h i (.called q)) := ⟨hi, hsession, hawake, rfl⟩
      obtain ⟨c, op⟩ := q
      cases op with
      | login p =>
          refine pwp_bind (pwp_mono (fun r h' hr => ?_) (cpre_login hheld hagrees))
          rcases r with x | b
          · exact hr.returns _
          · exact hr.returns _
      | logout =>
          refine pwp_bind (pwp_mono (fun r h' hr => ?_) (cpre_logout hheld hagrees))
          rcases r with x | b
          · exact hr.returns _
          · exact hr.returns _
      | _ => exact hsession.elim
    · exact cpre_body q hi hsession

/-- **Sessions under contention.**  However logins, logouts and all other calls of the clients
interleave, a client that is neither logging in nor out agrees with the table of handlers: it
is logged in exactly where it is connected under its own name and the table lists it under
this name.  The table lists clients under their own names only, and of all clients of one
name that are neither logging in nor out at most one is logged in. -/
theorem sessions_under_contention (env : Env) (hw : SessionInv w)
    (ms : List (PoolMove Exn Call ClientId)) :
    (∀ c, AtRest (env.interleave w ms) c →
      (standing w.usernames (env.interleave w ms).1 c).Agrees (w.usernames c)) ∧
    (∀ u c, (env.interleave w ms).1.server.transport.handlers.lookup u = some c →
      u = w.usernames c) ∧
    ∀ c d, AtRest (env.interleave w ms) c → AtRest (env.interleave w ms) d →
      ((env.interleave w ms).1.clients c).loggedIn = true →
      ((env.interleave w ms).1.clients d).loggedIn = true →
      w.usernames c = w.usernames d → c = d := by
  have hI := contended_interleaving env hw ms
  refine ⟨hI.atRest, hI.entry, fun c d hc hd hcin hdin heq => ?_⟩
  have hc' := (hI.atRest c hc).listed.mp hcin
  have hd' := (hI.atRest d hd).listed.mp hdin
  -- both are listed under the one name
  have hlookup : some d = some c := by
    rw [← hc', ← hd', heq]
  exact (Option.some.inj hlookup).symm

/-- A client whose thread runs nothing is at rest. -/
theorem atRest_of_running (env : Env) (w : World) (ms : List (PoolMove Exn Call ClientId))
    (hc : (env.system.runPool Call.client w ms).running c = none) :
    AtRest (env.interleave w ms) c :=
  fun i _ hi _ => pool_idle w ms hc i _ hi rfl

/-- Two clients of one user, and a third who is somebody else. -/
def twins : ClientId → Str
  | 0 => str "alice"
  | 1 => str "alice"
  | _ => str "bob"

/-- The user has registered. -/
def enrolled : World :=
  (Env.reference.run twins Env.noFiles [.call ⟨0, .registerOnServer (str "pw")⟩]).hist.1

/-- Both of her clients log in at the same time, taking turns. -/
def race : List (PoolMove Exn Call ClientId) :=
  [.call ⟨0, .login (str "pw")⟩, .call ⟨1, .login (str "pw")⟩] ++
    (List.replicate 20 [.go 1, .go 0]).flatten

/-- One of them is logged in, and the other one is not. -/
theorem sessions_under_contention_race :
    (∀ c d, AtRest (Env.reference.interleave enrolled race) c →
      AtRest (Env.reference.interleave enrolled race) d →
      ((Env.reference.interleave enrolled race).1.clients c).loggedIn = true →
      ((Env.reference.interleave enrolled race).1.clients d).loggedIn = true →
      enrolled.usernames c = enrolled.usernames d → c = d) ∧
    AtRest (Env.reference.interleave enrolled race) 0 ∧
    AtRest (Env.reference.interleave enrolled race) 1 ∧
    ((Env.reference.interleave enrolled race).1.clients 0).loggedIn = false ∧
    ((Env.reference.interleave enrolled race).1.clients 1).loggedIn = true := by
  have hidle : ((Env.reference.system.runPool Call.client enrolled race).running 0).isNone = true ∧
      ((Env.reference.system.runPool Call.client enrolled race).running 1).isNone = true := by
    decide +kernel
  have hin : ((Env.reference.interleave enrolled race).1.clients 0).loggedIn = false ∧
      ((Env.reference.interleave enrolled race).1.clients 1).loggedIn = true := by decide +kernel
  have hw : SessionInv enrolled := sessionInv_run Env.reference twins Env.noFiles _
  refine ⟨(sessions_under_contention Env.reference hw race).2.2, ?_, ?_, hin⟩
  · exact atRest_of_running _ _ _ (Option.isNone_iff_eq_none.mp hidle.1)
  · exact atRest_of_running _ _ _ (Option.isNone_iff_eq_none.mp hidle.2)

end Evlampy
