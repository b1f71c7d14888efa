/-
Evlampy/Sessions.lean

Sessions.  Being logged in is recorded four times: in the client's `loggedIn_`,
in `connected_` and `username_` of its transport, and in the server's table of
handlers.  `SessionInv` says that the four agree: the table has an entry for a
name exactly where the client it names is logged in under that name.

Only `login` and `logout` touch any of the four; each breaks the agreement on
its way and restores it before it returns, and neither yields.  So the invariant
holds in every state an observer can see, and in every reachable one
(`sessionInv_run`).
-/
import Evlampy.Actions

namespace Evlampy

open Cxx Callback Prog System UnorderedMap

/-! ### The invariant -/

/-- The table of handlers agrees with the clients. -/
structure SessionInv (w : World) : Prop where
  connected : ∀ c, (w.clients c).loggedIn = (w.clients c).transport.connected
  username : ∀ c, (w.clients c).loggedIn = true →
    (w.clients c).transport.username = (w.clients c).username
  handler : ∀ u c, w.server.transport.handlers.lookup u = some c ↔
    (w.clients c).loggedIn = true ∧ (w.clients c).username = u

/-- The worlds agree on everything a session is recorded in. -/
structure SameSessions (w w' : World) : Prop where
  transport : w'.server.transport = w.server.transport
  loggedIn : ∀ c, (w'.clients c).loggedIn = (w.clients c).loggedIn
  connection : ∀ c, (w'.clients c).transport = (w.clients c).transport
  username : ∀ c, (w'.clients c).username = (w.clients c).username

variable {w w' : World} {c : ClientId}

theorem SessionInv.congr (h : SessionInv w) (same : SameSessions w w') : SessionInv w' := by
  refine ⟨fun d => ?_, fun d hd => ?_, fun u d => ?_⟩
  · rw [same.loggedIn, same.connection]
    exact h.connected d
  · rw [same.connection, same.username]
    exact h.username d (same.loggedIn d ▸ hd)
  · rw [same.transport, same.loggedIn, same.username]
    exact h.handler u d

theorem sessionInv_initial (names : ClientId → Str) (disk : Str → Option Str) :
    SessionInv (World.initial names disk) := by
  refine ⟨fun _ => rfl, fun _ h => absurd h Bool.false_ne_true, fun u d => ?_⟩
  constructor
  · intro h
    cases h
  · rintro ⟨h, -⟩
    cases h

/-- At most one client is logged in under a name. -/
theorem SessionInv.unique (h : SessionInv w) {d : ClientId} (hc : (w.clients c).loggedIn = true)
    (hd : (w.clients d).loggedIn = true) (he : (w.clients c).username = (w.clients d).username) :
    c = d := by
  have hc' := (h.handler _ c).mpr ⟨hc, rfl⟩
  have hd' := (h.handler _ d).mpr ⟨hd, rfl⟩
  rw [he, hd'] at hc'
  exact (Option.some.inj hc').symm

/-- A new session under a free name. -/
theorem SessionInv.opened (h : SessionInv w)
    (hfree : (w.clients c).username ∉ w.server.transport.handlers)
    (hothers : ∀ d, d ≠ c → w'.clients d = w.clients d)
    (hlogged : (w'.clients c).loggedIn = true)
    (hconnection : (w'.clients c).transport = ⟨(w.clients c).username, true⟩)
    (hname : (w'.clients c).username = (w.clients c).username)
    (hhandlers : w'.server.transport.handlers
      = w.server.transport.handlers.insert (w.clients c).username c) : SessionInv w' := by
  have hnone : w.server.transport.handlers.lookup (w.clients c).username = none :=
    AList.lookup_eq_none.mpr hfree
  refine ⟨fun d => ?_, fun d hd => ?_, fun u d => ?_⟩
  · rcases eq_or_ne d c with rfl | hne
    · rw [hlogged, hconnection]
    · rw [hothers d hne]
      exact h.connected d
  · rcases eq_or_ne d c with rfl | hne
    · rw [hconnection, hname]
    · rw [hothers d hne] at hd ⊢
      exact h.username d hd
  · rw [hhandlers]
    rcases eq_or_ne u (w.clients c).username with rfl | hu
    · rw [AList.lookup_insert]
      rcases eq_or_ne d c with rfl | hne
      · simp [hlogged, hname]
      · rw [hothers d hne, ← h.handler, hnone]
        simp [hne.symm]
    · rw [AList.lookup_insert_ne hu, h.handler]
      rcases eq_or_ne d c with rfl | hne
      · rw [hname]
        exact ⟨fun e => absurd e.2.symm hu, fun e => absurd e.2.symm hu⟩
      · rw [hothers d hne]

/-- A session that ends. -/
theorem SessionInv.closed (h : SessionInv w) (hopen : (w.clients c).loggedIn = true)
    (hothers : ∀ d, d ≠ c → w'.clients d = w.clients d)
    (hlogged : (w'.clients c).loggedIn = false)
    (hconnection : (w'.clients c).transport.connected = false)
    (hhandlers : w'.server.transport.handlers
      = w.server.transport.handlers.erase (w.clients c).username) : SessionInv w' := by
  refine ⟨fun d => ?_, fun d hd => ?_, fun u d => ?_⟩
  · rcases eq_or_ne d c with rfl | hne
    · rw [hlogged, hconnection]
    · rw [hothers d hne]
      exact h.connected d
  · rcases eq_or_ne d c with rfl | hne
    · rw [hlogged] at hd
      cases hd
    · rw [hothers d hne] at hd ⊢
      exact h.username d hd
  · rw [hhandlers]
    rcases eq_or_ne d c with rfl | hne
    · -- the client has left, and no other entry leads to it
      rcases eq_or_ne u (w.clients d).username with rfl | hu
      · simp [hlogged, AList.lookup_erase]
      · rw [AList.lookup_erase_ne hu, h.handler]
        simp [hlogged, hu.symm]
    · rcases eq_or_ne u (w.clients c).username with rfl | hu
      · rw [AList.lookup_erase, hothers d hne]
        simp only [reduceCtorEq, false_iff]
        rintro ⟨hd, he⟩
        exact hne (h.unique hd hopen he)
      · rw [AList.lookup_erase_ne hu, hothers d hne, h.handler]

/-! ### Actions that leave sessions alone -/

/-- The actions that touch none of the four records. -/
def SessionFree : Eff → Prop
  | .tcp (.connectClient ..) => False
  | .tcp (.disconnectClient _) => False
  | .assign _ (.loggedIn _) => False
  | .assign _ (.transport _) => False
  | _ => True

/-- An assignment that leaves a client's own three records as they are. -/
theorem sameSessions_of_apply {u : Update}
    (hlogged : (u.apply (w.clients c)).loggedIn = (w.clients c).loggedIn)
    (hconnection : (u.apply (w.clients c)).transport = (w.clients c).transport)
    (hname : (u.apply (w.clients c)).username = (w.clients c).username) :
    SameSessions w (w.assign c u) := by
  refine ⟨rfl, fun d => ?_, fun d => ?_, fun d => ?_⟩
  all_goals rcases eq_or_ne d c with rfl | hne
  · rw [World.assign_self, hlogged]
  · rw [World.assign_ne w hne]
  · rw [World.assign_self, hconnection]
  · rw [World.assign_ne w hne]
  · rw [World.assign_self, hname]
  · rw [World.assign_ne w hne]

theorem sameSessions_assign (w : World) (c : ClientId) (u : Update)
    (hu : SessionFree (.assign c u)) : SameSessions w (w.assign c u) := by
  cases u with
  | loggedIn b => exact hu.elim
  | transport t => exact hu.elim
  | _ => exact sameSessions_of_apply rfl rfl rfl

theorem sameSessions_exec (env : Env) {e : Eff} (he : SessionFree e) (w : World) :
    SameSessions w (e.exec env w).2 := by
  cases e with
  | server q => exact ⟨(q.exec_change w.server).transport, fun _ => rfl, fun _ => rfl, fun _ => rfl⟩
  | tcp q =>
      cases q with
      | findHandler u => exact ⟨rfl, fun _ => rfl, fun _ => rfl, fun _ => rfl⟩
      | connectClient u d => exact he.elim
      | disconnectClient u => exact he.elim
  | file q => exact ⟨rfl, fun _ => rfl, fun _ => rfl, fun _ => rfl⟩
  | get d => exact ⟨rfl, fun _ => rfl, fun _ => rfl, fun _ => rfl⟩
  | assign d u => exact sameSessions_assign w d u he
  | draw n => exact ⟨rfl, fun _ => rfl, fun _ => rfl, fun _ => rfl⟩
  | invoke d f p => exact ⟨rfl, fun _ => rfl, fun _ => rfl, fun _ => rfl⟩

/-- Only `login` and `logout` touch sessions. -/
theorem sessionFree_of_footprint {op : Op} {e : Eff} (hlogin : ∀ p, op ≠ .login p)
    (hlogout : op ≠ .logout) (he : Footprint c op e) : SessionFree e := by
  cases op with
  | login p => exact absurd rfl (hlogin p)
  | logout => exact absurd rfl hlogout
  | registerOnServer p =>
      rcases e with q | q | q | d | ⟨d, u⟩ | n | _
      case tcp => exact he.elim
      case assign => cases u <;> trivial
      all_goals trivial
  | sendMessage t p =>
      rcases e with q | q | q | d | ⟨d, u⟩ | n | _
      case tcp => cases q <;> trivial
      case assign => exact he.elim
      all_goals trivial
  | sendGroupMessage g p =>
      rcases e with q | q | q | d | ⟨d, u⟩ | n | _
      case tcp => cases q <;> trivial
      case assign => exact he.elim
      all_goals trivial
  | _ =>
      rcases e with q | q | q | d | ⟨d, u⟩ | n | _
      case tcp => exact he.elim
      case assign => exact he.elim
      all_goals trivial

/-! ### Keeping the invariant -/

variable {env : Env} {h : History} {i : Nat} {J : History → Prop}

/-- The session invariant, of the state of a run. -/
abbrev SessionsAgree (h : History) : Prop := SessionInv h.1

/-- A client on its way to a session: nothing is open yet. -/
structure LoggingIn (c : ClientId) (name : Str) (w : World) : Prop where
  inv : SessionInv w
  loggedIn : (w.clients c).loggedIn = false
  username : (w.clients c).username = name

theorem LoggingIn.congr {name : Str} (h : LoggingIn c name w) (same : SameSessions w w') :
    LoggingIn c name w' :=
  ⟨h.inv.congr same, (same.loggedIn c).trans h.loggedIn, (same.username c).trans h.username⟩

/-- Loading the key files touches no session. -/
theorem loadKeyPairFromDisk_sessionFree (env : Env) (c : ClientId) :
    (ChatClient.loadKeyPairFromDisk env c).AllActs SessionFree (fun _ => False) := by
  unfold ChatClient.loadKeyPairFromDisk
  cases env.home with
  | none => trivial
  | some homeDir =>
      refine .act_bind trivial fun self => .act_bind trivial fun priv => ?_
      rcases priv with - | privateKeyPem
      · trivial
      · refine .act_bind trivial fun _ => .act_bind trivial fun pub => ?_
        rcases pub with - | publicKeyPem
        · trivial
        · exact .act_bind trivial fun _ => trivial

theorem exec_connectClient_of_mem (env : Env) (c : ClientId) {name : Str}
    (hmem : name ∈ w.server.transport.handlers) :
    (Eff.tcp (.connectClient name c)).exec env w = (false, w) := by
  show ((emplace name c w.server.transport.handlers).1, ({ w with server := { w.server with
    transport := ⟨(emplace name c w.server.transport.handlers).2⟩ } } : World)) = (false, w)
  rw [emplace_of_mem c hmem]

theorem exec_connectClient_of_notMem (env : Env) (c : ClientId) {name : Str}
    (hfree : name ∉ w.server.transport.handlers) :
    (Eff.tcp (.connectClient name c)).exec env w = (true, { w with server := { w.server with
      transport := ⟨w.server.transport.handlers.insert name c⟩ } }) := by
  show ((emplace name c w.server.transport.handlers).1, ({ w with server := { w.server with
    transport := ⟨(emplace name c w.server.transport.handlers).2⟩ } } : World)) = _
  rw [emplace_of_notMem c hfree]

/-- `connect` and what `login` does with its result open a session or none. -/
theorem wp_connect {name : Str} (hl : LoggingIn c name h.1) :
    env.system.wp J SessionsAgree i
      (do
        let connected ← ChatClient.connect c name
        Code.assign c (.loggedIn connected)
        if connected then do
          Code.assign c (.registered true)
          pure true
        else pure false)
      (fun _ h => SessionInv h.1) h := by
  -- a client that is logged out is not connected, so `connect` goes on
  have hconnected : (h.1.clients c).transport.connected = false :=
    (hl.inv.connected c).symm.trans hl.loggedIn
  have hclosed : SameSessions h.1 (h.1.assign c (.loggedIn false)) :=
    sameSessions_of_apply hl.loggedIn.symm rfl rfl
  refine wp_bind.mpr (wp_act_bind.mpr ?_)
  show env.system.wp J SessionsAgree i
    (if (h.1.clients c).transport.connected then _ else _) _ _
  rw [hconnected]
  refine wp_act_bind.mpr ?_
  by_cases hfree : name ∈ h.1.server.transport.handlers
  · -- the name is taken: the handler that is there stays
    have hexec := exec_connectClient_of_mem env c hfree
    show env.system.wp J SessionsAgree i
      (if ((Eff.tcp (.connectClient name c)).exec env h.1).1 then _ else _) _ _
    rw [hexec]
    show SessionInv
      (((Eff.tcp (.connectClient name c)).exec env h.1).2.assign c (.loggedIn false))
    rw [hexec]
    exact hl.inv.congr hclosed
  · have hexec := exec_connectClient_of_notMem env c hfree
    show env.system.wp J SessionsAgree i
      (if ((Eff.tcp (.connectClient name c)).exec env h.1).1 then _ else _) _ _
    rw [hexec]
    show SessionInv (((((Eff.tcp (.connectClient name c)).exec env h.1).2.assign c
      (.transport ⟨name, true⟩)).assign c (.loggedIn true)).assign c (.registered true))
    rw [hexec]
    rw [← hl.username] at hfree
    refine hl.inv.opened hfree (fun d hne => ?_) ?_ ?_ ?_ ?_
    · rw [World.assign_ne _ hne, World.assign_ne _ hne, World.assign_ne _ hne]
    · simp [Update.apply]
    · simp [Update.apply, hl.username]
    · simp [Update.apply]
    · rw [hl.username]
      rfl

theorem wp_login (rawPassword : Str) (hI : SessionInv h.1) :
    env.system.wp J SessionsAgree i (ChatClient.login env c rawPassword)
      (fun _ h => SessionInv h.1) h := by
  refine wp_act_bind.mpr ?_
  show env.system.wp J SessionsAgree i (if (h.1.clients c).loggedIn then _ else _) _ _
  cases hlog : (h.1.clients c).loggedIn with
  | true => exact hI
  | false =>
      -- the draw and the server's answer change no session
      have hstart : LoggingIn c (h.1.clients c).username h.1 := ⟨hI, hlog, rfl⟩
      have hdrawn := hstart.congr (sameSessions_exec env (e := Eff.draw 1) trivial h.1)
      refine wp_act_bind.mpr (wp_ofExcept_bind ?_ fun _ _ => hdrawn.inv)
      intro passwordHash _
      refine wp_act_bind.mpr ?_
      split
      · refine wp_bind.mpr (wp_mono (fun r h' hK => ?_)
          (wp_of_allActs (K := fun h' : History => LoggingIn c (h.1.clients c).username h'.1)
            ?_ ?_ (loadKeyPairFromDisk_sessionFree env c) hdrawn))
        · rcases r with x | loaded
          · exact hK.inv
          · cases loaded with
            | false => exact hK.inv
            | true => exact wp_connect hK
        · intro e h' he hK
          exact hK.congr (sameSessions_exec env he h'.1)
        · exact fun n h' hn => hn.elim
      · exact hdrawn.inv

/-- `login` returns whether the client is logged in then. -/
theorem wp_login_answer {I : History → Prop} (rawPassword : Str) :
    env.system.wp J I i (ChatClient.login env c rawPassword)
      (fun r h' => ∀ b, r = .ok b → (h'.1.clients c).loggedIn = b) h := by
  refine wp_step fun self h1 hself hh1 => ?_
  obtain rfl : self = h.1.clients c := hself
  split
  · next hlog =>
    rintro b hb
    cases hb
    rw [hh1]
    exact hlog
  · next hlog =>
    refine wp_step fun n h2 _ hh2 => wp_ofExcept_bind (fun passwordHash _ => ?_)
      fun x _ b hb => by cases hb
    refine wp_step fun authenticated h3 _ hh3 => ?_
    -- neither hashing nor the server touches the client
    have hout : (h3.1.clients c).loggedIn = false := by
      rw [hh3, hh2, hh1]
      exact Bool.eq_false_iff.mpr hlog
    cases authenticated with
    | false =>
        -- a wrong password
        rintro b hb
        cases hb
        exact hout
    | true =>
        -- nor does loading log it in
        have hload : env.system.wp J I i (ChatClient.loadKeyPairFromDisk env c)
            (fun _ h' => (h'.1.clients c).loggedIn = false) h3 := by
          refine wp_of_allActs (K := fun h' : History => (h'.1.clients c).loggedIn = false) ?_
            (fun _ _ hn => hn.elim) (loadKeyPairFromDisk_sessionFree env c) hout
          intro e h' he hK
          exact ((sameSessions_exec env he h'.1).loggedIn c).trans hK
        refine wp_bind.mpr (wp_mono (fun r h4 hout4 => ?_) hload)
        rcases r with x | loaded
        · exact fun b hb => by cases hb
        · cases loaded with
          | false =>
              rintro b hb
              cases hb
              exact hout4
          | true =>
              refine wp_bind.mpr (wp_mono (fun r h5 _ => ?_) (wp_of_allActs (K := fun _ => True)
                (fun _ _ _ _ => trivial) (fun _ _ hn => hn.elim)
                (ChatClient.connect_allActs c _ (V := fun _ => False)) trivial))
              rcases r with x | connected
              · exact fun b hb => by cases hb
              · cases connected with
                | false =>
                    rintro b hb
                    cases hb
                    exact congrArg ChatClient.loggedIn (World.assign_self h5.1 c (.loggedIn false))
                | true =>
                    rintro b hb
                    cases hb
                    show (((h5.1.assign c (.loggedIn true)).assign c (.registered true)).clients
                      c).loggedIn = true
                    rw [World.assign_self, Update.apply, World.assign_self]
                    rfl

theorem wp_logout (hI : SessionInv h.1) :
    env.system.wp J SessionsAgree i (ChatClient.logout c) (fun _ h => SessionInv h.1) h := by
  refine wp_bind.mpr (wp_act_bind.mpr ?_)
  show env.system.wp J SessionsAgree i
    (if (h.1.clients c).transport.connected then _ else _) _ _
  have hagree := hI.connected c
  cases hcon : (h.1.clients c).transport.connected with
  | true =>
      rw [hcon] at hagree
      show SessionInv ((((Eff.tcp (.disconnectClient (h.1.clients c).transport.username)).exec env
        h.1).2.assign c (.transport ⟨[], false⟩)).assign c (.loggedIn false))
      rw [hI.username c hagree]
      refine hI.closed hagree (fun d hne => ?_) ?_ ?_ rfl
      · simp [World.assign, hne]
        rfl
      · simp [World.assign, Update.apply]
      · simp [World.assign, Update.apply]
  | false =>
      rw [hcon] at hagree
      show SessionInv (h.1.assign c (.loggedIn false))
      exact hI.congr (sameSessions_of_apply hagree.symm rfl rfl)

/-- **Sessions agree**, in every state of every run. -/
theorem sessionInv_run (env : Env) (names : ClientId → Str) (disk : Str → Option Str)
    (ms : List (Move Exn Call)) : SessionInv (env.run names disk ms).hist.1 := by
  refine (run_invariant env.system (J := fun _ => True) (I := SessionsAgree) (fun _ => trivial)
    (sessionInv_initial names disk) ?_ ms).1
  intro q h i _ hI _
  by_cases hlogin : ∃ p, q.op = .login p
  · obtain ⟨c, op⟩ := q
    obtain ⟨p, rfl⟩ := hlogin
    exact wp_map (fun _ _ hK => hK) (wp_login p hI)
  · by_cases hlogout : q.op = .logout
    · obtain ⟨c, op⟩ := q
      cases hlogout
      exact wp_map (fun _ _ hK => hK) (wp_logout hI)
    · refine wp_mono (fun r h' hK => hK) (wp_of_allActs (K := SessionsAgree) ?_ ?_
        (body_allActs env q) hI)
      · intro e h' he hK
        have hfree := sessionFree_of_footprint (fun p hp => hlogin ⟨p, hp⟩) hlogout he
        exact hK.congr (sameSessions_exec env hfree h'.1)
      · exact fun n h' _ hK => ⟨hK, fun _ h' _ hI' _ => hI'⟩

/-! ### Sends -/

/-- The transport is asked for a handler only in states where sessions agree. -/
def LookupsAgree (h : History) : Prop :=
  ∀ x ∈ h.2, ∀ toUser, x.act = .did (.tcp (.findHandler toUser)) → SessionInv x.before

theorem lookupsAgree_push_of_ne {a : Act Eff Notice Exn Call Value} (hK : LookupsAgree h)
    (ha : ∀ toUser, a ≠ .did (.tcp (.findHandler toUser))) :
    LookupsAgree (env.system.push h i a) := by
  intro x hx toUser hact
  rcases List.mem_cons.mp hx with rfl | hx
  · exact absurd hact (ha toUser)
  · exact hK x hx toUser hact

theorem lookupsAgree_push (hI : SessionInv h.1) (hK : LookupsAgree h)
    (a : Act Eff Notice Exn Call Value) : LookupsAgree (env.system.push h i a) := by
  intro x hx toUser hact
  rcases List.mem_cons.mp hx with rfl | hx
  · exact hI
  · exact hK x hx toUser hact

/-- Only the sending functions look up handlers. -/
theorem not_findHandler_of_footprint {op : Op} {e : Eff} (hop : ¬ op.Sends)
    (he : Footprint c op e) (toUser : Str) : e ≠ .tcp (.findHandler toUser) := by
  rintro rfl
  cases op with
  | sendMessage _ _ => exact hop trivial
  | sendGroupMessage _ _ => exact hop trivial
  | _ => exact he

theorem lookupsAgree_run (env : Env) (names : ClientId → Str) (disk : Str → Option Str)
    (ms : List (Move Exn Call)) : LookupsAgree (env.run names disk ms).hist := by
  refine (run_invariant env.system (J := SessionsAgree) (I := LookupsAgree)
    (sessionInv_run env names disk) (fun x hx => nomatch hx) ?_ ms).1
  intro q h i hJ hI _
  have hcalled : LookupsAgree (env.system.push h i (.called q)) :=
    lookupsAgree_push_of_ne hI fun _ e => by cases e
  by_cases hop : q.op.Sends
  · -- in a send sessions agree all along
    refine wp_mono (fun r h' hK => lookupsAgree_push_of_ne hK.2 fun _ e => by cases e)
      (wp_of_allActs (K := fun h' : History => SessionInv h'.1 ∧ LookupsAgree h') ?_ ?_
        (body_allActs env q) ⟨hJ, hcalled⟩)
    · intro e h' he hK
      have hfree : SessionFree e := by
        apply sessionFree_of_footprint _ _ he
        · intro p hp
          rw [hp] at hop
          exact hop
        · intro hp
          rw [hp] at hop
          exact hop
      exact ⟨hK.1.congr (sameSessions_exec env hfree h'.1), lookupsAgree_push hK.1 hK.2 _⟩
    · intro n h' _ hK
      refine ⟨lookupsAgree_push hK.1 hK.2 _, fun a h'' hJ' hI' _ => ?_⟩
      exact ⟨hJ', lookupsAgree_push hJ' hI' _⟩
  · refine wp_mono (fun r h' hK => lookupsAgree_push_of_ne hK fun _ e => by cases e)
      (wp_of_allActs (K := LookupsAgree) ?_ ?_ (body_allActs env q) hcalled)
    · intro e h' he hK
      apply lookupsAgree_push_of_ne hK
      intro toUser heq
      cases heq
      exact not_findHandler_of_footprint hop he toUser rfl
    · exact fun n h' hn => absurd hn hop

/-- `handleIncoming` invokes no handler itself. -/
theorem handleIncoming_invokes_nothing (env : Env) (r : ClientId) (fromUser payload : Str) :
    (ChatClient.handleIncoming env r fromUser payload).AllActs
      (fun e => ∀ d f p, e ≠ .invoke d f p) (fun _ => True) :=
  ChatClient.handleIncoming_allActs env r (fun _ _ _ _ e => by cases e)
    (fun _ _ _ _ e => by cases e) (fun _ => trivial) fromUser payload

/-- A send to a client that is logged in as `toUser` invokes its handler and
returns true after it; without such a client no handler is invoked. -/
structure Routes (env : Env) (h : History) (fromUser toUser payload : Str) : Prop where
  online : ∀ r, (h.1.clients r).loggedIn = true → (h.1.clients r).username = toUser →
    ∀ i stack (k : Bool → Code Value),
      env.system.advance i stack (ChatClient.sendTo env fromUser toUser payload >>= k) h
        = env.system.advance i stack
            (ChatClient.handleIncoming env r fromUser payload >>= fun _ => k true)
            (env.system.push (env.system.push h i (.did (.tcp (.findHandler toUser)))) i
              (.did (.invoke r fromUser payload)))
  offline : (∀ r, (h.1.clients r).loggedIn = true → (h.1.clients r).username ≠ toUser) →
    ∀ i stack (k : Bool → Code Value),
      env.system.advance i stack (ChatClient.sendTo env fromUser toUser payload >>= k) h
        = env.system.advance i stack (k false)
            (env.system.push h i (.did (.tcp (.findHandler toUser))))

theorem bind_sendTo (env : Env) (fromUser toUser payload : Str) (k : Bool → Code Value) :
    ChatClient.sendTo env fromUser toUser payload >>= k
      = Code.tcp (.findHandler toUser) >>= fun handler => match handler with
        | none => k false
        | some r => Code.invoke r fromUser payload >>= fun _ =>
            ChatClient.handleIncoming env r fromUser payload >>= fun _ => k true := by
  refine congrArg (Prog.perform (Eff.tcp (.findHandler toUser))) (funext fun handler => ?_)
  rcases handler with - | r
  · rfl
  · refine congrArg (Prog.perform (Eff.invoke r fromUser payload)) (funext fun _ => ?_)
    exact Prog.bind_assoc (ChatClient.handleIncoming env r fromUser payload) _ k

/-- Where sessions agree, sends are routed to sessions. -/
theorem SessionInv.routes (hI : SessionInv h.1) (env : Env) (fromUser toUser payload : Str) :
    Routes env h fromUser toUser payload := by
  refine ⟨fun r hlog hname i stack k => ?_, fun hnone i stack k => ?_⟩
  · have hfind : (env.system.exec (Eff.tcp (.findHandler toUser)) h.1).1 = some r :=
      (hI.handler toUser r).mpr ⟨hlog, hname⟩
    rw [bind_sendTo, Code.tcp, advance_act_bind, hfind]
    rfl
  · -- an entry of the table would be a client that is logged in
    have hfind : (env.system.exec (Eff.tcp (.findHandler toUser)) h.1).1 = none := by
      show h.1.server.transport.handlers.lookup toUser = none
      rcases e : h.1.server.transport.handlers.lookup toUser with - | r
      · rfl
      · obtain ⟨hlog, hname⟩ := (hI.handler toUser r).mp e
        exact absurd hname (hnone r hlog)
    rw [bind_sendTo, Code.tcp, advance_act_bind, hfind]

/-- **The session table agrees with the clients.**  In every state of every run
the four records of a session agree, so at most one client is logged in under a
name; no call of one client ends another's session; and every send, wherever it
happens in a run, is routed to the client logged in under the name, or to
nobody. -/
theorem sessions_agree (env : Env) (names : ClientId → Str) (disk : Str → Option Str)
    (ms : List (Move Exn Call)) :
    SessionInv (env.run names disk ms).hist.1 ∧
      (∀ c d, ((env.run names disk ms).hist.1.clients c).loggedIn = true →
        ((env.run names disk ms).hist.1.clients d).loggedIn = true →
        ((env.run names disk ms).hist.1.clients c).username
          = ((env.run names disk ms).hist.1.clients d).username → c = d) ∧
      (∀ q d, d ≠ q.client → ((env.run names disk ms).hist.1.clients d).loggedIn = true →
        ((env.run names disk (ms ++ [.call q])).hist.1.clients d).loggedIn = true ∧
        (env.run names disk (ms ++ [.call q])).hist.1.server.transport.handlers.lookup
          ((env.run names disk (ms ++ [.call q])).hist.1.clients d).username = some d) ∧
      (∀ x ∈ (env.run names disk ms).hist.2, ∀ toUser,
        x.act = .did (.tcp (.findHandler toUser)) → SessionInv x.before) ∧
      (∀ h : History, SessionInv h.1 → ∀ fromUser toUser payload,
        Routes env h fromUser toUser payload) ∧
      ∀ r fromUser payload, (ChatClient.handleIncoming env r fromUser payload).AllActs
        (fun e => ∀ d f p, e ≠ .invoke d f p) (fun _ => True) := by
  have hI := sessionInv_run env names disk ms
  refine ⟨hI, fun c d hc hd he => hI.unique hc hd he, ?_, lookupsAgree_run env names disk ms,
    fun h hh => hh.routes env, handleIncoming_invokes_nothing env⟩
  intro q d hne hlog
  have hI' := sessionInv_run env names disk (ms ++ [.call q])
  have hframe : (env.run names disk (ms ++ [.call q])).hist.1.clients d
      = (env.run names disk ms).hist.1.clients d := by
    rw [Env.run_append_singleton]
    exact step_other_client env _ q hne
  rw [← hframe] at hlog
  exact ⟨hlog, (hI'.handler _ d).mpr ⟨hlog, rfl⟩⟩

end Evlampy
