/-
Evlampy/Passwords.lean

Passwords.  The server compares the hash it is given with the one on record, and
a hash stays on record as it was registered.  A `login` that returns true has
passed this comparison, unless the client was logged in already: then the
password is not looked at.  Whoever is logged in got there by a call that has
passed it, and has stayed (`login_authenticates`).
-/
import Evlampy.Outcomes

namespace Evlampy

open Cxx Callback Prog System ChatServer ChatClient

/-! ### Hashes on record -/

/-- The password hash on record for a user. -/
def ChatServer.passwordHashOf (s : ChatServer) (u : Str) : Option Str :=
  (s.users.lookup u).map UserRecord.passwordHash

theorem authenticate_iff {s : ChatServer} {u passwordHash : Str} :
    s.authenticate u passwordHash = true ↔ s.passwordHashOf u = some passwordHash := by
  unfold ChatServer.authenticate ChatServer.passwordHashOf
  rcases s.users.lookup u with - | record <;> simp

/-- A hash on record stays on record. -/
theorem ServerCall.Change.passwordHashOf_of_some {q : ServerCall} {s s' : ChatServer}
    (h : Change s q s') {u passwordHash : Str} (hu : s.passwordHashOf u = some passwordHash) :
    s'.passwordHashOf u = some passwordHash := by
  obtain ⟨record, hrecord, rfl⟩ := Option.map_eq_some_iff.mp hu
  obtain ⟨contacts, hrecord'⟩ := h.users_of_some hrecord
  rw [ChatServer.passwordHashOf, hrecord', Option.map_some]

/-- `p` is the password of the user `u`: its hash, computed with the number `n`,
is the one on record. -/
def RightPassword (env : Env) (s : ChatServer) (u : Str) (n : Nat) (p : Str) : Prop :=
  ∃ record, s.users.lookup u = some record ∧ hashPassword env n p = .ok record.passwordHash

variable {env : Env} {names : ClientId → Str} {h h' : History} {i n : Nat} {c d : ClientId}
  {u p : Str}

theorem rightPassword_iff {s : ChatServer} : RightPassword env s u n p ↔
    ∃ passwordHash, s.passwordHashOf u = some passwordHash ∧
      hashPassword env n p = .ok passwordHash := by
  constructor
  · rintro ⟨record, hrecord, hhash⟩
    exact ⟨record.passwordHash, by rw [ChatServer.passwordHashOf, hrecord]; rfl, hhash⟩
  · rintro ⟨passwordHash, hrecord, hhash⟩
    obtain ⟨record, hlookup, rfl⟩ := Option.map_eq_some_iff.mp hrecord
    exact ⟨record, hlookup, hhash⟩

theorem RightPassword.push (env : Env) (hp : RightPassword env h.1.server u n p) (j : Nat)
    (a : Act Eff Notice Exn Call Value) :
    RightPassword env (env.system.push h j a).1.server u n p := by
  obtain ⟨passwordHash, hrecord, hhash⟩ := rightPassword_iff.mp hp
  refine rightPassword_iff.mpr ⟨passwordHash, ?_, hhash⟩
  cases a with
  | did e =>
      cases e with
      | server q => exact (q.exec_change h.1.server).passwordHashOf_of_some hrecord
      | _ => exact hrecord
  | _ => exact hrecord

/-! ### How sessions are opened -/

/-- The client `c` has been logged in by a call with the right password, and has stayed logged
in since that call has returned. -/
def Opened (env : Env) (h : History) (c : ClientId) : Prop :=
  ∃ x ∈ h.2, ∃ p, x.act = .called ⟨c, .login p⟩ ∧ (x.before.clients c).loggedIn = false ∧
    RightPassword env h.1.server (x.before.clients c).username x.before.draws p ∧
    ∃ since, since <+: h.2 ∧ (∀ z ∈ since, (z.before.clients c).loggedIn = true) ∧
      ∃ y ∈ since, y.inst = x.inst ∧ y.act = .returned (.ok (.bool true))

/-- Acts that do not log the client out. -/
theorem Opened.append (ho : Opened env h c)
    (later : List (Entry Eff Notice Exn Call Value World))
    (htrace : h'.2 = later ++ h.2) (hin : ∀ z ∈ later, (z.before.clients c).loggedIn = true)
    (hright : ∀ u n p, RightPassword env h.1.server u n p → RightPassword env h'.1.server u n p) :
    Opened env h' c := by
  obtain ⟨x, hx, p, hcalled, hout, hp, since, ⟨before, hsince⟩, hstayed, y, hy, hreturned⟩ := ho
  refine ⟨x, ?_, p, hcalled, hout, hright _ _ _ hp, later ++ since, ⟨before, ?_⟩, fun z hz => ?_, y,
    List.mem_append_right _ hy, hreturned⟩
  · rw [htrace]
    exact List.mem_append_right _ hx
  · rw [htrace, ← hsince, List.append_assoc]
  · rcases List.mem_append.mp hz with hz | hz
    · exact hin z hz
    · exact hstayed z hz

theorem Opened.push (ho : Opened env h c) (hin : (h.1.clients c).loggedIn = true) (j : Nat)
    (a : Act Eff Notice Exn Call Value) : Opened env (env.system.push h j a) c :=
  ho.append [⟨j, a, h.1⟩] rfl (by simpa using hin) fun _ _ _ hp => hp.push env j a

/-- Whoever is logged in got there by a call with the right password. -/
def SessionsOpened (env : Env) (h : History) : Prop :=
  ∀ c, (h.1.clients c).loggedIn = true → Opened env h c

/-- The actions that log nobody in. -/
def Admitless (e : Eff) : Prop := ∀ d, e ≠ .assign d (.loggedIn true)

theorem loggedIn_of_admitless {e : Eff} (he : Admitless e) {w : World}
    (hd : ((e.exec env w).2.clients d).loggedIn = true) : (w.clients d).loggedIn = true := by
  cases e with
  | assign c' v =>
      rcases eq_or_ne d c' with rfl | hne
      · have hself := congrArg ChatClient.loggedIn (World.assign_self w d v)
        cases v with
        | loggedIn b =>
            cases b with
            | true => exact absurd rfl (he d)
            | false => exact nomatch hself.symm.trans hd
        | _ => exact hself.symm.trans hd
      · rw [← World.assign_ne w hne v]
        exact hd
  | _ => exact hd

theorem SessionsOpened.act (ho : SessionsOpened env h) {e : Eff} (he : Admitless e) :
    SessionsOpened env (env.system.push h i (.did e)) :=
  fun d hd =>
    have hin := loggedIn_of_admitless he hd
    (ho d hin).push hin i _

theorem SessionsOpened.push (ho : SessionsOpened env h) {a : Act Eff Notice Exn Call Value}
    (ha : ∀ e, a ≠ .did e) : SessionsOpened env (env.system.push h i a) := by
  intro d hd
  have hin : (h.1.clients d).loggedIn = true := by
    cases a with
    | did e => exact absurd rfl (ha e)
    | _ => exact hd
  exact (ho d hin).push hin i a

theorem SessionsOpened.failed (ho : SessionsOpened env h) {r : Except Exn Bool}
    (hr : r ≠ .ok true) {P : Prop} :
    SessionsOpened env (env.system.push h i (.returned (r.map .bool))) ∧ (r = .ok true → P) :=
  ⟨ho.push (fun _ e => by cases e), fun e => absurd e hr⟩

theorem logout_admitless (c : ClientId) : (logout c).AllActs Admitless (fun _ => False) := by
  apply AllActs.bind
  · refine .act_bind (fun _ e => by cases e) fun self => ?_
    split
    · exact .act_bind (fun _ e => by cases e) fun _ => allActs_act.mpr fun _ e => by cases e
    · trivial
  · exact fun _ => allActs_act.mpr fun _ e => by cases e

theorem admitless_of_footprint {op : Op} {e : Eff} (hlogin : ∀ p, op ≠ .login p)
    (hlogout : op ≠ .logout) (he : Footprint c op e) : Admitless e := by
  rintro d rfl
  exact sessionFree_of_footprint hlogin hlogout he

/-- The client `c`, in its call `i` of `login` made in the world `w`, has given
the right password and is not logged in yet. -/
structure Entering (env : Env) (i : Nat) (c : ClientId) (p : Str) (w : World) (h : History) :
    Prop where
  called : ⟨i, .called ⟨c, .login p⟩, w⟩ ∈ h.2
  before : (w.clients c).loggedIn = false
  right : RightPassword env h.1.server (w.clients c).username w.draws p
  out : (h.1.clients c).loggedIn = false
  others : SessionsOpened env h

theorem Entering.act {w : World} (he : Entering env i c p w h) {e : Eff} (ha : Admitless e) :
    Entering env i c p w (env.system.push h i (.did e)) where
  called := List.mem_cons_of_mem _ he.called
  before := he.before
  right := he.right.push env i _
  out := by
    by_contra hin
    have hin := loggedIn_of_admitless ha (Bool.eq_true_of_not_eq_false hin)
    rw [he.out] at hin
    cases hin
  others := he.others.act ha

/-- The client is let in, and the call returns. -/
theorem Entering.opened {w : World} (he : Entering env i c p w h)
    (later : List (Entry Eff Notice Exn Call Value World))
    (htrace : h'.2 = later ++ h.2)
    (hlater : ∀ z ∈ later, ∀ d, d ≠ c → z.before.clients d = h.1.clients d)
    (hclients : ∀ d, d ≠ c → h'.1.clients d = h.1.clients d) (hserver : h'.1.server = h.1.server) :
    SessionsOpened env (env.system.push h' i (.returned (.ok (.bool true)))) := by
  intro d hd
  rcases eq_or_ne d c with rfl | hne
  · refine ⟨⟨i, .called ⟨d, .login p⟩, w⟩, ?_, p, rfl, he.before, ?_,
      [⟨i, .returned (.ok (.bool true)), h'.1⟩], ⟨h'.2, rfl⟩, ?_, _, List.mem_cons_self, rfl, rfl⟩
    · apply List.mem_cons_of_mem
      rw [htrace]
      exact List.mem_append_right _ he.called
    · show RightPassword env h'.1.server _ _ _
      rw [hserver]
      exact he.right
    · intro z hz
      rw [List.mem_singleton.mp hz]
      exact hd
  · have hin : (h.1.clients d).loggedIn = true := by
      rw [← hclients d hne]
      exact hd
    have hothers : Opened env h' d := by
      refine (he.others d hin).append later htrace (fun z hz => ?_) fun u n p hp => ?_
      · rw [hlater z hz d hne]
        exact hin
      · rw [hserver]
        exact hp
    exact hothers.push hd i _

theorem loadKeyPairFromDisk_admitless (env : Env) (c : ClientId) :
    (loadKeyPairFromDisk env c).AllActs Admitless (fun _ => False) := by
  refine (loadKeyPairFromDisk_sessionFree env c).mono (fun e he => ?_) fun _ => id
  rintro d rfl
  exact he

theorem connect_admitless (c : ClientId) (name : Str) :
    (connect c name).AllActs Admitless (fun _ => False) := by
  refine .act_bind (fun _ e => by cases e) fun self => ?_
  split
  · trivial
  · refine .act_bind (fun _ e => by cases e) fun ok => ?_
    cases ok with
    | false => trivial
    | true => exact .act_bind (fun _ e => by cases e) fun _ => trivial

theorem wp_login_opened {w : World} {J I : History → Prop}
    (hcalled : ⟨i, .called ⟨c, .login p⟩, w⟩ ∈ h.2) (hw : h.1 = w) (ho : SessionsOpened env h) :
    env.system.wp J I i (login env c p)
      (fun r h' => SessionsOpened env (env.system.push h' i (.returned (r.map .bool))) ∧
        (r = .ok true → (w.clients c).loggedIn = true ∨
          RightPassword env w.server (w.clients c).username w.draws p)) h := by
  subst hw
  refine wp_step fun self h1 hself hh1 => ?_
  obtain rfl : self = h.1.clients c := hself
  have ho1 : SessionsOpened env h1 := by
    rw [hh1]
    exact ho.act fun _ e => by cases e
  split
  · next hlog => exact ⟨ho1.push (fun _ e => by cases e), fun _ => Or.inl hlog⟩
  · next hlog =>
    refine wp_step fun n h2 hn hh2 => ?_
    have ho2 : SessionsOpened env h2 := by
      rw [hh2]
      exact ho1.act fun _ e => by cases e
    obtain rfl : n = h.1.draws := by
      rw [hn, hh1]
      rfl
    refine wp_ofExcept_bind ?_ fun _ _ => ho2.failed fun e => by cases e
    intro passwordHash hhash
    refine wp_step fun authenticated h3 hauth hh3 => ?_
    have ho3 : SessionsOpened env h3 := by
      rw [hh3]
      exact ho2.act fun _ e => by cases e
    replace hauth : authenticated
        = h.1.server.authenticate (h.1.clients c).username passwordHash := by
      rw [hauth, hh2, hh1]
      rfl
    cases authenticated with
    | false => exact ho3.failed fun e => by cases e
    | true =>
        have hright : RightPassword env h.1.server (h.1.clients c).username h.1.draws p :=
          rightPassword_iff.mpr ⟨passwordHash, authenticate_iff.mp hauth.symm, hhash⟩
        have hserver3 : h3.1.server = h.1.server := by
          rw [hh3, hh2, hh1]
          rfl
        have hclients3 : h3.1.clients = h.1.clients := by
          rw [hh3, hh2, hh1]
          rfl
        have hentering : Entering env i c p h.1 h3 := by
          refine ⟨?_, Bool.eq_false_iff.mpr hlog, hserver3 ▸ hright, ?_, ho3⟩
          · rw [hh3, hh2, hh1]
            exact List.mem_cons_of_mem _ (List.mem_cons_of_mem _ (List.mem_cons_of_mem _ hcalled))
          · rw [hclients3]
            exact Bool.eq_false_iff.mpr hlog
        -- loading and connecting admit nobody
        refine wp_bind.mpr (wp_mono (fun r h4 h4e => ?_) (wp_of_allActs
          (K := fun h' : History => Entering env i c p h.1 h') (fun e h' he hK => hK.act he)
          (fun _ _ hn => hn.elim) (loadKeyPairFromDisk_admitless env c) hentering))
        rcases r with x | loaded
        · exact h4e.others.failed fun e => by cases e
        · cases loaded with
          | false => exact h4e.others.failed fun e => by cases e
          | true =>
              refine wp_bind.mpr (wp_mono (fun r h5 h5e => ?_) (wp_of_allActs
                (K := fun h' : History => Entering env i c p h.1 h') (fun e h' he hK => hK.act he)
                (fun _ _ hn => hn.elim) (connect_admitless c _) h4e))
              rcases r with x | connected
              · exact h5e.others.failed fun e => by cases e
              · cases connected with
                | false =>
                    have h6e := h5e.act (e := .assign c (.loggedIn false)) fun _ e => by cases e
                    exact h6e.others.failed fun e => by cases e
                | true =>
                    refine ⟨h5e.opened [_, _] rfl ?_ (fun d hne => ?_) rfl,
                      fun _ => Or.inr hright⟩
                    · intro z hz d hne
                      simp only [List.mem_cons, List.not_mem_nil, or_false] at hz
                      rcases hz with rfl | rfl
                      · exact World.assign_ne _ hne _
                      · rfl
                    · exact (World.assign_ne _ hne _).trans (World.assign_ne _ hne _)

/-! ### Every run -/

theorem sessionsOpened_run (env : Env) (names : ClientId → Str) (disk : Str → Option Str)
    (ms : List (Move Exn Call)) : SessionsOpened env (env.run names disk ms).hist := by
  refine (run_invariant env.system (J := fun _ => True) (I := SessionsOpened env)
    (fun _ => trivial) (fun c hc => by cases hc) ?_ ms).1
  intro q h i _ hI _
  have hcalled : SessionsOpened env (env.system.push h i (.called q)) :=
    hI.push fun _ e => by cases e
  by_cases hlogin : ∃ p, q.op = .login p
  · obtain ⟨c, op⟩ := q
    obtain ⟨p, rfl⟩ := hlogin
    refine wp_bind.mpr (wp_mono (fun r h' hr => ?_) (wp_login_opened List.mem_cons_self rfl hcalled))
    cases r <;> exact hr.1
  · by_cases hlogout : q.op = .logout
    · obtain ⟨c, op⟩ := q
      cases hlogout
      refine wp_map (K := SessionsOpened env) (fun r h' hK => hK.push fun _ e => by cases e)
        (wp_of_allActs (K := SessionsOpened env) (fun e h' he hK => hK.act he)
          (fun _ _ hn => hn.elim) (logout_admitless c) hcalled)
    · refine wp_mono (fun r h' hK => hK.push fun _ e => by cases e) (wp_of_allActs
        (K := SessionsOpened env) ?_ ?_ (body_allActs env q) hcalled)
      · exact fun e h' he hK => hK.act (admitless_of_footprint (fun p hp => hlogin ⟨p, hp⟩) hlogout he)
      · refine fun n h' _ hK => ⟨hK.push (fun _ e => by cases e), fun a h'' _ hI' _ => ?_⟩
        exact hI'.push fun _ e => by cases e

/-- A `login` that has returned true was made with the right password, or by a
client that was logged in already. -/
def LoginContract (env : Env) (q : Call) (w : World) (r : Except Exn Value) (_ : World) : Prop :=
  ∀ p, q.op = .login p → r = .ok (.bool true) → (w.clients q.client).loggedIn = true ∨
    RightPassword env w.server (w.clients q.client).username w.draws p

/-- **Passwords are checked.**  In every run, every `login` that has returned true
was made with the right password or by a client that was logged in already; and
whoever is logged in was logged in by a call made with the right password while
the client was logged out, and has stayed logged in since. -/
theorem login_authenticates (env : Env) (names : ClientId → Str) (disk : Str → Option Str)
    (ms : List (Move Exn Call)) : Meets (LoginContract env) (env.run names disk ms).hist ∧
      SessionsOpened env (env.run names disk ms).hist := by
  refine ⟨run_meets env.system (fun ms => sessionsOpened_run env names disk ms) ?_ ms,
    sessionsOpened_run env names disk ms⟩
  rintro ⟨c, op⟩ h i hJ
  cases op with
  | login p =>
      refine wp_bind.mpr (wp_mono (fun r h' hr => ?_)
        (wp_login_opened List.mem_cons_self rfl (hJ.push fun _ e => by cases e)))
      rcases r with x | b
      · exact fun p _ e => by cases e
      · intro p' hop e
        cases hop
        cases e
        exact hr.2 rfl
  | _ => exact wp_mono (fun r h' _ p hop => by cases hop) wp_trivial

/-- Alice registers and logs in, and logs in once more with another password. -/
def relogin : List (Move Exn Call) :=
  [.call ⟨0, .registerOnServer (str "pw")⟩, .call ⟨0, .login (str "pw")⟩,
    .call ⟨0, .login (str "wrong")⟩]

/-- The other password is accepted. -/
theorem login_ignores_password : ¬ ∀ ms, Meets (fun q w r _ => ∀ p, q.op = .login p →
      r = .ok (.bool true) →
      RightPassword Env.reference w.server (w.clients q.client).username w.draws p)
    (Env.reference.run Env.names Env.noFiles ms).hist := by
  intro h
  have hentries : ∃ x ∈ (Env.reference.run Env.names Env.noFiles relogin).hist.2,
      ∃ y ∈ (Env.reference.run Env.names Env.noFiles relogin).hist.2, y.inst = x.inst ∧
        callOf x.act = some ⟨0, .login (str "wrong")⟩ ∧ valueOf y.act = some (.bool true) ∧
        ∀ record ∈ x.before.server.users.lookup (x.before.clients 0).username,
          (hashPassword Env.reference x.before.draws (str "wrong")).toOption
            ≠ some record.passwordHash := by decide +kernel
  obtain ⟨x, hx, y, hy, hinst, hcall, hvalue, hne⟩ := hentries
  obtain ⟨record, hrecord, hhash⟩ := h relogin x hx y hy hinst _ _ (called_of_callOf hcall)
    (returned_of_valueOf hvalue) (str "wrong") rfl rfl
  refine hne record hrecord ?_
  show (hashPassword Env.reference x.before.draws (str "wrong")).toOption = _
  rw [hhash]
  rfl

end Evlampy
