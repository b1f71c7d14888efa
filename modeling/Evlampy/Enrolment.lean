/-
Evlampy/Enrolment.lean

Accounts side by side.  Clients on threads of their own register and log in at the same
time, several of them perhaps under one name.  The server's list of users is what decides:
of all registrations under one name at most one succeeds, its password is the one that is
checked from then on, and a login succeeds with this password only, unless its client is
logged in already (`accounts_under_contention`).

A registration succeeds where its `registerUser` finds the name free.  The trace shows
this (`Enrols`), and since records are never removed it shows it once for each name.
-/
import Evlampy.Contention
import Evlampy.Passwords

namespace Evlampy

open Cxx Callback Prog System UnorderedMap ChatServer ChatClient

/-- The act `x` registers the user `u`, for a call of one of the user's clients, with the
hash of the password the call was made with. -/
structure Enrols (env : Env) (names : ClientId → Str) (h : History)
    (x : Entry Eff Notice Exn Call Value World) (u passwordHash pem : Str) : Prop where
  act : x.act = .did (.server (.registerUser u passwordHash pem))
  free : u ∉ x.before.server.users
  call : ∃ c p n, names c = u ∧ IsCall h x.inst ⟨c, .registerOnServer p⟩ ∧
    hashPassword env n p = .ok passwordHash

/-- The records have the same hash and key. -/
def SameAccount (r r' : UserRecord) : Prop :=
  r.passwordHash = r'.passwordHash ∧ r.publicKeyPem = r'.publicKeyPem

/-- Call `i` has found the client `c` logged in. -/
def FoundIn (h : History) (i : Nat) (c : ClientId) : Prop :=
  ∃ y ∈ h.2, y.inst = i ∧ y.act = .did (.get c) ∧ (y.before.clients c).loggedIn = true

/-- Call `i` has registered the user `u`. -/
def HasEnrolled (env : Env) (names : ClientId → Str) (h : History) (i : Nat) (u : Str) : Prop :=
  ∃ y ∈ h.2, y.inst = i ∧ ∃ passwordHash pem, Enrols env names h y u passwordHash pem

/-- Call `i` may return success: a registration that has enrolled its user, or a login that was
made with the right password, if its client was not found logged in. -/
def Earned (env : Env) (w : World) (h : History) (i : Nat) : Prop :=
  ∀ c p, (IsCall h i ⟨c, .registerOnServer p⟩ → HasEnrolled env w.usernames h i (w.usernames c)) ∧
    (IsCall h i ⟨c, .login p⟩ →
      FoundIn h i c ∨ ∃ n, RightPassword env h.1.server (w.usernames c) n p)

/-- Accounts in a run from the world `w`. -/
structure Enrolment (env : Env) (w : World) (h : History) : Prop where
  records : ∀ u record, h.1.server.users.lookup u = some record →
    (∃ old, w.server.users.lookup u = some old ∧ SameAccount old record) ∨
      ∃ x ∈ h.2, Enrols env w.usernames h x u record.passwordHash record.publicKeyPem
  known : ∀ x ∈ h.2, ∀ u passwordHash pem,
    x.act = .did (.server (.registerUser u passwordHash pem)) → u ∈ h.1.server.users
  kept : ∀ x ∈ h.2, ∀ u passwordHash pem,
    x.act = .did (.server (.registerUser u passwordHash pem)) → u ∉ x.before.server.users →
      h.1.server.passwordHashOf u = some passwordHash
  once : h.2.Pairwise fun later earlier => ∀ u passwordHash pem,
    earlier.act = .did (.server (.registerUser u passwordHash pem)) →
      u ∈ later.before.server.users
  earned : ∀ x ∈ h.2, x.act = .returned (.ok (.bool true)) → Earned env w h x.inst

variable {env : Env} {names : ClientId → Str} {h h' : History} {i j : Nat} {c : ClientId}
  {q : Call} {a : Act Eff Notice Exn Call Value} {w : World} {u p passwordHash pem : Str}

/-! ### Growth -/

theorem Enrols.push {x : Entry Eff Notice Exn Call Value World}
    (hx : Enrols env names h x u passwordHash pem) (j : Nat) (a : Act Eff Notice Exn Call Value) :
    Enrols env names (env.system.push h j a) x u passwordHash pem := by
  obtain ⟨c, p, n, hc, hcall, hhash⟩ := hx.call
  exact ⟨hx.act, hx.free, c, p, n, hc, hcall.push j a, hhash⟩

theorem HasEnrolled.push (hx : HasEnrolled env names h i u) (j : Nat)
    (a : Act Eff Notice Exn Call Value) : HasEnrolled env names (env.system.push h j a) i u := by
  obtain ⟨y, hy, hinst, passwordHash, pem, henrols⟩ := hx
  exact ⟨y, List.mem_cons_of_mem _ hy, hinst, passwordHash, pem, henrols.push j a⟩

theorem FoundIn.push (hx : FoundIn h i c) (j : Nat) (a : Act Eff Notice Exn Call Value) :
    FoundIn (env.system.push h j a) i c := by
  obtain ⟨y, hy, hrest⟩ := hx
  exact ⟨y, List.mem_cons_of_mem _ hy, hrest⟩

/-- What every act keeps, whatever others do keeps. -/
theorem keep_others {K : History → Prop} (hK : ∀ h j a, K h → K (env.system.push h j a))
    (ho : env.system.Others i h h') (hh : K h) : K h' := by
  induction ho with
  | refl => exact hh
  | tail _ hstep ih =>
      obtain ⟨j, a, -, rfl⟩ := hstep
      exact hK _ j a ih

/-! ### Records -/

/-- A record was there, with the same hash and key, or has just been made. -/
theorem ServerCall.Change.record_cases {q : ServerCall} {s s' : ChatServer} (h : Change s q s')
    {record : UserRecord} (hu : s'.users.lookup u = some record) :
    (∃ old, s.users.lookup u = some old ∧ SameAccount old record) ∨
      q = .registerUser u record.passwordHash record.publicKeyPem ∧ u ∉ s.users := by
  cases h with
  | user v hash pem free =>
      rcases lookup_insert_cases hu with ⟨rfl, rfl⟩ | ⟨-, hold⟩
      · exact Or.inr ⟨rfl, free⟩
      · exact Or.inl ⟨record, hold, rfl, rfl⟩
  | contactAdded owner contact old hold known new =>
      rcases lookup_insert_cases hu with ⟨rfl, rfl⟩ | ⟨-, hsame⟩
      · exact Or.inl ⟨old, hold, rfl, rfl⟩
      · exact Or.inl ⟨record, hsame, rfl, rfl⟩
  | contactRemoved owner contact old hold mem =>
      rcases lookup_insert_cases hu with ⟨rfl, rfl⟩ | ⟨-, hsame⟩
      · exact Or.inl ⟨old, hold, rfl, rfl⟩
      · exact Or.inl ⟨record, hsame, rfl, rfl⟩
  | stored m =>
      rw [ChatServer.storeMessage_users] at hu
      exact Or.inl ⟨record, hu, rfl, rfl⟩
  | _ => exact Or.inl ⟨record, hu, rfl, rfl⟩

theorem ServerCall.Change.mem_users_of_mem {q : ServerCall} {s s' : ChatServer}
    (h : Change s q s') (hu : u ∈ s.users) : u ∈ s'.users := by
  obtain ⟨record, hrecord⟩ := Option.isSome_iff_exists.mp (AList.lookup_isSome.mpr hu)
  obtain ⟨contacts, hrecord'⟩ := h.users_of_some hrecord
  exact AList.lookup_isSome.mp (by rw [hrecord']; rfl)

/-- An act on the users. -/
theorem users_push (env : Env) (h : History) (i : Nat) (a : Act Eff Notice Exn Call Value) :
    (∃ q, a = .did (.server q) ∧ ServerCall.Change h.1.server q (env.system.push h i a).1.server) ∨
      (∀ q, a ≠ .did (.server q)) ∧ (env.system.push h i a).1.server.users = h.1.server.users := by
  cases a with
  | did e =>
      cases e with
      | server q => exact Or.inl ⟨q, rfl, q.exec_change h.1.server⟩
      | _ => exact Or.inr ⟨(fun q e => by cases e), rfl⟩
  | _ => exact Or.inr ⟨(fun q e => by cases e), rfl⟩

theorem mem_users_push (hu : u ∈ h.1.server.users) (i : Nat)
    (a : Act Eff Notice Exn Call Value) : u ∈ (env.system.push h i a).1.server.users := by
  rcases users_push env h i a with ⟨q, -, hchange⟩ | ⟨-, hsame⟩
  · exact hchange.mem_users_of_mem hu
  · rw [hsame]
    exact hu

theorem passwordHashOf_push (hu : h.1.server.passwordHashOf u = some passwordHash) (i : Nat)
    (a : Act Eff Notice Exn Call Value) :
    (env.system.push h i a).1.server.passwordHashOf u = some passwordHash := by
  rcases users_push env h i a with ⟨q, -, hchange⟩ | ⟨-, hsame⟩
  · exact hchange.passwordHashOf_of_some hu
  · rw [ChatServer.passwordHashOf, hsame]
    exact hu

/-! ### Keeping the invariant -/

/-- An act of call `i`: it registers users for a call that has been made for this, and if it
returns success, the call has done what it reports. -/
theorem Enrolment.push (hI : Enrolment env w h)
    (hregisters : ∀ u passwordHash pem, a = .did (.server (.registerUser u passwordHash pem)) →
      ∃ c p n, w.usernames c = u ∧ IsCall h i ⟨c, .registerOnServer p⟩ ∧
        hashPassword env n p = .ok passwordHash)
    (hreturns : a = .returned (.ok (.bool true)) → Earned env w h i)
    (hcalls : ∀ q, a = .called q → ∀ x ∈ h.2, x.inst ≠ i) :
    Enrolment env w (env.system.push h i a) := by
  -- calls of earlier instances are not made now
  have hcalled : ∀ x ∈ h.2, ∀ q, IsCall (env.system.push h i a) x.inst q → IsCall h x.inst q := by
    rintro x hx q ⟨y, hy, hinst, hact⟩
    rcases List.mem_cons.mp hy with rfl | hy
    · exact absurd hinst.symm (hcalls q hact x hx)
    · exact ⟨y, hy, hinst, hact⟩
  refine ⟨fun u record hu => ?_, fun x hx u passwordHash pem hact => ?_,
    fun x hx u passwordHash pem hact hfree => ?_, ?_, fun x hx hact => ?_⟩
  · -- a record is new only if this act makes it
    have hcases : (∃ old, h.1.server.users.lookup u = some old ∧ SameAccount old record) ∨
        a = .did (.server (.registerUser u record.passwordHash record.publicKeyPem)) ∧
          u ∉ h.1.server.users := by
      rcases users_push env h i a with ⟨q, rfl, hchange⟩ | ⟨-, hsame⟩
      · rcases hchange.record_cases hu with hold | ⟨rfl, hfree⟩
        · exact Or.inl hold
        · exact Or.inr ⟨rfl, hfree⟩
      · rw [hsame] at hu
        exact Or.inl ⟨record, hu, rfl, rfl⟩
    rcases hcases with ⟨old, hold, hhash, hpem⟩ | ⟨rfl, hfree⟩
    · rcases hI.records u old hold with ⟨first, hfirst, hhash', hpem'⟩ | ⟨x, hx, henrols⟩
      · exact Or.inl ⟨first, hfirst, hhash'.trans hhash, hpem'.trans hpem⟩
      · rw [hhash, hpem] at henrols
        exact Or.inr ⟨x, List.mem_cons_of_mem _ hx, henrols.push i a⟩
    · obtain ⟨c, p, n, hc, hcall, hhash⟩ := hregisters _ _ _ rfl
      exact Or.inr ⟨_, List.mem_cons_self, rfl, hfree, c, p, n, hc, hcall.push i _, hhash⟩
  · rcases List.mem_cons.mp hx with rfl | hx
    · obtain rfl := hact
      show u ∈ (h.1.server.registerUser u passwordHash pem).2.users
      unfold registerUser
      split
      · next hmem => exact hmem
      · exact (AList.mem_insert _).mpr (Or.inl rfl)
    · exact mem_users_push (hI.known x hx u passwordHash pem hact) i a
  · rcases List.mem_cons.mp hx with rfl | hx
    · obtain rfl := hact
      show (h.1.server.registerUser u passwordHash pem).2.passwordHashOf u = _
      rw [registerUser, if_neg hfree]
      show ((h.1.server.users.insert u _).lookup u).map _ = _
      rw [AList.lookup_insert]
      rfl
    · exact passwordHashOf_push (hI.kept x hx u passwordHash pem hact hfree) i a
  -- a name that has been registered is known, so it is not free a second time
  · refine List.pairwise_cons.mpr ⟨fun x hx u passwordHash pem hact => ?_, hI.once⟩
    exact hI.known x hx u passwordHash pem hact
  -- what was earned stays so; this act earns what it reports
  · have hearned : Earned env w h x.inst ∧
        ∀ q, IsCall (env.system.push h i a) x.inst q → IsCall h x.inst q := by
      rcases List.mem_cons.mp hx with rfl | hx
      · refine ⟨hreturns hact, fun q hq => (isCall_push_iff ?_).mp hq⟩
        rintro q' rfl
        cases hact
      · exact ⟨hI.earned x hx hact, hcalled x hx⟩
    intro c p
    obtain ⟨hwon, hentered⟩ := hearned.1 c p
    refine ⟨fun hc => (hwon (hearned.2 _ hc)).push i a, fun hc => ?_⟩
    rcases hentered (hearned.2 _ hc) with hfound | ⟨n, hright⟩
    · exact Or.inl (hfound.push i a)
    · exact Or.inr ⟨n, hright.push env i a⟩

/-- An act that neither registers nor returns. -/
theorem Enrolment.quiet (hI : Enrolment env w h)
    (ha : ∀ u passwordHash pem, a ≠ .did (.server (.registerUser u passwordHash pem)))
    (hreturned : ∀ r, a ≠ .returned r) (hcalled : ∀ q, a ≠ .called q) :
    Enrolment env w (env.system.push h i a) :=
  hI.push (fun u _ _ e => absurd e (ha u _ _)) (fun e => absurd e (hreturned _))
    fun q e => absurd e (hcalled q)

/-! ### Registering and logging in -/

/-- The weakest precondition of a call of `c`. -/
abbrev epre (env : Env) (w : World) (c : ClientId) (i : Nat) {α : Type} (p : Code α)
    (post : Except Exn α → History → Prop) (h : History) : Prop :=
  pwp env.system Call.client (fun _ _ => True) (Orderly w.usernames) (Enrolment env w) c i p post h

/-- An action that registers nobody, and something every act keeps. -/
theorem epre_step {α : Type} {e : Eff} {f : e.Res → Code α} {post : Except Exn α → History → Prop}
    {K : History → Prop} (hpush : ∀ h j a, K h → K (env.system.push h j a)) (hK : K h)
    (he : ∀ u passwordHash pem, e ≠ .server (.registerUser u passwordHash pem))
    (k : ∀ h' h'', Orderly w.usernames h' → K h' → h'' = env.system.push h' i (.did e) → K h'' →
      epre env w c i (f (e.exec env h'.1).1) post h'') :
    epre env w c i ((Prog.act e : Code e.Res) >>= f) post h := by
  refine pwp_step fun h' h'' hJ hI helse hh'' => ?_
  subst hh''
  have hK' := keep_others hpush helse.meanwhile.others hK
  refine ⟨hI.quiet ?_ (fun _ e => by cases e) (fun _ e => by cases e), ?_⟩
  · intro u passwordHash pem heq
    cases heq
    exact he _ _ _ rfl
  · exact k h' _ hJ hK' rfl (hpush _ i _ hK')

/-- A program of such actions, of a call that may return success. -/
theorem epre_of_allActs {α : Type} {K : History → Prop} {P : Eff → Prop} {V : Notice → Prop}
    (hpush : ∀ h j a, K h → K (env.system.push h j a))
    (hearned : ∀ h, Orderly w.usernames h → K h → Earned env w h i)
    (hP : ∀ u passwordHash pem, ¬ P (.server (.registerUser u passwordHash pem))) {p : Code α}
    (hp : p.AllActs P V) (hK : K h) : epre env w c i p (fun _ h' => K h') h := by
  refine pwp_of_allActs (K := K) (fun h h' hm => keep_others hpush hm.others) ?_
    (hp.mono (fun _ => id) fun _ _ => trivial) hK
  intro h' a hJ hI hK' ha _ hcalled
  refine ⟨hI.push ?_ (fun _ => hearned h' hJ hK') fun q e => absurd e (hcalled q), hpush h' i a hK'⟩
  rintro u passwordHash pem rfl
  exact absurd (ha _ rfl) (hP _ _ _)

/-- Call `i` is a registration, and has enrolled its user. -/
structure Won (env : Env) (w : World) (i : Nat) (c : ClientId) (p : Str) (h : History) : Prop where
  call : IsCall h i ⟨c, .registerOnServer p⟩
  enrolled : HasEnrolled env w.usernames h i (w.usernames c)

/-- Call `i` is a login, and has found its client logged in or the password right. -/
structure Entered (env : Env) (w : World) (i : Nat) (c : ClientId) (p : Str) (h : History) :
    Prop where
  call : IsCall h i ⟨c, .login p⟩
  right : FoundIn h i c ∨ ∃ n, RightPassword env h.1.server (w.usernames c) n p

theorem Won.push (h : History) (j : Nat) (a : Act Eff Notice Exn Call Value)
    (hw : Won env w i c p h) : Won env w i c p (env.system.push h j a) :=
  ⟨hw.call.push j a, hw.enrolled.push j a⟩

theorem Entered.push (h : History) (j : Nat) (a : Act Eff Notice Exn Call Value)
    (he : Entered env w i c p h) : Entered env w i c p (env.system.push h j a) := by
  refine ⟨he.call.push j a, ?_⟩
  rcases he.right with hfound | ⟨n, hright⟩
  · exact Or.inl (hfound.push j a)
  · exact Or.inr ⟨n, hright.push env j a⟩

theorem isCall_push (q : Call) (h : History) (j : Nat) (a : Act Eff Notice Exn Call Value)
    (hc : IsCall h i q) : IsCall (env.system.push h j a) i q :=
  hc.push j a

theorem Won.earned (hJ : Orderly w.usernames h) (hw : Won env w i c p h) : Earned env w h i := by
  intro d p'
  constructor
  · intro hd
    cases hJ.scheduled.called i _ _ hw.call hd
    exact hw.enrolled
  · intro hd
    cases hJ.scheduled.called i _ _ hw.call hd

theorem Entered.earned (hJ : Orderly w.usernames h) (he : Entered env w i c p h) :
    Earned env w h i := by
  intro d p'
  constructor
  · intro hd
    cases hJ.scheduled.called i _ _ he.call hd
  · intro hd
    cases hJ.scheduled.called i _ _ he.call hd
    exact he.right

theorem notMem_of_registerUser {s : ChatServer}
    (hok : (s.registerUser u passwordHash pem).1 = true) : u ∉ s.users := by
  intro hmem
  rw [registerUser, if_pos hmem] at hok
  cases hok

/-- What `registerOnServer` does with the server's answer. -/
theorem epre_registered {registered : Bool} (hc : IsCall h i ⟨c, .registerOnServer p⟩)
    (hwon : registered = true → Won env w i c p h) :
    epre env w c i
      (do
        Code.assign c (.registered registered)
        if registered then do
          saveKeyPairToDisk env c
          pure true
        else pure false)
      (fun r h' => r = .ok true → Won env w i c p h') h := by
  cases registered with
  | false =>
      refine epre_step (isCall_push _) hc (fun _ _ _ e => by cases e) fun h1 h2 _ _ _ _ => ?_
      exact fun e => by cases e
  | true =>
      refine pwp_mono (fun r h1 hK _ => hK) (epre_of_allActs Won.push (fun _ => Won.earned)
        (P := fun e => ∀ u passwordHash pem, e ≠ .server (.registerUser u passwordHash pem))
        (fun u passwordHash pem he => he u passwordHash pem rfl) (V := fun _ => True) ?_
        (hwon rfl))
      refine .act_bind (fun _ _ _ e => by cases e) fun _ => ?_
      exact (saveKeyPairToDisk_allActs env c (fun _ _ _ e => by cases e)
        (fun _ _ _ _ e => by cases e) (fun _ _ _ _ _ e => by cases e)).bind fun _ => trivial

/-- A `registerOnServer` that returns true has enrolled its user. -/
theorem epre_registerOnServer (hc : IsCall h i ⟨c, .registerOnServer p⟩) :
    epre env w c i (registerOnServer env c p) (fun r h' => r = .ok true → Won env w i c p h')
      h := by
  refine epre_step (isCall_push _) hc (fun _ _ _ e => by cases e) fun h1 h2 hJ1 _ _ hc2 => ?_
  have hname : (h1.1.clients c).username = w.usernames c := hJ1.named c
  split
  · exact fun e => by cases e
  · refine epre_step (isCall_push _) hc2 (fun _ _ _ e => by cases e) fun h3 h4 _ _ _ hc4 => ?_
    refine pwp_ofExcept_bind (fun keyPair _ => ?_) fun _ _ e => by cases e
    refine epre_step (isCall_push _) hc4 (fun _ _ _ e => by cases e) fun h5 h6 _ _ _ hc6 => ?_
    refine pwp_ofExcept_bind (fun passwordHash hhash => ?_) fun _ _ e => by cases e
    refine pwp_step fun h7 h8 hJ7 hI7 helse hh8 => ?_
    have hc7 : IsCall h7 i ⟨c, .registerOnServer p⟩ :=
      keep_others (isCall_push _) helse.meanwhile.others hc6
    subst hh8
    refine ⟨hI7.push ?_ (fun e => by cases e) (fun _ e => by cases e), ?_⟩
    · intro u passwordHash' pem heq
      cases heq
      exact ⟨c, p, _, hname.symm, hc7, hhash⟩
    · refine epre_registered (hc7.push i _) fun hregistered => ⟨hc7.push i _, ?_⟩
      -- the name was free if the server says so
      refine ⟨_, List.mem_cons_self, rfl, passwordHash, keyPair.publicKeyPem, ?_, ?_, ?_⟩
      · rw [← hname]
        rfl
      · rw [← hname]
        exact notMem_of_registerUser hregistered
      · exact ⟨c, p, _, rfl, hc7.push i _, hhash⟩

/-- What `login` does once the password has been found right. -/
theorem enter_allActs (env : Env) (c : ClientId) (username : Str) {V : Notice → Prop} :
    (do
      let loaded ← loadKeyPairFromDisk env c
      if loaded then do
        let connected ← connect c username
        Code.assign c (.loggedIn connected)
        if connected then do
          Code.assign c (.registered true)
          pure true
        else pure false
      else pure false : Code Bool).AllActs (LoginActs c) V := by
  refine (loadKeyPairFromDisk_allActs env c).bind fun loaded => ?_
  split
  · refine (connect_allActs c username).bind fun connected => .act_bind rfl fun _ => ?_
    split
    · exact .act_bind rfl fun _ => trivial
    · trivial
  · trivial

/-- A `login` that returns true has found its client logged in, or the password right. -/
theorem epre_login (hc : IsCall h i ⟨c, .login p⟩) :
    epre env w c i (login env c p) (fun r h' => r = .ok true → Entered env w i c p h') h := by
  refine epre_step (isCall_push _) hc (fun _ _ _ e => by cases e) fun h1 h2 hJ1 _ hh2 hc2 => ?_
  have hname : (h1.1.clients c).username = w.usernames c := hJ1.named c
  split
  · next hlogged =>
    refine fun _ => ⟨hc2, Or.inl ⟨⟨i, .did (.get c), h1.1⟩, ?_, rfl, rfl, hlogged⟩⟩
    rw [hh2]
    exact List.mem_cons_self
  · refine epre_step (isCall_push _) hc2 (fun _ _ _ e => by cases e) fun h3 h4 _ _ _ hc4 => ?_
    refine pwp_ofExcept_bind (fun passwordHash hhash => ?_) fun _ _ e => by cases e
    refine epre_step (isCall_push _) hc4 (fun _ _ _ e => by cases e) fun h5 h6 _ _ hh6 hc6 => ?_
    split
    · next hauthenticated =>
      have hright : RightPassword env h6.1.server (w.usernames c) h3.1.draws p := by
        rw [hh6, ← hname]
        exact rightPassword_iff.mpr ⟨passwordHash, authenticate_iff.mp hauthenticated, hhash⟩
      exact pwp_mono (fun r h7 hK _ => hK) (epre_of_allActs Entered.push (fun _ => Entered.earned)
        (P := LoginActs c) (fun _ _ _ he => he) (V := fun _ => True) (enter_allActs env c _)
        ⟨hc6, Or.inr ⟨_, hright⟩⟩)
    · exact fun e => by cases e

/-! ### Every interleaving -/

/-- Returning what has been earned. -/
theorem Enrolment.returned (hI : Enrolment env w h) {r : Except Exn Value}
    (hr : r = .ok (.bool true) → Earned env w h i) :
    Enrolment env w (env.system.push h i (.returned r)) := by
  refine hI.push (fun _ _ _ e => by cases e) (fun e => ?_) fun _ e => by cases e
  cases e
  exact hr rfl

/-- The postcondition of a call that returns a flag. -/
theorem returns_of_earned {K : History → Prop} (hpush : ∀ h j a, K h → K (env.system.push h j a))
    (hearned : ∀ h, Orderly w.usernames h → K h → Earned env w h i) {r : Except Exn Bool}
    (hr : r = .ok true → K h) :
    Returns env.system Call.client (fun _ _ => True) (Orderly w.usernames) (Enrolment env w) c i
      (r.map .bool) h := by
  intro h' hJ hI helse
  apply hI.returned
  intro e
  rcases r with x | b
  · cases e
  · cases e
    exact hearned h' hJ (keep_others hpush helse.meanwhile.others (hr rfl))

theorem epre_body (q : Call) (hi : IsCall h i q) (hregister : ∀ p, q.op ≠ .registerOnServer p)
    (hlogin : ∀ p, q.op ≠ .login p) : epre env w q.client i (q.body env)
      (Returns env.system Call.client (fun _ _ => True) (Orderly w.usernames) (Enrolment env w)
        q.client i) h := by
  have hearned : ∀ h, Orderly w.usernames h → IsCall h i q → Earned env w h i := by
    intro h hJ hi c p
    constructor
    · intro hc
      obtain rfl := hJ.scheduled.called i _ _ hi hc
      exact absurd rfl (hregister p)
    · intro hc
      obtain rfl := hJ.scheduled.called i _ _ hi hc
      exact absurd rfl (hlogin p)
  refine pwp_mono (fun r h1 hi1 h2 hJ2 hI2 helse => ?_) (epre_of_allActs (isCall_push q) hearned
    (fun u passwordHash pem he => ?_) (body_allActs env q) hi)
  · have hi2 := keep_others (isCall_push q) helse.meanwhile.others hi1
    exact hI2.returned fun _ => hearned h2 hJ2 hi2
  · obtain ⟨c, op⟩ := q
    cases op with
    | registerOnServer p => exact absurd rfl (hregister p)
    | _ => exact he.elim

theorem enrolment_interleaving (env : Env) (w : World) (ms : List (PoolMove Exn Call ClientId)) :
    Enrolment env w (env.interleave w ms) := by
  refine pool_invariant env.system Call.client (P := fun _ _ => True) (J := Orderly w.usernames)
    (I := Enrolment env w) (body_allActs_true env) (orderly_interleaving env w) ?_ ?_ ms
  · refine ⟨fun u record hu => Or.inl ⟨record, hu, rfl, rfl⟩, ?_, ?_, .nil, ?_⟩
    · exact fun x hx => nomatch hx
    · exact fun x hx => nomatch hx
    · exact fun x hx => nomatch hx
  · intro q h i hJ hI hlt hidle
    have hcalled : Enrolment env w (env.system.push h i (.called q)) := by
      refine hI.push (fun _ _ _ e => by cases e) (fun e => by cases e) fun _ _ x hx => ?_
      exact Nat.ne_of_lt (hlt x hx)
    have hi : IsCall (env.system.push h i (.called q)) i q := ⟨_, List.mem_cons_self, rfl, rfl⟩
    refine ⟨hcalled, ?_⟩
    obtain ⟨c, op⟩ := q
    by_cases hregister : ∃ p, op = .registerOnServer p
    · obtain ⟨p, rfl⟩ := hregister
      refine pwp_bind (pwp_mono (fun r h' hr => ?_) (epre_registerOnServer hi))
      have hreturns := returns_of_earned (c := c) Won.push (fun _ => Won.earned) hr
      rcases r with x | b
      · exact hreturns
      · exact hreturns
    · by_cases hlogin : ∃ p, op = .login p
      · obtain ⟨p, rfl⟩ := hlogin
        refine pwp_bind (pwp_mono (fun r h' hr => ?_) (epre_login hi))
        have hreturns := returns_of_earned (c := c) Entered.push (fun _ => Entered.earned) hr
        rcases r with x | b
        · exact hreturns
        · exact hreturns
      · exact epre_body ⟨c, op⟩ hi (fun p hp => hregister ⟨p, hp⟩) fun p hp => hlogin ⟨p, hp⟩

/-- Call `i` is the call `q`, and has returned true. -/
def Succeeded (h : History) (i : Nat) (q : Call) : Prop :=
  IsCall h i q ∧ ∃ x ∈ h.2, x.inst = i ∧ x.act = .returned (.ok (.bool true))

/-- A user is enrolled by one act. -/
theorem Enrolment.inst_eq (hI : Enrolment env w h) (hi : HasEnrolled env names h i u)
    (hj : HasEnrolled env names h j u) : i = j := by
  obtain ⟨x, hx, rfl, passwordHash, pem, hxe⟩ := hi
  obtain ⟨y, hy, rfl, passwordHash', pem', hye⟩ := hj
  -- of two of them the later one would have found the user on the list
  have hpairwise : h.2.Pairwise fun x y => (u ∉ x.before.server.users ∧ ∃ passwordHash pem,
      x.act = .did (.server (.registerUser u passwordHash pem))) →
      (u ∉ y.before.server.users ∧ ∃ passwordHash pem,
        y.act = .did (.server (.registerUser u passwordHash pem))) → x.inst = y.inst := by
    refine hI.once.imp fun {x y} hxy hx hy => ?_
    obtain ⟨-, passwordHash, pem, hact⟩ := hy
    exact absurd (hxy u passwordHash pem hact) hx.1
  refine List.Pairwise.forall_of_forall_of_flip (fun _ _ _ _ => rfl) hpairwise ?_ hx hy
    ⟨hxe.free, passwordHash, pem, hxe.act⟩ ⟨hye.free, passwordHash', pem', hye.act⟩
  exact hpairwise.imp fun hxy hy hx => (hxy hx hy).symm

/-- **Accounts under contention.**  However the calls of the clients interleave, of all
registrations under one name at most one succeeds, and the password it was made with is the one
on record from then on.  Every record was there at the beginning, or holds the hash of the
password of a registration by a client of that name.  And a login succeeds only with a password
whose hash is on record, or where it finds its client logged in. -/
theorem accounts_under_contention (env : Env) (w : World)
    (ms : List (PoolMove Exn Call ClientId)) :
    (∀ i j c d p p', Succeeded (env.interleave w ms) i ⟨c, .registerOnServer p⟩ →
      Succeeded (env.interleave w ms) j ⟨d, .registerOnServer p'⟩ →
      w.usernames c = w.usernames d → i = j) ∧
    (∀ i c p, Succeeded (env.interleave w ms) i ⟨c, .registerOnServer p⟩ →
      ∃ n, RightPassword env (env.interleave w ms).1.server (w.usernames c) n p) ∧
    (∀ u record, (env.interleave w ms).1.server.users.lookup u = some record →
      (∃ old, w.server.users.lookup u = some old ∧ SameAccount old record) ∨
        ∃ i c p n, IsCall (env.interleave w ms) i ⟨c, .registerOnServer p⟩ ∧ w.usernames c = u ∧
          hashPassword env n p = .ok record.passwordHash) ∧
    ∀ i c p, Succeeded (env.interleave w ms) i ⟨c, .login p⟩ → FoundIn (env.interleave w ms) i c ∨
      ∃ n, RightPassword env (env.interleave w ms).1.server (w.usernames c) n p := by
  have hI := enrolment_interleaving env w ms
  have hJ := orderly_interleaving env w ms
  have hearned : ∀ {i q}, Succeeded (env.interleave w ms) i q →
      Earned env w (env.interleave w ms) i := by
    rintro i q ⟨-, x, hx, rfl, hact⟩
    exact hI.earned x hx hact
  refine ⟨fun i j c d p p' hi hj heq => ?_, fun i c p hi => ?_, fun u record hu => ?_,
    fun i c p hi => (hearned hi c p).2 hi.1⟩
  · have henrolled := (hearned hi c p).1 hi.1
    rw [heq] at henrolled
    exact hI.inst_eq henrolled ((hearned hj d p').1 hj.1)
  · obtain ⟨x, hx, hinst, passwordHash, pem, henrols⟩ := (hearned hi c p).1 hi.1
    obtain ⟨c', p', n, -, hcall, hhash⟩ := henrols.call
    rw [hinst] at hcall
    cases hJ.scheduled.called i _ _ hi.1 hcall
    have hrecord := hI.kept x hx _ _ _ henrols.act henrols.free
    exact ⟨n, rightPassword_iff.mpr ⟨passwordHash, hrecord, hhash⟩⟩
  · rcases hI.records u record hu with hold | ⟨x, hx, henrols⟩
    · exact Or.inl hold
    · obtain ⟨c, p, n, hc, hcall, hhash⟩ := henrols.call
      exact Or.inr ⟨x.inst, c, p, n, hcall, hc, hhash⟩

end Evlampy
