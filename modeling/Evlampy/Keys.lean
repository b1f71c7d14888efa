/-
Evlampy/Keys.lean

Keys.  A user's key pair exists in up to three places: its public half in the
server's record, both halves in two files, and both in the memory of every
client logged in as the user.  Where file operations work, `KeyInv` holds in
every reachable state (`keyInv_run`): a registered user's files hold a generated
pair whose public half is the one on record, and whoever is logged in holds such
a pair.

The subtle point is a client object whose registration fails because the name is
taken: it overwrites its own pair in memory.  It cannot be logged in then, since
a logged in client counts as registered, and logging in loads the files first.
-/
import Evlampy.Actions

namespace Evlampy

open Cxx Callback Prog System OpenSSLKeyFactory ChatClient

/-! ### The invariant -/

/-- The public key on record for a user. -/
def ChatServer.publicKeyOf (s : ChatServer) (u : Str) : Option Str :=
  (s.users.lookup u).map UserRecord.publicKeyPem

/-- The users the server has a record of. -/
def ChatServer.recorded (s : ChatServer) : Set Str := {u | ∃ pem, s.publicKeyOf u = some pem}

/-- The key files of the given users: a private and a public key are never in one file, and
different users have different files. -/
structure Env.KeyFilesApart (env : Env) (homeDir : Str) (users : Set Str) : Prop where
  halves : ∀ u ∈ users, ∀ v ∈ users,
    env.locate (privKeyPath homeDir u) ≠ env.locate (pubKeyPath homeDir v)
  privKeys : ∀ u ∈ users, ∀ v ∈ users, u ≠ v →
    env.locate (privKeyPath homeDir u) ≠ env.locate (privKeyPath homeDir v)
  pubKeys : ∀ u ∈ users, ∀ v ∈ users, u ≠ v →
    env.locate (pubKeyPath homeDir u) ≠ env.locate (pubKeyPath homeDir v)

/-- File operations succeed, a read returns what was last written under the same path, and the
key files of the given users are apart. -/
structure Env.FilesWork (env : Env) (users : Set Str) : Prop where
  createDirectories : ∀ n path, env.createDirectories n path = true
  write : ∀ n path text, env.write n path text = some text
  read : ∀ n path text, env.read n path (some text) = some text
  apart : ∀ homeDir, env.home = some homeDir → env.KeyFilesApart homeDir users

theorem Env.FilesWork.mono {env : Env} {users users' : Set Str} (hfw : env.FilesWork users')
    (hsub : users ⊆ users') : env.FilesWork users where
  createDirectories := hfw.createDirectories
  write := hfw.write
  read := hfw.read
  apart homeDir hhome :=
    have ha := hfw.apart homeDir hhome
    ⟨fun u hu v hv => ha.halves u (hsub hu) v (hsub hv),
      fun u hu v hv => ha.privKeys u (hsub hu) v (hsub hv),
      fun u hu v hv => ha.pubKeys u (hsub hu) v (hsub hv)⟩

/-- The library has nothing to do with it. -/
theorem Env.FilesWork.withSsl {env : Env} {users : Set Str} (hfw : env.FilesWork users)
    (ssl : OpenSSL) : Env.FilesWork { env with ssl := ssl } users where
  createDirectories := hfw.createDirectories
  write := hfw.write
  read := hfw.read
  apart homeDir hhome :=
    have ha := hfw.apart homeDir hhome
    ⟨ha.halves, ha.privKeys, ha.pubKeys⟩

/-- The two key files of a user hold the pair. -/
def OnDisk (env : Env) (disk : Str → Option Str) (u : Str) (keyPair : KeyPair) : Prop :=
  ∀ homeDir, env.home = some homeDir →
    disk (env.locate (privKeyPath homeDir u)) = some keyPair.privateKeyPem ∧
      disk (env.locate (pubKeyPath homeDir u)) = some keyPair.publicKeyPem

/-- Every key on record is of a generated pair that is in its user's files, and whoever is
logged in holds such a pair, the public half of which is on record. -/
structure KeyInv (env : Env) (w : World) : Prop where
  onRecord : ∀ u pem, w.server.publicKeyOf u = some pem →
    ∃ keyPair, env.ssl.Generated keyPair ∧ keyPair.publicKeyPem = pem ∧
      OnDisk env w.disk u keyPair
  inHand : ∀ c, (w.clients c).loggedIn = true →
    (w.clients c).registered = true ∧ env.ssl.Generated (w.clients c).keyPair ∧
      w.server.publicKeyOf (w.clients c).username = some (w.clients c).keyPair.publicKeyPem

/-- The worlds agree on everything the keys are kept in. -/
structure SameKeys (w w' : World) : Prop where
  publicKeyOf : ∀ u, w'.server.publicKeyOf u = w.server.publicKeyOf u
  disk : w'.disk = w.disk
  loggedIn : ∀ c, (w'.clients c).loggedIn = (w.clients c).loggedIn
  registered : ∀ c, (w'.clients c).registered = (w.clients c).registered
  keyPair : ∀ c, (w'.clients c).keyPair = (w.clients c).keyPair
  username : ∀ c, (w'.clients c).username = (w.clients c).username

variable {env : Env} {users : Set Str} {w w' : World} {c : ClientId}

theorem SameKeys.rfl {w : World} : SameKeys w w :=
  ⟨fun _ => Eq.refl _, Eq.refl _, fun _ => Eq.refl _, fun _ => Eq.refl _, fun _ => Eq.refl _,
    fun _ => Eq.refl _⟩

theorem KeyInv.congr (h : KeyInv env w) (same : SameKeys w w') : KeyInv env w' := by
  refine ⟨fun u pem hu => ?_, fun d hd => ?_⟩
  · rw [same.publicKeyOf] at hu
    rw [same.disk]
    exact h.onRecord u pem hu
  · rw [same.loggedIn] at hd
    rw [same.registered, same.keyPair, same.username, same.publicKeyOf]
    exact h.inHand d hd

theorem keyInv_initial (env : Env) (names : ClientId → Str) (disk : Str → Option Str) :
    KeyInv env (World.initial names disk) := by
  refine ⟨fun u pem hu => ?_, fun d hd => ?_⟩
  · cases hu
  · cases hd

/-! ### Paths -/

theorem privKeyPath_injective (homeDir : Str) : Function.Injective (privKeyPath homeDir) := by
  intro u v h
  exact List.append_cancel_left (List.append_cancel_right h)

theorem pubKeyPath_injective (homeDir : Str) : Function.Injective (pubKeyPath homeDir) := by
  intro u v h
  exact List.append_cancel_left (List.append_cancel_right h)

/-- No private key file is a public key file. -/
theorem privKeyPath_ne_pubKeyPath (homeDir u v : Str) :
    privKeyPath homeDir u ≠ pubKeyPath homeDir v := by
  intro h
  have hend : ∀ l x : Str, 5 ≤ x.length → (l ++ x).reverse.take 5 = x.reverse.take 5 := by
    intro l x hx
    rw [List.reverse_append, List.take_append_of_le_length (by simpa using hx)]
  have h5 := congrArg (fun l => l.reverse.take 5) h
  simp only [privKeyPath, pubKeyPath] at h5
  rw [hend _ _ (by decide), hend _ _ (by decide)] at h5
  exact absurd h5 (by decide)

/-- Where different paths lead to different files, all users have key files of their own. -/
theorem keyFilesApart_of_injective (hl : Function.Injective env.locate) (homeDir : Str)
    (users : Set Str) : env.KeyFilesApart homeDir users where
  halves u _ v _ := hl.ne (privKeyPath_ne_pubKeyPath homeDir u v)
  privKeys _ _ _ _ hne := hl.ne ((privKeyPath_injective homeDir).ne hne)
  pubKeys _ _ _ _ hne := hl.ne ((pubKeyPath_injective homeDir).ne hne)

/-! ### Actions that leave keys alone -/

/-- The actions that touch no key. -/
def KeyFree : Eff → Prop
  | .server (.registerUser ..) => False
  | .file (.write ..) => False
  | .assign _ (.transport _) => True
  | .assign .. => False
  | _ => True

theorem publicKeyOf_insert (s : ChatServer) {o : Str} {record record' : UserRecord}
    (ho : s.users.lookup o = some record) (hpem : record'.publicKeyPem = record.publicKeyPem)
    (u : Str) : ((s.users.insert o record').lookup u).map UserRecord.publicKeyPem
      = s.publicKeyOf u := by
  rcases eq_or_ne u o with rfl | hne
  · rw [AList.lookup_insert, ChatServer.publicKeyOf, ho, Option.map_some, Option.map_some, hpem]
  · rw [AList.lookup_insert_ne hne, ChatServer.publicKeyOf]

/-- Of the server's functions only `registerUser` touches public keys. -/
theorem ServerCall.Change.publicKeyOf {q : ServerCall} {s s' : ChatServer}
    (h : Change s q s') (hq : KeyFree (.server q)) (u : Str) :
    s'.publicKeyOf u = s.publicKeyOf u := by
  cases h with
  | user u hash pem free => exact hq.elim
  | contactAdded owner contact record old known new => exact publicKeyOf_insert s old (by rfl) u
  | contactRemoved owner contact record old mem => exact publicKeyOf_insert s old (by rfl) u
  | stored m => exact congrArg (fun us => (AList.lookup u us).map _) (s.storeMessage_users m)
  | _ => rfl

theorem sameKeys_exec (env : Env) {e : Eff} (he : KeyFree e) (w : World) :
    SameKeys w (e.exec env w).2 := by
  cases e with
  | server q => exact { SameKeys.rfl with publicKeyOf := (q.exec_change w.server).publicKeyOf he }
  | tcp q => exact { SameKeys.rfl with publicKeyOf := fun _ => rfl }
  | file q =>
      cases q with
      | write p t => exact he.elim
      | createDirectories p => exact { SameKeys.rfl with publicKeyOf := fun _ => rfl }
      | read p => exact { SameKeys.rfl with publicKeyOf := fun _ => rfl }
  | get d => exact SameKeys.rfl
  | assign d u =>
      cases u with
      | transport t =>
          have hself : ∀ x, ((w.assign d (.transport t)).clients x).loggedIn
                = (w.clients x).loggedIn ∧
              ((w.assign d (.transport t)).clients x).registered = (w.clients x).registered ∧
              ((w.assign d (.transport t)).clients x).keyPair = (w.clients x).keyPair ∧
              ((w.assign d (.transport t)).clients x).username = (w.clients x).username := by
            intro x
            rcases eq_or_ne x d with rfl | hne
            · simp [World.assign, Update.apply]
            · simp [World.assign, hne]
          exact ⟨fun _ => rfl, rfl, fun x => (hself x).1, fun x => (hself x).2.1,
            fun x => (hself x).2.2.1, fun x => (hself x).2.2.2⟩
      | _ => exact he.elim
  | draw n => exact { SameKeys.rfl with publicKeyOf := fun _ => rfl }
  | invoke d f p => exact SameKeys.rfl

theorem keyFree_of_sendActs {e : Eff} (he : SendActs e) : KeyFree e := by
  cases e with
  | server q => cases q <;> trivial
  | file q => exact he.elim
  | assign d u => exact he.elim
  | _ => trivial

theorem keyFree_of_footprint {op : Op} {e : Eff} (hregister : ∀ p, op ≠ .registerOnServer p)
    (hlogin : ∀ p, op ≠ .login p) (hlogout : op ≠ .logout) (he : Footprint c op e) : KeyFree e := by
  cases op with
  | registerOnServer p => exact absurd rfl (hregister p)
  | login p => exact absurd rfl (hlogin p)
  | logout => exact absurd rfl hlogout
  | _ =>
      rcases e with q | q | q | d | ⟨d, u⟩ | n | _
      case server => cases q <;> trivial
      case file => exact he.elim
      case assign => exact he.elim
      all_goals trivial

/-- What is on record stays on record. -/
theorem ServerCall.Change.publicKeyOf_of_some {q : ServerCall} {s s' : ChatServer}
    (h : Change s q s') {u pem : Str} (hu : s.publicKeyOf u = some pem) :
    s'.publicKeyOf u = some pem := by
  by_cases hq : KeyFree (.server q)
  · rw [h.publicKeyOf hq]
    exact hu
  · cases h with
    | nothing => exact hu
    | user v hash k free =>
        have hne : u ≠ v := by
          rintro rfl
          rw [ChatServer.publicKeyOf, AList.lookup_eq_none.mpr free] at hu
          cases hu
        show ((s.users.insert v _).lookup u).map _ = some pem
        rw [AList.lookup_insert_ne hne]
        exact hu
    | _ => exact absurd trivial hq

/-- No action takes a public key off the record. -/
theorem exec_publicKeyOf_of_some (env : Env) (e : Eff) {w : World} {u pem : Str}
    (hu : w.server.publicKeyOf u = some pem) :
    (e.exec env w).2.server.publicKeyOf u = some pem := by
  cases e with
  | server q => exact (q.exec_change w.server).publicKeyOf_of_some hu
  | _ => exact hu

/-- No action takes a user off the record. -/
theorem recorded_subset_exec (env : Env) (e : Eff) (w : World) :
    w.server.recorded ⊆ (e.exec env w).2.server.recorded :=
  fun _ ⟨pem, hu⟩ => ⟨pem, exec_publicKeyOf_of_some env e hu⟩

/-! ### Keeping the invariant -/

variable {h : History} {i : Nat} {J I : History → Prop}

/-- The key invariant, of the state of a run in which the given users are on record at most. -/
def KeysAgree (env : Env) (users : Set Str) (h : History) : Prop :=
  h.1.server.recorded ⊆ users → KeyInv env h.1

/-- If somebody else is on record, a call that tells nothing leaves it so. -/
theorem wp_body_unknown {q : Call} (hq : ¬ q.op.Sends) (hu : ¬ h.1.server.recorded ⊆ users) :
    env.system.wp J I i (q.body env) (fun _ h' => ¬ h'.1.server.recorded ⊆ users) h :=
  wp_of_allActs (K := fun h => ¬ h.1.server.recorded ⊆ users)
    (fun e h' _ hK hsub => hK ((recorded_subset_exec env e h'.1).trans hsub))
    (fun _ _ hn => absurd hn hq) (body_allActs env q) hu

/-- A new user whose files have been written. -/
theorem KeyInv.registered (hw : KeyInv env w) {u : Str} {keyPair : KeyPair}
    (hgen : env.ssl.Generated keyPair)
    (hnew : w'.server.publicKeyOf u = some keyPair.publicKeyPem)
    (hrecord : ∀ v, v ≠ u → w'.server.publicKeyOf v = w.server.publicKeyOf v)
    (hfree : w.server.publicKeyOf u = none)
    (hdisk : OnDisk env w'.disk u keyPair)
    (hfiles : ∀ v keyPair, v ≠ u → v ∈ w.server.recorded →
      OnDisk env w.disk v keyPair → OnDisk env w'.disk v keyPair)
    (hclients : ∀ d, (w'.clients d).loggedIn = true → w'.clients d = w.clients d) :
    KeyInv env w' := by
  refine ⟨fun v pem hv => ?_, fun d hd => ?_⟩
  · rcases eq_or_ne v u with rfl | hne
    · rw [hnew] at hv
      exact ⟨keyPair, hgen, Option.some.inj hv, hdisk⟩
    · rw [hrecord v hne] at hv
      obtain ⟨kp, hkp, hpem, hon⟩ := hw.onRecord v pem hv
      exact ⟨kp, hkp, hpem, hfiles v kp hne ⟨pem, hv⟩ hon⟩
  · have hsame := hclients d hd
    rw [hsame] at hd ⊢
    obtain ⟨hreg, hkp, hpub⟩ := hw.inHand d hd
    refine ⟨hreg, hkp, ?_⟩
    -- whoever is logged in has a record, the new user had none
    have hne : (w.clients d).username ≠ u := by
      intro e
      rw [e, hfree] at hpub
      cases hpub
    rw [hrecord _ hne]
    exact hpub

/-- The files after both halves of a pair have been written. -/
def savedDisk (env : Env) (homeDir u : Str) (keyPair : KeyPair) (disk : Str → Option Str) :
    Str → Option Str := fun file =>
  if file = env.locate (pubKeyPath homeDir u) then some keyPair.publicKeyPem
  else if file = env.locate (privKeyPath homeDir u) then some keyPair.privateKeyPem
  else disk file

theorem onDisk_savedDisk (hfw : env.FilesWork users) {homeDir u : Str} {keyPair : KeyPair}
    {disk : Str → Option Str} (hhome : env.home = some homeDir) (hu : u ∈ users) :
    OnDisk env (savedDisk env homeDir u keyPair disk) u keyPair := by
  intro homeDir' hhome'
  rw [hhome] at hhome'
  cases hhome'
  have hne := (hfw.apart homeDir hhome).halves u hu u hu
  exact ⟨by simp [savedDisk, hne], by simp [savedDisk]⟩

/-- Saving one user's pair leaves the other users' files alone. -/
theorem OnDisk.savedDisk (hfw : env.FilesWork users) {homeDir u v : Str} {keyPair kp : KeyPair}
    {disk : Str → Option Str} (hhome : env.home = some homeDir) (hu : u ∈ users)
    (hv : v ∈ users) (hne : v ≠ u) (hon : OnDisk env disk v kp) :
    OnDisk env (savedDisk env homeDir u keyPair disk) v kp := by
  intro homeDir' hhome'
  obtain ⟨hpriv, hpub⟩ := hon homeDir' hhome'
  rw [hhome] at hhome'
  cases hhome'
  have ha := hfw.apart homeDir hhome
  have h1 := ha.halves v hv u hu
  have h2 := ha.privKeys v hv u hu hne
  have h3 := ha.pubKeys v hv u hu hne
  have h4 := (ha.halves u hu v hv).symm
  exact ⟨by simp [Evlampy.savedDisk, h1, h2, hpriv], by simp [Evlampy.savedDisk, h3, h4, hpub]⟩

/-- Saving the keys changes the files only, and writes both. -/
theorem wp_saveKeyPairToDisk (hfw : env.FilesWork users) {post : Except Exn Unit → History → Prop}
    (hpost : ∀ h' : History, h'.1.server = h.1.server → h'.1.clients = h.1.clients →
      (∀ homeDir, env.home = some homeDir → h'.1.disk = savedDisk env homeDir
        (h.1.clients c).username (h.1.clients c).keyPair h.1.disk) →
      (env.home = none → h'.1.disk = h.1.disk) → post (.ok ()) h') :
    env.system.wp J I i (saveKeyPairToDisk env c) post h := by
  unfold saveKeyPairToDisk
  cases hhome : env.home with
  | none =>
      apply hpost h rfl rfl
      · intro homeDir e
        rw [hhome] at e
        cases e
      · exact fun _ => rfl
  | some homeDir =>
      refine wp_act_bind.mpr ?_
      have hcreated : (env.system.exec (Eff.file (.createDirectories (keysDir homeDir))) h.1).1
          = true := hfw.createDirectories _ _
      rw [hcreated]
      refine wp_act_bind.mpr (wp_act_bind.mpr (wp_act.mpr ?_))
      apply hpost
      · rfl
      · rfl
      · intro homeDir' hhome'
        rw [hhome] at hhome'
        cases hhome'
        show (FileCall.exec env (h.1.draws + 1 + 1) _ (FileCall.exec env (h.1.draws + 1) _ _).2).2 = _
        simp only [FileCall.exec, hfw.write]
        rfl
      · intro e
        rw [hhome] at e
        cases e

/-- Whatever is assigned to a client that is logged out, and stays so, no key is
affected. -/
theorem KeyInv.assign (hw : KeyInv env w) {u : Update}
    (hout : (u.apply (w.clients c)).loggedIn = false) : KeyInv env (w.assign c u) := by
  refine ⟨hw.onRecord, fun d hd => ?_⟩
  rcases eq_or_ne d c with rfl | hne
  · rw [World.assign_self, hout] at hd
    cases hd
  · rw [World.assign_ne w hne] at hd ⊢
    exact hw.inHand d hd

/-- A client that is logged out, with its name and the pair in its memory. -/
structure LoggedOut (env : Env) (c : ClientId) (name : Str) (w : World) : Prop where
  inv : KeyInv env w
  loggedIn : (w.clients c).loggedIn = false
  username : (w.clients c).username = name

theorem LoggedOut.congr {name : Str} (hw : LoggedOut env c name w) (same : SameKeys w w') :
    LoggedOut env c name w' :=
  ⟨hw.inv.congr same, (same.loggedIn c).trans hw.loggedIn, (same.username c).trans hw.username⟩

/-- The updates `registerOnServer` and `login` make before a client is logged in. -/
def Update.Preparatory : Update → Prop
  | .loggedIn _ => False
  | _ => True

theorem LoggedOut.assign {name : Str} (hw : LoggedOut env c name w) {u : Update}
    (hu : u.Preparatory) : LoggedOut env c name (w.assign c u) := by
  have happly : (u.apply (w.clients c)).loggedIn = (w.clients c).loggedIn ∧
      (u.apply (w.clients c)).username = (w.clients c).username := by
    cases u with
    | loggedIn b => exact hu.elim
    | _ => exact ⟨rfl, rfl⟩
  refine ⟨hw.inv.assign (happly.1.trans hw.loggedIn), ?_, ?_⟩
  · rw [World.assign_self, happly.1]
    exact hw.loggedIn
  · rw [World.assign_self, happly.2]
    exact hw.username

/-- Registering a new name and saving its pair keeps the invariant. -/
theorem LoggedOut.registered (hfw : env.FilesWork users) {name passwordHash : Str}
    {keyPair : KeyPair} (hw : LoggedOut env c name w) (hgen : env.ssl.Generated keyPair)
    (hsub : w'.server.recorded ⊆ users)
    (hfree : name ∉ w.server.users)
    (husers : w'.server.users
      = w.server.users.insert name ⟨passwordHash, keyPair.publicKeyPem, ∅⟩)
    (hclients : w'.clients = (w.assign c (.registered true)).clients)
    (hdisk : ∀ homeDir, env.home = some homeDir →
      w'.disk = savedDisk env homeDir name keyPair w.disk) : KeyInv env w' := by
  have hnew : w'.server.publicKeyOf name = some keyPair.publicKeyPem := by
    rw [ChatServer.publicKeyOf, husers, AList.lookup_insert]
    rfl
  have hrecord : ∀ v, v ≠ name → w'.server.publicKeyOf v = w.server.publicKeyOf v := by
    intro v hne
    rw [ChatServer.publicKeyOf, husers, AList.lookup_insert_ne hne]
    rfl
  have hname : name ∈ users := hsub ⟨_, hnew⟩
  refine hw.inv.registered hgen hnew hrecord ?_ ?_ ?_ ?_
  · rw [ChatServer.publicKeyOf, AList.lookup_eq_none.mpr hfree]
    rfl
  · intro homeDir hhome
    rw [hdisk homeDir hhome]
    exact onDisk_savedDisk hfw hhome hname homeDir hhome
  · rintro v kp hne ⟨pem, hv⟩ hon homeDir hhome
    rw [hdisk homeDir hhome]
    have hother : v ∈ users := hsub ⟨pem, (hrecord v hne).trans hv⟩
    exact hon.savedDisk hfw hhome hname hother hne homeDir hhome
  · intro d hd
    rw [hclients] at hd ⊢
    have hne : d ≠ c := by
      rintro rfl
      rw [(hw.assign (u := .registered true) trivial).loggedIn] at hd
      cases hd
    exact World.assign_ne w hne _

theorem wp_registerOnServer (hfw : env.FilesWork users) (rawPassword : Str) (hI : KeyInv env h.1) :
    env.system.wp J I i (registerOnServer env c rawPassword) (fun _ h => KeysAgree env users h)
      h := by
  refine wp_step fun self h1 hself hh1 => ?_
  obtain rfl : self = h.1.clients c := hself
  subst hh1
  split
  · exact fun _ => hI
  · next hreg =>
      -- a client that is not registered is not logged in
      have hout : (h.1.clients c).loggedIn = false := by
        by_contra hlog
        exact hreg (hI.inHand c (Bool.eq_true_of_not_eq_false hlog)).1
      have hw0 : LoggedOut env c (h.1.clients c).username h.1 := ⟨hI, hout, rfl⟩
      refine wp_step fun n h2 hn hh2 => ?_
      have hw2 : LoggedOut env c (h.1.clients c).username h2.1 := by
        rw [hh2]
        exact hw0.congr (sameKeys_exec env (e := Eff.draw 2) trivial h.1)
      refine wp_ofExcept_bind ?_ fun _ _ _ => hw2.inv
      intro keyPair hgen
      refine wp_step fun _ h3 _ hh3 => ?_
      have hw3 : LoggedOut env c (h.1.clients c).username h3.1 := by
        rw [hh3]
        exact hw2.assign (u := .keyPair keyPair) trivial
      have hpair : (h3.1.clients c).keyPair = keyPair := by
        rw [hh3]
        exact congrArg ChatClient.keyPair (World.assign_self h2.1 c (.keyPair keyPair))
      refine wp_ofExcept_bind ?_ fun _ _ _ => hw3.inv
      intro passwordHash _
      clear hh2 hh3
      refine wp_step fun registered h4 hregistered hh4 => ?_
      refine wp_step fun _ h5 _ hh5 => ?_
      by_cases hmem : (h.1.clients c).username ∈ h3.1.server.users
      · -- the name is taken, and the client keeps a pair that is nobody's
        have hfail : h3.1.server.registerUser (h.1.clients c).username passwordHash
            keyPair.publicKeyPem = (false, h3.1.server) := by
          rw [ChatServer.registerUser, if_pos hmem]
        have hw4 : LoggedOut env c (h.1.clients c).username h4.1 := by
          rw [hh4]
          refine hw3.congr { SameKeys.rfl with publicKeyOf := fun u => ?_ }
          show (h3.1.server.registerUser (h.1.clients c).username passwordHash
            keyPair.publicKeyPem).2.publicKeyOf u = _
          rw [hfail]
        have hw5 : LoggedOut env c (h.1.clients c).username h5.1 := by
          rw [hh5]
          exact hw4.assign (u := .registered registered) trivial
        obtain rfl : registered = false := hregistered.trans (congrArg Prod.fst hfail)
        exact fun _ => hw5.inv
      · have hok : h3.1.server.registerUser (h.1.clients c).username passwordHash
            keyPair.publicKeyPem = (true,
              { h3.1.server with
                users := h3.1.server.users.insert (h.1.clients c).username
                  ⟨passwordHash, keyPair.publicKeyPem, ∅⟩ }) := by
          rw [ChatServer.registerUser, if_neg hmem]
        obtain rfl : registered = true := hregistered.trans (congrArg Prod.fst hok)
        have husers5 : h5.1.server.users = h3.1.server.users.insert
            (h.1.clients c).username ⟨passwordHash, keyPair.publicKeyPem, ∅⟩ := by
          rw [hh5, hh4]
          exact congrArg (fun r => r.2.users) hok
        have hclients5 : h5.1.clients = (h3.1.assign c (.registered true)).clients := by
          rw [hh5, hh4]
          rfl
        have hdisk5 : h5.1.disk = h3.1.disk := by
          rw [hh5, hh4]
          rfl
        refine wp_bind.mpr (wp_saveKeyPairToDisk hfw fun h6 hserver6 hclients6 hsome _ hsub => ?_)
        have husers6 := (congrArg ChatServer.users hserver6).trans husers5
        refine hw3.registered hfw ⟨_, hgen⟩ hsub hmem husers6 (hclients6.trans hclients5) ?_
        rw [hclients5, World.assign_self, hdisk5] at hsome
        have hname : ((Update.registered true).apply (h3.1.clients c)).username
            = (h.1.clients c).username := hw3.username
        have hkept : ((Update.registered true).apply (h3.1.clients c)).keyPair = keyPair := hpair
        rw [hname, hkept] at hsome
        exact hsome

/-- A client about to log in: it holds the pair on record. -/
structure Loaded (env : Env) (c : ClientId) (name : Str) (keyPair : KeyPair) (w : World) :
    Prop where
  out : LoggedOut env c name w
  generated : env.ssl.Generated keyPair
  onRecord : w.server.publicKeyOf name = some keyPair.publicKeyPem
  inHand : (w.clients c).keyPair = keyPair

theorem Loaded.congr {name : Str} {keyPair : KeyPair} (hw : Loaded env c name keyPair w)
    (same : SameKeys w w') : Loaded env c name keyPair w' :=
  ⟨hw.out.congr same, hw.generated, (same.publicKeyOf name).trans hw.onRecord,
    (same.keyPair c).trans hw.inHand⟩

/-- With the pair in hand, the client may be logged in. -/
theorem Loaded.loggedIn {name : Str} {keyPair : KeyPair} (hw : Loaded env c name keyPair w) :
    KeyInv env ((w.assign c (.loggedIn true)).assign c (.registered true)) := by
  refine ⟨hw.out.inv.onRecord, fun d hd => ?_⟩
  rcases eq_or_ne d c with rfl | hne
  · have hself : ((w.assign d (.loggedIn true)).assign d (.registered true)).clients d
        = { w.clients d with loggedIn := true, registered := true } := by
      simp [World.assign, Update.apply]
    rw [hself]
    refine ⟨rfl, ?_, ?_⟩
    · rw [hw.inHand]
      exact hw.generated
    · rw [hw.inHand, hw.out.username]
      exact hw.onRecord
  · have hother : ((w.assign c (.loggedIn true)).assign c (.registered true)).clients d
        = w.clients d := by
      simp [World.assign, hne]
    rw [hother] at hd ⊢
    exact hw.out.inv.inHand d hd

/-- A client about to load a pair from its user's files. -/
structure Loading (env : Env) (c : ClientId) (name : Str) (keyPair : KeyPair) (w : World) :
    Prop where
  out : LoggedOut env c name w
  onRecord : w.server.publicKeyOf name = some keyPair.publicKeyPem
  onDisk : OnDisk env w.disk name keyPair

theorem Loading.congr {name : Str} {keyPair : KeyPair} (hw : Loading env c name keyPair w)
    (same : SameKeys w w') : Loading env c name keyPair w' := by
  refine ⟨hw.out.congr same, (same.publicKeyOf name).trans hw.onRecord, ?_⟩
  rw [same.disk]
  exact hw.onDisk

theorem Loading.assign {name : Str} {keyPair : KeyPair} (hw : Loading env c name keyPair w)
    {u : Update} (hu : u.Preparatory) : Loading env c name keyPair (w.assign c u) :=
  ⟨hw.out.assign hu, hw.onRecord, hw.onDisk⟩

/-- Loading gives a registered user the pair on record, or fails. -/
theorem wp_loadKeyPairFromDisk (hfw : env.FilesWork users) {name : Str} {keyPair : KeyPair}
    (hw : LoggedOut env c name h.1) (hgen : env.ssl.Generated keyPair)
    (hrecord : h.1.server.publicKeyOf name = some keyPair.publicKeyPem)
    (hon : OnDisk env h.1.disk name keyPair) :
    env.system.wp J I i (loadKeyPairFromDisk env c)
      (fun r h' => LoggedOut env c name h'.1 ∧ (r = .ok true → Loaded env c name keyPair h'.1))
      h := by
  have hw0 : Loading env c name keyPair h.1 := ⟨hw, hrecord, hon⟩
  unfold loadKeyPairFromDisk
  cases hhome : env.home with
  | none => exact ⟨hw, fun e => by cases e⟩
  | some homeDir =>
      refine wp_step fun self h1 hself hh1 => ?_
      obtain rfl : self = h.1.clients c := hself
      subst hh1
      rw [hw.username]
      refine wp_step fun priv h2 hread hh2 => ?_
      have hw2 : Loading env c name keyPair h2.1 := by
        rw [hh2]
        exact hw0.congr (sameKeys_exec env (e := Eff.file (.read _)) trivial h.1)
      obtain rfl : priv = some keyPair.privateKeyPem := by
        rw [hread]
        show env.read h.1.draws _ (h.1.disk _) = _
        rw [(hon homeDir hhome).1, hfw.read]
      clear hh2
      refine wp_step fun _ h3 _ hh3 => ?_
      have hw3 : Loading env c name keyPair h3.1 := by
        rw [hh3]
        exact hw2.assign (u := .privateKeyPem keyPair.privateKeyPem) trivial
      have hpriv3 : (h3.1.clients c).keyPair.privateKeyPem = keyPair.privateKeyPem := by
        rw [hh3]
        exact congrArg (fun self => self.keyPair.privateKeyPem) (World.assign_self h2.1 c _)
      clear hh3
      refine wp_step fun pub h4 hread hh4 => ?_
      -- reading the second file changes neither the files nor the half in memory
      have hsame4 : SameKeys h3.1 h4.1 := by
        rw [hh4]
        exact sameKeys_exec env (e := Eff.file (.read _)) trivial h3.1
      have hw4 := hw3.congr hsame4
      obtain rfl : pub = some keyPair.publicKeyPem := by
        rw [hread]
        show env.read h3.1.draws _ (h3.1.disk _) = _
        rw [(hw3.onDisk homeDir hhome).2, hfw.read]
      clear hh4
      refine wp_step fun _ h5 _ hh5 => ?_
      have hw5 : Loading env c name keyPair h5.1 := by
        rw [hh5]
        exact hw4.assign (u := .publicKeyPem keyPair.publicKeyPem) trivial
      have hpair5 : (h5.1.clients c).keyPair = keyPair := by
        -- the public half is new, the private half was read before
        rw [hh5]
        refine (congrArg ChatClient.keyPair (World.assign_self h4.1 c _)).trans ?_
        show (⟨keyPair.publicKeyPem, (h4.1.clients c).keyPair.privateKeyPem⟩ : KeyPair) = keyPair
        rw [hsame4.keyPair, hpriv3]
      exact ⟨hw5.out, fun _ => ⟨hw5.out, hgen, hw5.onRecord, hpair5⟩⟩

theorem connect_keyFree (c : ClientId) (name : Str) :
    (connect c name).AllActs KeyFree (fun _ => False) := by
  refine .act_bind trivial fun self => ?_
  split
  · trivial
  · refine .act_bind trivial fun ok => ?_
    cases ok with
    | false => trivial
    | true => exact .act_bind trivial fun _ => trivial

theorem disconnect_keyFree (c : ClientId) : (disconnect c).AllActs KeyFree (fun _ => False) := by
  refine .act_bind trivial fun self => ?_
  split
  · exact .act_bind trivial fun _ => allActs_act.mpr trivial
  · trivial

theorem lookup_registerUser_of_true {s : ChatServer} {u passwordHash pem : Str}
    (hok : (s.registerUser u passwordHash pem).1 = true) :
    (s.registerUser u passwordHash pem).2.users.lookup u = some ⟨passwordHash, pem, ∅⟩ := by
  unfold ChatServer.registerUser at hok ⊢
  split at hok
  · cases hok
  · next hfree =>
    rw [if_neg hfree]
    exact AList.lookup_insert _

theorem publicKeyOf_of_authenticate {s : ChatServer} {u hash : Str}
    (hok : s.authenticate u hash = true) : ∃ pem, s.publicKeyOf u = some pem := by
  unfold ChatServer.authenticate at hok
  split at hok
  · cases hok
  · next record hrecord =>
    exact ⟨record.publicKeyPem, by rw [ChatServer.publicKeyOf, hrecord]; rfl⟩

theorem wp_login_keys (hfw : env.FilesWork users) (rawPassword : Str) (hI : KeyInv env h.1) :
    env.system.wp J I i (login env c rawPassword) (fun _ h => KeyInv env h.1) h := by
  refine wp_step fun self h1 hself hh1 => ?_
  obtain rfl : self = h.1.clients c := hself
  subst hh1
  split
  · exact hI
  · next hlog =>
    have hw0 : LoggedOut env c (h.1.clients c).username h.1 := ⟨hI, Bool.eq_false_iff.mpr hlog, rfl⟩
    refine wp_step fun n h2 hn hh2 => ?_
    have hw2 : LoggedOut env c (h.1.clients c).username h2.1 := by
      rw [hh2]
      exact hw0.congr (sameKeys_exec env (e := Eff.draw 1) trivial h.1)
    refine wp_ofExcept_bind ?_ fun _ _ => hw2.inv
    intro passwordHash _
    clear hh2
    refine wp_step fun authenticated h3 hauth hh3 => ?_
    have hw3 : LoggedOut env c (h.1.clients c).username h3.1 := by
      rw [hh3]
      exact hw2.congr (sameKeys_exec env (e := Eff.server (.authenticate _ _)) trivial h2.1)
    have hserver3 : h3.1.server = h2.1.server := by
      rw [hh3]
      rfl
    split
    · next hyes =>
      obtain ⟨pem, hpem⟩ := publicKeyOf_of_authenticate (hauth.symm.trans hyes)
      rw [← hserver3] at hpem
      -- the name is registered, so its files hold the pair on record
      obtain ⟨keyPair, hgen, rfl, hon⟩ := hw3.inv.onRecord _ _ hpem
      refine wp_bind.mpr (wp_mono (fun r h4 hr => ?_)
        (wp_loadKeyPairFromDisk hfw hw3 hgen hpem hon))
      rcases r with x | loaded
      · exact hr.1.inv
      · cases loaded with
        | false => exact hr.1.inv
        | true =>
            have hloaded := hr.2 rfl
            refine wp_bind.mpr (wp_mono (fun r h5 hr => ?_) (wp_of_allActs
              (K := fun h' : History => Loaded env c (h.1.clients c).username keyPair h'.1)
              ?_ ?_ (connect_keyFree c _) hloaded))
            · rcases r with x | connected
              · exact hr.out.inv
              · cases connected with
                | false => exact hr.out.inv.assign (u := .loggedIn false) rfl
                | true => exact hr.loggedIn
            · intro e h' he hK
              exact hK.congr (sameKeys_exec env he h'.1)
            · exact fun n h' hn => hn.elim
    · exact hw3.inv

theorem wp_logout_keys (hI : KeyInv env h.1) :
    env.system.wp J I i (logout c) (fun _ h => KeyInv env h.1) h := by
  refine wp_bind.mpr (wp_mono (fun r h' hK => ?_) (wp_of_allActs
    (K := fun h => KeyInv env h.1) ?_ ?_ (disconnect_keyFree c) hI))
  · rcases r with x | _
    · exact hK
    · exact hK.assign (u := .loggedIn false) rfl
  · intro e h' he hK
    exact hK.congr (sameKeys_exec env he h'.1)
  · exact fun n h' hn => hn.elim

/-- Keys agree as long as nobody but the given users is on record. -/
theorem keysAgree_run (hfw : env.FilesWork users) (names : ClientId → Str)
    (disk : Str → Option Str) (ms : List (Move Exn Call)) :
    KeysAgree env users (env.run names disk ms).hist := by
  refine (run_invariant env.system (J := fun _ => True) (I := KeysAgree env users)
    (fun _ => trivial) (fun _ => keyInv_initial env names disk) ?_ ms).1
  intro q h i _ hI _
  by_cases hsends : q.op.Sends
  · refine wp_mono (fun r h' hK => hK) (wp_of_allActs (K := KeysAgree env users) ?_ ?_
      (body_allActs env q) hI)
    · intro e h' he hK hsub
      have hfree : KeyFree e := by
        obtain ⟨c, op⟩ := q
        cases op <;> first | exact hsends.elim | exact keyFree_of_sendActs he
      exact (hK ((recorded_subset_exec env e h'.1).trans hsub)).congr (sameKeys_exec env hfree h'.1)
    · exact fun n h' _ hK => ⟨hK, fun _ h' _ hI' _ => hI'⟩
  by_cases hknown : h.1.server.recorded ⊆ users
  · have hinv : KeyInv env h.1 := hI hknown
    obtain ⟨c, op⟩ := q
    by_cases hregister : ∃ p, op = .registerOnServer p
    · obtain ⟨p, rfl⟩ := hregister
      exact wp_map (fun _ _ hK => hK) (wp_registerOnServer hfw p hinv)
    by_cases hlogin : ∃ p, op = .login p
    · obtain ⟨p, rfl⟩ := hlogin
      exact wp_map (fun _ _ hK _ => hK) (wp_login_keys hfw p hinv)
    by_cases hlogout : op = .logout
    · cases hlogout
      exact wp_map (fun _ _ hK _ => hK) (wp_logout_keys hinv)
    refine wp_mono (fun r h' hK => ?_) (wp_of_allActs (K := fun h => KeyInv env h.1) ?_ ?_
      (body_allActs env ⟨c, op⟩) hinv)
    · exact fun _ => hK
    · intro e h' he hK
      have hfree := keyFree_of_footprint (fun p hp => hregister ⟨p, hp⟩)
        (fun p hp => hlogin ⟨p, hp⟩) hlogout he
      exact hK.congr (sameKeys_exec env hfree h'.1)
    · exact fun n h' hn => absurd hn hsends
  · -- the call cannot take the others off the record
    exact wp_mono (fun r h' hK hsub => absurd hsub hK) (wp_body_unknown hsends hknown)

/-- **Keys agree**, in every state of every run in which file operations work. -/
theorem keyInv_run (names : ClientId → Str) (disk : Str → Option Str) (ms : List (Move Exn Call))
    (hfw : env.FilesWork (env.run names disk ms).hist.1.server.recorded) :
    KeyInv env (env.run names disk ms).hist.1 :=
  keysAgree_run hfw names disk ms (Set.Subset.refl _)

end Evlampy
