/-
Evlampy/Registration.lean

What a registration leaves behind.  The server has made the account before the
key pair is saved, and saving reports no failure: without `HOME`, without the
directory, or if a file cannot be opened or written in full, `registerOnServer`
returns true all the same, and the account has no key files to log in with.
`registration_usable_iff` says exactly when the pair is saved, and that then
every later `login` with the password succeeds, as long as the files stay and
nobody else is connected under the name.
-/
import Evlampy.Passwords

namespace Evlampy

open Cxx Callback Prog System ChatServer ChatClient OpenSSLKeyFactory

variable {env : Env} {h : History} {i n : Nat} {c d : ClientId} {w w' : World} {u p : Str}
  {keyPair : KeyPair} {files : Str → Option Str} {cfg : Configuration}

/-! ### Saving a pair -/

/-- What a file holds after an attempt to write a text to it. -/
def Env.attempt (env : Env) (n : Nat) (path text : Str) (contents : Option Str) : Option Str :=
  (env.write n path text).or contents

/-- The files after an attempt to write. -/
theorem exec_write_snd (env : Env) (n : Nat) (path text : Str) (files : Str → Option Str)
    (file : Str) : (FileCall.exec env n (.write path text) files).2 file
      = if file = env.locate path then env.attempt n path text (files file) else files file := by
  rcases hwrite : env.write n path text with - | contents
  · have hattempt : env.attempt n path text (files file) = files file := by
      rw [Env.attempt, hwrite]
      rfl
    rw [hattempt, ite_self]
    simp only [FileCall.exec, hwrite]
  · have hattempt : env.attempt n path text (files file) = some contents := by
      rw [Env.attempt, hwrite]
      rfl
    rw [hattempt]
    simp only [FileCall.exec, hwrite]

/-- The files after `saveKeyPairToDisk`, which begins with the number `n`. -/
def Env.afterSave (env : Env) (n : Nat) (u : Str) (keyPair : KeyPair) (files : Str → Option Str) :
    Str → Option Str :=
  match env.home with
  | none => files
  | some homeDir =>
      if env.createDirectories n (keysDir homeDir) then
        (FileCall.exec env (n + 2) (.write (pubKeyPath homeDir u) keyPair.publicKeyPem)
          (FileCall.exec env (n + 1) (.write (privKeyPath homeDir u) keyPair.privateKeyPem)
            files).2).2
      else files

theorem wp_saveKeyPairToDisk_any {J I : History → Prop} {post : Except Exn Unit → History → Prop}
    (hpost : ∀ h' : History, h'.1.server = h.1.server → h'.1.clients = h.1.clients →
      h'.1.disk = env.afterSave h.1.draws (h.1.clients c).username (h.1.clients c).keyPair h.1.disk →
      post (.ok ()) h') :
    env.system.wp J I i (saveKeyPairToDisk env c) post h := by
  unfold saveKeyPairToDisk
  unfold Env.afterSave at hpost
  cases hhome : env.home with
  | none =>
      simp only [hhome] at hpost
      exact hpost h rfl rfl rfl
  | some homeDir =>
      simp only [hhome] at hpost
      refine wp_step fun created h1 hcreated hh1 => ?_
      replace hcreated : created = env.createDirectories h.1.draws (keysDir homeDir) := hcreated
      rw [← hcreated] at hpost
      subst hh1
      cases created with
      | false => exact hpost _ rfl rfl rfl
      | true =>
          refine wp_step fun self h2 hself hh2 => ?_
          obtain rfl : self = h.1.clients c := hself
          subst hh2
          exact wp_step fun _ h3 _ hh3 => wp_act.mpr (by subst hh3; exact hpost _ rfl rfl rfl)

/-- A pair is left in the files of its user: the attempts to write have worked,
or the files held the pair before. -/
def Env.Saves (env : Env) (n : Nat) (u : Str) (keyPair : KeyPair) (files : Str → Option Str) :
    Prop :=
  ∃ homeDir, env.home = some homeDir ∧
    let privPath := privKeyPath homeDir u
    let pubPath := pubKeyPath homeDir u
    if env.createDirectories n (keysDir homeDir) then
      if env.locate privPath = env.locate pubPath then
        -- one file for both halves, which holds what is written last
        keyPair.privateKeyPem = keyPair.publicKeyPem ∧
          env.attempt (n + 2) pubPath keyPair.publicKeyPem
            (env.attempt (n + 1) privPath keyPair.privateKeyPem (files (env.locate privPath)))
              = some keyPair.publicKeyPem
      else
        env.attempt (n + 1) privPath keyPair.privateKeyPem (files (env.locate privPath))
            = some keyPair.privateKeyPem ∧
          env.attempt (n + 2) pubPath keyPair.publicKeyPem (files (env.locate pubPath))
            = some keyPair.publicKeyPem
    else
      files (env.locate privPath) = some keyPair.privateKeyPem ∧
        files (env.locate pubPath) = some keyPair.publicKeyPem

/-- The key files of `u` exist and hold the pair. -/
def Saved (env : Env) (files : Str → Option Str) (u : Str) (keyPair : KeyPair) : Prop :=
  ∃ homeDir, env.home = some homeDir ∧
    files (env.locate (privKeyPath homeDir u)) = some keyPair.privateKeyPem ∧
    files (env.locate (pubKeyPath homeDir u)) = some keyPair.publicKeyPem

theorem saved_afterSave_iff : Saved env (env.afterSave n u keyPair files) u keyPair ↔
    env.Saves n u keyPair files := by
  refine exists_congr fun homeDir => and_congr_right fun hhome => ?_
  unfold Env.afterSave
  simp only [hhome]
  by_cases hcreated : env.createDirectories n (keysDir homeDir) = true
  · simp only [hcreated, if_true, exec_write_snd]
    by_cases hsame : env.locate (privKeyPath homeDir u) = env.locate (pubKeyPath homeDir u)
    · simp only [hsame, if_true]
      constructor
      · rintro ⟨hpriv, hpub⟩
        exact ⟨Option.some.inj (hpriv.symm.trans hpub), hpub⟩
      · rintro ⟨heq, hpub⟩
        exact ⟨hpub.trans (congrArg some heq.symm), hpub⟩
    · simp only [if_neg hsame, if_neg (Ne.symm hsame)]
  · simp only [if_neg hcreated]

/-! ### Registering -/

/-- A registration of the client `c` with the password `p`, from the world `w` to
the world `w'`, that has returned true. -/
structure Registered (env : Env) (c : ClientId) (p : Str) (w : World) (keyPair : KeyPair)
    (w' : World) : Prop where
  generated : generateRsaKeyPair env.ssl w.draws 2048 = .ok keyPair
  right : RightPassword env w'.server (w.clients c).username (w.draws + 1) p
  onRecord : w'.server.publicKeyOf (w.clients c).username = some keyPair.publicKeyPem
  inHand : (w'.clients c).keyPair = keyPair
  disk : w'.disk = env.afterSave (w.draws + 2) (w.clients c).username keyPair w.disk

/-- What `registerOnServer` does to the files: it saves the pair it has registered,
or nothing. -/
theorem wp_registerOnServer_disk {J I : History → Prop} (rawPassword : Str) :
    env.system.wp J I i (registerOnServer env c rawPassword)
      (fun r h' => (r ≠ .ok true ∧ h'.1.disk = h.1.disk) ∨
        (r = .ok true ∧ ∃ keyPair, Registered env c rawPassword h.1 keyPair h'.1)) h := by
  refine wp_step fun self h1 hself hh1 => ?_
  obtain rfl : self = h.1.clients c := hself
  subst hh1
  split
  · exact Or.inl ⟨(fun e => by cases e), rfl⟩
  · refine wp_step fun n h2 hn hh2 => ?_
    obtain rfl : n = h.1.draws := hn
    have hdisk2 : h2.1.disk = h.1.disk := by
      rw [hh2]
      rfl
    refine wp_ofExcept_bind ?_ fun _ _ => Or.inl ⟨(fun e => by cases e), hdisk2⟩
    intro keyPair hgen
    refine wp_step fun _ h3 _ hh3 => ?_
    have hdisk3 : h3.1.disk = h.1.disk := by
      rw [hh3]
      exact hdisk2
    refine wp_ofExcept_bind ?_ fun _ _ => Or.inl ⟨(fun e => by cases e), hdisk3⟩
    intro passwordHash hhash
    refine wp_step fun registered h4 hregistered hh4 => ?_
    refine wp_step fun _ h5 _ hh5 => ?_
    have hdisk5 : h5.1.disk = h.1.disk := by
      rw [hh5, hh4]
      exact hdisk3
    cases registered with
    | false => exact Or.inl ⟨(fun e => by cases e), hdisk5⟩
    | true =>
        have hself5 : h5.1.clients c
            = { h.1.clients c with keyPair := keyPair, registered := true } := by
          rw [hh5]
          refine (World.assign_self _ c _).trans ?_
          rw [hh4]
          show ({ h3.1.clients c with registered := true } : ChatClient) = _
          rw [hh3]
          show ({ (h2.1.assign c (.keyPair keyPair)).clients c with registered := true } :
            ChatClient) = _
          rw [World.assign_self, hh2]
          rfl
        have hdraws5 : h5.1.draws = h.1.draws + 2 := by
          rw [hh5, hh4, hh3, hh2]
          rfl
        -- the server has made the account
        have hlookup : h5.1.server.users.lookup (h.1.clients c).username
            = some ⟨passwordHash, keyPair.publicKeyPem, ∅⟩ := by
          rw [hh5, hh4]
          exact lookup_registerUser_of_true hregistered.symm
        refine wp_bind.mpr (wp_saveKeyPairToDisk_any fun h6 hserver6 hclients6 hdisk6 => ?_)
        refine Or.inr ⟨rfl, keyPair, hgen, ?_, ?_, ?_, ?_⟩
        · rw [hserver6]
          exact ⟨_, hlookup, hhash⟩
        · rw [hserver6, ChatServer.publicKeyOf, hlookup]
          rfl
        · rw [hclients6, hself5]
        · rw [hdisk6, hself5, hdraws5, hdisk5]

/-- One registration, as a move of a run. -/
theorem step_registerOnServer (env : Env) (cfg : Configuration) (c : ClientId) (p : Str) :
    let cfg' := env.system.step cfg (.call ⟨c, .registerOnServer p⟩)
    (resultOf cfg'.hist ≠ some (.bool true) ∧ cfg'.hist.1.disk = cfg.hist.1.disk) ∨
      (resultOf cfg'.hist = some (.bool true) ∧
        ∃ keyPair, Registered env c p cfg.hist.1 keyPair cfg'.hist.1) := by
  obtain ⟨r, h', hpost, hworld, hresult⟩ := step_of_wp_bool env cfg
    (J := fun _ => True) (q := ⟨c, .registerOnServer p⟩) rfl (wp_registerOnServer_disk p)
  simp only [hworld, hresult, ne_eq]
  exact hpost

/-! ### Logging in later -/

/-- What logging in relies on: files that exist can be read, and the digest of a
text does not depend on when it is computed. -/
structure Env.LoginsWork (env : Env) : Prop where
  read : ∀ n path text, env.read n path (some text) = some text
  sha256 : ∀ n n' text, env.ssl.sha256 n text = env.ssl.sha256 n' text

theorem hashPassword_eq (hlw : env.LoginsWork) (n n' : Nat) (p : Str) :
    hashPassword env n p = hashPassword env n' p := by
  rw [hashPassword, hashPassword, hlw.sha256 n n']

/-- Loading succeeds where the files exist. -/
theorem wp_loadKeyPairFromDisk_ok {J I : History → Prop} (hlw : env.LoginsWork)
    (hsaved : Saved env h.1.disk (h.1.clients c).username keyPair)
    {post : Except Exn Bool → History → Prop}
    (hpost : ∀ h' : History, h'.1.server = h.1.server →
      (h'.1.clients c).transport = (h.1.clients c).transport → post (.ok true) h') :
    env.system.wp J I i (loadKeyPairFromDisk env c) post h := by
  obtain ⟨homeDir, hhome, hpriv, hpub⟩ := hsaved
  unfold loadKeyPairFromDisk
  simp only [hhome]
  refine wp_step fun self h1 hself hh1 => ?_
  obtain rfl : self = h.1.clients c := hself
  subst hh1
  refine wp_step fun priv h2 hread hh2 => ?_
  -- the disk still holds what was saved, so each read finds it
  obtain rfl : priv = some keyPair.privateKeyPem := by
    rw [hread]
    show env.read h.1.draws _ (h.1.disk _) = _
    rw [hpriv, hlw.read]
  refine wp_step fun _ h3 _ hh3 => ?_
  refine wp_step fun pub h4 hread hh4 => ?_
  obtain rfl : pub = some keyPair.publicKeyPem := by
    rw [hread, hh3, hh2]
    show env.read (h.1.draws + 1) _ (h.1.disk _) = _
    rw [hpub, hlw.read]
  refine wp_step fun _ h5 _ hh5 => ?_
  refine hpost h5 ?_ ?_
  · rw [hh5, hh4, hh3, hh2]
    rfl
  -- assigning a key leaves the transport of the client
  · have hassign : ∀ (v : World) (pem : Str),
        ((v.assign c (.privateKeyPem pem)).clients c).transport = (v.clients c).transport ∧
        ((v.assign c (.publicKeyPem pem)).clients c).transport = (v.clients c).transport := by
      intro v pem
      rw [World.assign_self, World.assign_self]
      exact ⟨rfl, rfl⟩
    rw [hh5]
    refine (hassign h4.1 _).2.trans ?_
    rw [hh4]
    show (h3.1.clients c).transport = _
    rw [hh3]
    refine (hassign h2.1 _).1.trans ?_
    rw [hh2]
    rfl

/-- **Logging in succeeds** with the right password and key files, where nobody
else is connected under the name. -/
theorem wp_login_ok {J I : History → Prop} (hlw : env.LoginsWork) (hsessions : SessionInv h.1)
    (hright : RightPassword env h.1.server (h.1.clients c).username n p)
    (hsaved : Saved env h.1.disk (h.1.clients c).username keyPair)
    (hnobody : ∀ d, h.1.server.transport.handlers.lookup (h.1.clients c).username = some d → d = c) :
    env.system.wp J I i (login env c p) (fun r _ => r = .ok true) h := by
  refine wp_step fun self h1 hself hh1 => ?_
  obtain rfl : self = h.1.clients c := hself
  subst hh1
  split
  · rfl
  · next hlog =>
    have hconnected : (h.1.clients c).transport.connected = false :=
      (hsessions.connected c).symm.trans (Bool.eq_false_iff.mpr hlog)
    -- an entry would be the client's own, but it is logged out
    have hfree : (h.1.clients c).username ∉ h.1.server.transport.handlers := by
      intro hmem
      obtain ⟨d, hd⟩ := Option.isSome_iff_exists.mp (AList.lookup_isSome.mpr hmem)
      obtain rfl := hnobody d hd
      exact hlog ((hsessions.handler _ d).mp hd).1
    obtain ⟨passwordHash, hrecord, hhash⟩ := rightPassword_iff.mp hright
    refine wp_step fun n' h2 hn hh2 => ?_
    refine wp_ofExcept_bind ?_ fun x hx => ?_
    · intro passwordHash' hhash'
      rw [hashPassword_eq hlw n' n, hhash] at hhash'
      cases hhash'
      refine wp_step fun authenticated h3 hauth hh3 => ?_
      obtain rfl : authenticated = true := by
        rw [hauth, hh2]
        exact authenticate_iff.mpr hrecord
      have hsaved3 : Saved env h3.1.disk (h3.1.clients c).username keyPair := by
        rw [hh3, hh2]
        exact hsaved
      refine wp_bind.mpr (wp_loadKeyPairFromDisk_ok hlw hsaved3 fun h4 hserver4 htransport4 => ?_)
      have hserver : h4.1.server = h.1.server := by
        rw [hserver4, hh3, hh2]
        rfl
      have htransport : (h4.1.clients c).transport.connected = false := by
        rw [htransport4, hh3, hh2]
        exact hconnected
      refine wp_bind.mpr (wp_step fun self h5 hself hh5 => ?_)
      obtain rfl : self = h4.1.clients c := hself
      rw [htransport]
      refine wp_step fun ok h6 hok hh6 => ?_
      obtain rfl : ok = true := by
        rw [hok, hh5]
        refine congrArg Prod.fst (exec_connectClient_of_notMem env c ?_)
        show _ ∉ h4.1.server.transport.handlers
        rw [hserver]
        exact hfree
      rfl
    · rw [hashPassword_eq hlw n' n, hhash] at hx
      cases hx

theorem step_login_ok (hlw : env.LoginsWork) (hsessions : SessionInv cfg.hist.1)
    (hright : RightPassword env cfg.hist.1.server (cfg.hist.1.clients c).username n p)
    (hsaved : Saved env cfg.hist.1.disk (cfg.hist.1.clients c).username keyPair)
    (hnobody : ∀ d, cfg.hist.1.server.transport.handlers.lookup (cfg.hist.1.clients c).username
      = some d → d = c) :
    resultOf (env.system.step cfg (.call ⟨c, .login p⟩)).hist = some (.bool true) := by
  have hlogin : env.system.wp (fun _ => True) (fun _ => False) cfg.next (login env c p)
      (fun r _ => r = .ok true) (env.system.push cfg.hist cfg.next (.called ⟨c, .login p⟩)) :=
    wp_login_ok hlw hsessions hright hsaved hnobody
  obtain ⟨r, h', rfl, -, hresult⟩ := step_of_wp_bool env cfg (q := ⟨c, .login p⟩) rfl hlogin
  exact (hresult true).mpr rfl

/-! ### Usable accounts -/

/-- Nothing has been done to the key files of `u`. -/
def SameKeyFiles (env : Env) (u : Str) (w w' : World) : Prop :=
  ∀ homeDir, env.home = some homeDir →
    w'.disk (env.locate (privKeyPath homeDir u)) = w.disk (env.locate (privKeyPath homeDir u)) ∧
      w'.disk (env.locate (pubKeyPath homeDir u)) = w.disk (env.locate (pubKeyPath homeDir u))

/-- The account the run has ended with, registered by the client `c` with the
password `p`, can be used: its files hold the pair that is registered, and in
every later state any client of the name can log in, as long as the files are as
they were and nobody else is connected under the name. -/
structure Usable (env : Env) (names : ClientId → Str) (disk : Str → Option Str)
    (ms : List (Move Exn Call)) (c : ClientId) (p : Str) : Prop where
  saved : Saved env (env.run names disk ms).hist.1.disk (names c)
    ((env.run names disk ms).hist.1.clients c).keyPair
  onRecord : (env.run names disk ms).hist.1.server.publicKeyOf (names c)
    = some ((env.run names disk ms).hist.1.clients c).keyPair.publicKeyPem
  login : ∀ ms' d, names d = names c →
    SameKeyFiles env (names c) (env.run names disk ms).hist.1
      (env.run names disk (ms ++ ms')).hist.1 →
    (∀ e, (env.run names disk (ms ++ ms')).hist.1.server.transport.handlers.lookup (names c)
      = some e → e = d) →
    resultOf (env.run names disk (ms ++ ms' ++ [.call ⟨d, .login p⟩])).hist = some (.bool true)

theorem Saved.of_sameKeyFiles (hs : Saved env w.disk u keyPair) (hsame : SameKeyFiles env u w w') :
    Saved env w'.disk u keyPair := by
  obtain ⟨homeDir, hhome, hpriv, hpub⟩ := hs
  obtain ⟨hpriv', hpub'⟩ := hsame homeDir hhome
  exact ⟨homeDir, hhome, hpriv'.trans hpriv, hpub'.trans hpub⟩

/-- A password that is right stays right. -/
theorem rightPassword_append {names : ClientId → Str} {disk : Str → Option Str}
    {ms : List (Move Exn Call)}
    (hright : RightPassword env (env.run names disk ms).hist.1.server u n p)
    (ms' : List (Move Exn Call)) :
    RightPassword env (env.run names disk (ms ++ ms')).hist.1.server u n p := by
  obtain ⟨passwordHash, hrecord, hhash⟩ := rightPassword_iff.mp hright
  refine rightPassword_iff.mpr ⟨passwordHash, ?_, hhash⟩
  refine run_append_kept env.system (S := fun w => w.server.passwordHashOf u = some passwordHash)
    ?_ _ ms ms' hrecord
  intro e w hw
  cases e with
  | server q => exact (q.exec_change w.server).passwordHashOf_of_some hw
  | _ => exact hw

/-- **When a registration is usable.**  A registration that returns true leaves an
account that can be used if and only if its key pair is left in its files. -/
theorem registration_usable_iff (hlw : env.LoginsWork) (names : ClientId → Str)
    (disk : Str → Option Str) (ms : List (Move Exn Call)) (c : ClientId) (p : Str)
    (hreg : resultOf (env.run names disk (ms ++ [.call ⟨c, .registerOnServer p⟩])).hist
      = some (.bool true)) :
    Usable env names disk (ms ++ [.call ⟨c, .registerOnServer p⟩]) c p ↔
      ∃ keyPair, generateRsaKeyPair env.ssl (env.run names disk ms).hist.1.draws 2048 = .ok keyPair ∧
        env.Saves ((env.run names disk ms).hist.1.draws + 2) (names c) keyPair
          (env.run names disk ms).hist.1.disk := by
  have hname := named_run env names disk ms c
  have hrun := Env.run_append_singleton env names disk ms (.call ⟨c, .registerOnServer p⟩)
  -- the registration has made the account and tried to save the pair
  obtain ⟨keyPair, hregistered⟩ : ∃ keyPair, Registered env c p (env.run names disk ms).hist.1
      keyPair (env.run names disk (ms ++ [.call ⟨c, .registerOnServer p⟩])).hist.1 := by
    rw [hrun] at hreg ⊢
    rcases step_registerOnServer env (env.run names disk ms) c p with ⟨hno, -⟩ | ⟨-, hyes⟩
    · exact absurd hreg hno
    · exact hyes
  obtain ⟨hgen, hright, hrecord, hhand, hdisk⟩ := hregistered
  rw [hname] at hright hrecord hdisk
  have hsaves : (∃ keyPair', generateRsaKeyPair env.ssl
        (env.run names disk ms).hist.1.draws 2048 = .ok keyPair' ∧
        env.Saves ((env.run names disk ms).hist.1.draws + 2) (names c) keyPair'
          (env.run names disk ms).hist.1.disk) ↔
      Saved env (env.run names disk (ms ++ [.call ⟨c, .registerOnServer p⟩])).hist.1.disk
        (names c) keyPair := by
    rw [hdisk, saved_afterSave_iff]
    constructor
    · rintro ⟨keyPair', hgen', hsaves⟩
      rw [hgen] at hgen'
      cases hgen'
      exact hsaves
    · exact fun hsaves => ⟨keyPair, hgen, hsaves⟩
  rw [hsaves]
  constructor
  · intro husable
    have hsaved := husable.saved
    rwa [hhand] at hsaved
  · intro hsaved
    refine ⟨by rwa [hhand], by rwa [hhand], fun ms' d hd hfiles hnobody => ?_⟩
    have hname' := named_run env names disk (ms ++ [.call ⟨c, .registerOnServer p⟩] ++ ms') d
    rw [hd] at hname'
    have hright' := rightPassword_append hright ms'
    have hsaved' := hsaved.of_sameKeyFiles hfiles
    rw [← hname'] at hright' hsaved' hnobody
    rw [Env.run_append_singleton]
    exact step_login_ok hlw (sessionInv_run env names disk _) hright' hsaved' hnobody

theorem reference_loginsWork : Env.reference.LoginsWork := ⟨fun _ _ _ => rfl, fun _ _ _ => rfl⟩

/-- Alice registers, and her account can be used. -/
theorem registration_usable_alice : Usable Env.reference Env.names Env.noFiles
    [.call ⟨0, .registerOnServer (str "pw")⟩] 0 (str "pw") := by
  have hreg : resultOf (Env.reference.run Env.names Env.noFiles
      ([] ++ [.call ⟨0, .registerOnServer (str "pw")⟩])).hist = some (.bool true) := by
    decide +kernel
  refine (registration_usable_iff reference_loginsWork Env.names Env.noFiles [] 0 (str "pw")
    hreg).mpr ⟨⟨pub ++ [0], prv ++ [0]⟩, by decide +kernel, str "/root", rfl, ?_⟩
  decide +kernel

/-- An environment without `HOME`. -/
def Env.homeless : Env := { Env.reference with home := none }

/-- There Alice's registration returns true as well, but nothing is saved. -/
theorem registration_unusable : ¬ ∀ ms c p,
    resultOf (Env.homeless.run Env.names Env.noFiles
      (ms ++ [.call ⟨c, .registerOnServer p⟩])).hist = some (.bool true) →
    Usable Env.homeless Env.names Env.noFiles (ms ++ [.call ⟨c, .registerOnServer p⟩]) c p := by
  intro h
  have hreg : resultOf (Env.homeless.run Env.names Env.noFiles
      ([] ++ [.call ⟨0, .registerOnServer (str "pw")⟩])).hist = some (.bool true) := by
    decide +kernel
  obtain ⟨homeDir, hhome, -⟩ := (h [] 0 (str "pw") hreg).saved
  cases hhome

/-- She cannot log in. -/
example : resultOf (Env.homeless.run Env.names Env.noFiles
    [.call ⟨0, .registerOnServer (str "pw")⟩, .call ⟨0, .login (str "pw")⟩]).hist
      = some (.bool false) := by
  decide +kernel

end Evlampy
