/-
Evlampy/Available.lean

The program of `chat/main.cpp` where nothing fails.  `Env.Available` says what that takes:
there is a home directory, and the library answers.  The program then exits with 0 and
prints the transcript, unless both users have the same name.
-/
import Evlampy.Demo

namespace Evlampy

open Cxx Callback Prog System ChatServer ChatClient
open AES256GCMStrategy OpenSSLKeyFactory

/-- There is a home directory, and no call of the library fails that the code makes with
data it can take. -/
structure Env.Available (env : Env) : Prop where
  home : ∃ homeDir, env.home = some homeDir
  randBytes : ∀ n size, ∃ bytes, env.ssl.randBytes n size = some bytes
  sealGcm : ∀ key iv data : Bytes, key.length = 32 → data.length < 2 ^ 31 →
    ∃ r, env.ssl.sealGcm key iv data data.length = .ok r
  rsaKeygen : ∀ n, ∃ keyPair, generateRsaKeyPair env.ssl n 2048 = .ok keyPair
  rsaEncrypt : ∀ keyPair, env.ssl.Generated keyPair → ∀ (n : Nat) (data : Bytes),
    data.length = 32 → ∃ out, encryptWithPublicKey env.ssl n keyPair.publicKeyPem data = .ok out
  sha256 : ∀ n text, ∃ digest, env.ssl.sha256 n text = some digest

namespace Demo

variable {env : Env} {config : DemoConfig} {disk : Str → Option Str} {console : Console}
  {ms : List (Move Exn Call)} {s : Configuration × Console} {c : ClientId} {h : History} {i n : Nat}
  {p u : Str} {ω : Type} {react' : Notice → World → ω → ω} {x : ω}

/-! ### Registering -/

theorem exists_hashPassword (hav : env.Available) (n : Nat) (p : Str) :
    ∃ passwordHash, hashPassword env n p = .ok passwordHash := by
  obtain ⟨digest, hdigest⟩ := hav.sha256 n p
  rw [hashPassword, hdigest]
  exact ⟨_, rfl⟩

/-- A new client registers under its name exactly if the name is free. -/
theorem wp_registerOnServer_available {J I : History → Prop} (hav : env.Available)
    (hnew : (h.1.clients c).registered = false) (p : Str) :
    env.system.wp J I i (registerOnServer env c p)
      (fun r h' => r = .ok (decide ((h.1.clients c).username ∉ h.1.server.users)) ∧
        ∀ v, v ∈ h'.1.server.users ↔ v ∈ h.1.server.users ∨ v = (h.1.clients c).username) h := by
  refine wp_step fun self h1 hself hh1 => ?_
  obtain rfl : self = h.1.clients c := hself
  rw [hnew]
  refine wp_step fun n h2 _ hh2 => ?_
  obtain ⟨keyPair, hgen⟩ := hav.rsaKeygen n
  obtain ⟨passwordHash, hhash⟩ := exists_hashPassword hav (n + 1) p
  refine wp_ofExcept_bind (fun keyPair' _ => ?_) fun x hx => ?_
  · refine wp_step fun _ h3 _ hh3 => wp_ofExcept_bind (fun passwordHash' _ => ?_) fun x hx => ?_
    · have hserver3 : h3.1.server = h.1.server := by
        rw [hh3, hh2, hh1]
        rfl
      refine wp_step fun registered h4 hregistered hh4 => wp_step fun _ h5 _ hh5 => ?_
      have hregister : (registered, h5.1.server) = h.1.server.registerUser (h.1.clients c).username
          passwordHash' keyPair'.publicKeyPem := by
        rw [hregistered, hh5, hh4, ← hserver3]
        rfl
      by_cases hmem : (h.1.clients c).username ∈ h.1.server.users
      · rw [ChatServer.registerUser, if_pos hmem] at hregister
        obtain ⟨rfl, hserver5⟩ := Prod.mk.inj hregister
        refine ⟨by rw [decide_eq_false (not_not_intro hmem)], fun v => ?_⟩
        rw [hserver5]
        refine ⟨Or.inl, ?_⟩
        rintro (hv | rfl)
        · exact hv
        · exact hmem
      · rw [ChatServer.registerUser, if_neg hmem] at hregister
        obtain ⟨rfl, hserver5⟩ := Prod.mk.inj hregister
        refine wp_bind.mpr (wp_saveKeyPairToDisk_any fun h6 hserver6 _ _ => ?_)
        refine ⟨by rw [decide_eq_true hmem], fun v => ?_⟩
        rw [hserver6, hserver5]
        show v ∈ h.1.server.users.insert _ _ ↔ _
        rw [AList.mem_insert]
        exact or_comm
    · rw [hhash] at hx
      cases hx
  · rw [hgen] at hx
    cases hx

/-- Registering logs nobody in. -/
theorem wp_registerOnServer_loggedIn {J I : History → Prop} (p : Str) :
    env.system.wp J I i (registerOnServer env c p)
      (fun _ h' => ∀ d, (h'.1.clients d).loggedIn = (h.1.clients d).loggedIn) h := by
  refine wp_of_allActs (K := fun h' : History => ∀ d, (h'.1.clients d).loggedIn = (h.1.clients d).loggedIn)
    (fun e h' he hK d => ?_) (fun _ _ hn => hn.elim)
    (registerOnServer_allActs env c p (V := fun _ => False)) fun _ => rfl
  rw [← hK d]
  cases e with
  | assign c' u =>
      rcases eq_or_ne d c' with rfl | hne
      · show (((h'.1.assign d u).clients d).loggedIn) = _
        rw [World.assign_self]
        cases u with
        | keyPair _ => rfl
        | registered _ => rfl
        | _ => exact he.elim
      · show (((h'.1.assign c' u).clients d).loggedIn) = _
        rw [World.assign_ne _ hne]
  | _ => rfl

/-! ### Logging in -/

/-- Who is registered, with the password given, and may be logged in under a name nobody
else uses, can log in. -/
theorem wp_login_available (hav : env.Available) (hlw : env.LoginsWork)
    (hfw : env.FilesWork (users config)) (hrun : s.1 = env.run (names config) disk ms)
    (hright : RightPassword env s.1.hist.1.server (names config c) n p)
    (hnobody : ∀ d, (s.1.hist.1.clients d).loggedIn = true → names config d = names config c →
      d = c) :
    env.system.wp (fun _ => True) (fun _ => False) s.1.next (login env c p) (fun r _ => r = .ok true)
      (env.system.push s.1.hist s.1.next (.called ⟨c, .login p⟩)) := by
  have hname : ∀ c, (s.1.hist.1.clients c).username = names config c := by
    rw [hrun]
    exact named_run env (names config) disk ms
  have hsessions : SessionInv s.1.hist.1 := by
    rw [hrun]
    exact sessionInv_run env (names config) disk ms
  have hkeys : KeyInv env s.1.hist.1 := by
    rw [hrun]
    exact keyInv_run (names config) disk ms (hfw.mono (recorded_subset env config disk ms))
  -- the key files of a registered user are there
  obtain ⟨homeDir, hhome⟩ := hav.home
  have hregistered := hright
  obtain ⟨record, hrecord, -⟩ := hregistered
  obtain ⟨keyPair, -, -, hondisk⟩ := hkeys.onRecord (names config c) record.publicKeyPem
    (by rw [ChatServer.publicKeyOf, hrecord]; rfl)
  have hsaved : Saved env s.1.hist.1.disk (names config c) keyPair := ⟨homeDir, hhome, hondisk homeDir hhome⟩
  rw [← hname] at hright hsaved
  refine wp_login_ok hlw hsessions hright hsaved fun d hd => ?_
  obtain ⟨hlog, hu⟩ := (hsessions.handler _ d).mp hd
  exact hnobody d hlog ((hname d).symm.trans (hu.trans (hname c)))

/-! ### Sending -/

/-- A message to a registered user is sent. -/
theorem composeMessage_available (hav : env.Available) (ha : Assumed env config.message)
    (hkeys : KeyInv env h.1) (hlog : (h.1.clients c).loggedIn = true) {toUser pem : Str}
    (hpem : h.1.server.publicKeyOf toUser = some pem) (n : Nat) :
    ∃ m, composeMessage env (h.1.clients c) n toUser pem config.message = .ok m := by
  obtain ⟨bytes, hbytes⟩ := hav.randBytes n 32
  have hkey : generateSymmetricKey env.ssl n 32 = .ok bytes.val := by
    rw [generateSymmetricKey, hbytes]
  obtain ⟨keyPair, hgen, rfl, -⟩ := hkeys.onRecord toUser pem hpem
  obtain ⟨sealedKey, hsealed⟩ := hav.rsaEncrypt keyPair hgen (n + 2) bytes.val bytes.property
  obtain ⟨selfKey, hself⟩ := hav.rsaEncrypt _ (hkeys.inHand c hlog).2.1 (n + 3) bytes.val
    bytes.property
  have hlen : config.message.length < 2 ^ 31 := Nat.lt_of_le_of_lt ha.fits (by decide)
  obtain ⟨iv, hiv⟩ := hav.randBytes (n + 1) gcmIvLen
  obtain ⟨⟨ciphertext, tag⟩, hseal⟩ := hav.sealGcm bytes.val iv.val config.message bytes.property hlen
  have hpayload := OpenSSL.encrypt_eq_ok.mpr ⟨bytes.property, ha.inverts.newCipherCtx (n + 1), iv,
    ciphertext, tag, hiv, by rw [toInt_of_lt hlen]; exact hseal, rfl⟩
  refine ⟨_, bind_eq_ok.mpr ⟨_, hkey, bind_eq_ok.mpr ⟨_, hpayload, bind_eq_ok.mpr ⟨_, hsealed,
    bind_eq_ok.mpr ⟨_, hself, rfl⟩⟩⟩⟩⟩

theorem holds_execute_available (hav : env.Available) (hfw : env.FilesWork (users config))
    (ha : Assumed env config.message)
    (hrun : s.1 = env.run (names config) disk ms)
    (hlog : (s.1.hist.1.clients alice).loggedIn = true) {pem : Str}
    (hpem : s.1.hist.1.server.publicKeyOf config.bobName = some pem) :
    holds (execute env config ⟨alice, config.bobName, config.message⟩)
      (fun r _ => r = .ok true) s := by
  have ho := online_run hfw hrun hlog
  obtain ⟨keyPair, hgen, hpair, -⟩ := ho.keys.onRecord config.bobName pem hpem
  have hne : pem ≠ [] := hpair ▸ hgen.ne_nil.1
  refine holds_bind.mpr (holds_call hrun (I := fun r _ _ => r = .ok (.bool true))
    (attended_bind.mpr (attended_mono (fun r h' y hr => ?_)
      (attended_sendMessage_to (h := env.system.push s.1.hist s.1.next
        (.called ⟨alice, .sendMessage config.bobName config.message⟩)) ha ho config.bobName))) ?_)
  · obtain rfl := hr.goes pem hpem hne (composeMessage_available hav ha ho.keys hlog hpem)
    rfl
  · rintro r ms' s' - rfl
    rfl

/-! ### The session -/

/-- A user has registered with the password, in a state of a run. -/
def HasAccount (env : Env) (s : Configuration × Console) (u p : Str) : Prop :=
  ∃ n, RightPassword env s.1.hist.1.server u n p

/-- The first client can always register, and the second unless it has the same name. -/
theorem holds_register_available (hav : env.Available)
    (hs : Stage env config disk console ms s)
    (hnew : (s.1.hist.1.clients c).registered = false)
    (hout : ∀ d, (s.1.hist.1.clients d).loggedIn = false) (p : Str) :
    holds (test env config c (.registerOnServer p)) (fun r s' =>
      ∃ ms', Stage env config disk console (ms ++ ms') s' ∧
        (∀ d, d ≠ c → s'.1.hist.1.clients d = s.1.hist.1.clients d) ∧
        (∀ d, (s'.1.hist.1.clients d).loggedIn = false) ∧
        r = .ok (decide (names config c ∉ s.1.hist.1.server.users)) ∧
        (∀ v, v ∈ s'.1.hist.1.server.users ↔ v ∈ s.1.hist.1.server.users ∨ v = names config c) ∧
        (r = .ok true → HasAccount env s' (names config c) p)) s := by
  have hname : (s.1.hist.1.clients c).username = names config c := by
    rw [hs.run]
    exact named_run env (names config) disk ms c
  refine holds_mono (fun r s' hr => ?_) (holds_enter (.registerOnServer p) hs (I := fun r w =>
    r = .ok (.bool (decide (names config c ∉ s.1.hist.1.server.users))) ∧
      (∀ v, v ∈ w.server.users ↔ v ∈ s.1.hist.1.server.users ∨ v = names config c) ∧
      (∀ d, (w.clients d).loggedIn = (s.1.hist.1.clients d).loggedIn) ∧
      (r = .ok (.bool true) → ∃ n, RightPassword env w.server (names config c) n p)) ?_)
  · obtain ⟨ms', hs', hothers, hr⟩ := hr
    refine ⟨ms', hs', hothers, ?_⟩
    rcases r with x | b
    · cases hr.2.1
    · obtain ⟨v, ⟨hv, husers, hlog, hright⟩, rfl⟩ := hr
      obtain rfl := Except.ok.inj hv
      refine ⟨fun d => (hlog d).trans (hout d), rfl, husers, fun htrue => ?_⟩
      refine hright (congrArg (fun b => (Except.ok (Value.bool b) : Except Exn Value)) ?_)
      exact Except.ok.inj htrue
  · refine wp_bind_pure.mpr (wp_mono (fun r h' hr => ?_) (wp_and (fun _ _ => ⟨trivial, trivial⟩)
      (wp_registerOnServer_available (J := fun _ => True) (I := fun _ => True)
        (h := env.system.push s.1.hist s.1.next (.called ⟨c, .registerOnServer p⟩)) hav hnew p)
      (wp_and (fun _ _ => ⟨trivial, trivial⟩)
        (wp_registerOnServer_loggedIn (J := fun _ => True) (I := fun _ => True) p)
        (wp_registerOnServer_disk p))))
    obtain ⟨⟨rfl, husers⟩, hlog, hregistered⟩ := hr
    rw [← hname]
    refine ⟨rfl, husers, hlog, fun htrue => ?_⟩
    rcases hregistered with ⟨hne, -⟩ | ⟨-, keyPair, hregistered⟩
    · refine absurd ?_ hne
      exact congrArg Except.ok (Value.bool.inj (Except.ok.inj htrue))
    · exact ⟨_, hregistered.right⟩

/-- A user that has an account can log in, if no other client is logged in under the name. -/
theorem holds_login_available (hav : env.Available) (hlw : env.LoginsWork)
    (hfw : env.FilesWork (users config)) (hs : Stage env config disk console ms s) {p : Str}
    (haccount : HasAccount env s (names config c) p)
    (hnobody : ∀ d, (s.1.hist.1.clients d).loggedIn = true → names config d = names config c →
      d = c) :
    holds (test env config c (.login p)) (fun r s' =>
      ∃ ms', Stage env config disk console (ms ++ ms') s' ∧
        (∀ d, d ≠ c → s'.1.hist.1.clients d = s.1.hist.1.clients d) ∧
        r = .ok true ∧ (s'.1.hist.1.clients c).loggedIn = true) s := by
  obtain ⟨n, hright⟩ := haccount
  refine holds_mono (fun r s' hr => ?_) (holds_enter (.login p) hs (I := fun r w =>
    r = .ok (.bool true) ∧ (w.clients c).loggedIn = true) ?_)
  · obtain ⟨ms', hs', hothers, hr⟩ := hr
    refine ⟨ms', hs', hothers, ?_⟩
    rcases r with x | b
    · cases hr.2.1
    · obtain ⟨v, ⟨hv, hlog⟩, rfl⟩ := hr
      obtain rfl := Except.ok.inj hv
      exact ⟨rfl, hlog⟩
  · refine wp_bind_pure.mpr (wp_mono (fun r h' hr => ?_) (wp_and (fun _ _ => ⟨trivial, trivial⟩)
      (wp_login_answer (J := fun _ => True) (I := fun _ => True) p)
      (wp_login_available hav hlw hfw hs.run hright hnobody)))
    obtain ⟨hlog, rfl⟩ := hr
    exact ⟨rfl, hlog true rfl⟩

/-- Accounts stay. -/
theorem HasAccount.later {s' : Configuration × Console} {ms' : List (Move Exn Call)}
    (ha : HasAccount env s u p) (hs : s.1 = env.run (names config) disk ms)
    (hs' : s'.1 = env.run (names config) disk (ms ++ ms')) : HasAccount env s' u p := by
  obtain ⟨n, hright⟩ := ha
  rw [hs] at hright
  refine ⟨n, ?_⟩
  rw [hs']
  exact rightPassword_append hright ms'

theorem stage_start (env : Env) (config : DemoConfig) (disk : Str → Option Str)
    (console : Console) : Stage env config disk console [] (start env config disk console) :=
  ⟨rfl, logged_empty, rfl⟩

/-- Users of the same name: the second cannot register. -/
theorem holds_session_same (hav : env.Available) (hsame : config.aliceName = config.bobName) :
    holds (session env config) (fun r s' => r = .ok 1 ∧
      s'.2 = console.printError (str "Registration failed" ++ str "\n"))
      (start env config disk console) := by
  refine holds_bind.mpr (holds_both.mpr (holds_mono (fun r s1 hr => ?_) (holds_register_available
    (c := alice) hav (stage_start env config disk console) rfl (fun _ => rfl) _)))
  obtain ⟨ms1, hs1, hothers, hout, rfl, husers, -⟩ := hr
  refine holds_mono (fun r s2 hr => ?_) (holds_register_available (c := bob) hav hs1
    (by rw [hothers bob (by decide)]; rfl) hout _)
  obtain ⟨ms2, hs2, -, -, rfl, -, -⟩ := hr
  have htaken : names config bob ∈ s1.1.hist.1.server.users := (husers _).mpr (Or.inr hsame.symm)
  rw [decide_eq_false (not_not_intro htaken)]
  refine ⟨rfl, ?_⟩
  show s2.2.printError _ = _
  rw [hs2.console]

/-- Otherwise all calls succeed. -/
theorem holds_session_available (hav : env.Available) (hlw : env.LoginsWork)
    (hfw : env.FilesWork (users config)) (ha : Assumed env config.message)
    (hne : config.aliceName ≠ config.bobName) :
    holds (session env config) (fun r _ => r = .ok 0) (start env config disk console) := by
  refine holds_bind.mpr (holds_both.mpr (holds_mono (fun r s1 hr => ?_) (holds_register_available
    (c := alice) hav (stage_start env config disk console) rfl (fun _ => rfl) _)))
  obtain ⟨ms1, hs1, hothers1, hout1, rfl, husers1, haccount⟩ := hr
  have hfree : names config bob ∉ s1.1.hist.1.server.users := by
    intro hmem
    rcases (husers1 _).mp hmem with hmem | heq
    · exact absurd hmem (AList.notMem_empty _)
    · exact hne heq.symm
  refine holds_mono (fun r s2 hr => ?_) (holds_register_available (c := bob) hav hs1
    (by rw [hothers1 bob (by decide)]; rfl) hout1 _)
  obtain ⟨ms2, hs2, -, hout2, rfl, -, haccount'⟩ := hr
  rw [decide_eq_true hfree] at haccount' ⊢
  replace haccount := (haccount rfl).later hs1.run hs2.run
  replace haccount' := haccount' rfl
  -- nobody is logged in, so both can log in
  refine holds_bind.mpr (holds_both.mpr (holds_mono (fun r s3 hr => ?_) (holds_login_available
    hav hlw hfw hs2 haccount fun d hd => ?_)))
  swap
  · rw [hout2 d] at hd
    cases hd
  obtain ⟨ms3, hs3, hothers3, rfl, hlog3⟩ := hr
  refine holds_mono (fun r s4 hr => ?_) (holds_login_available hav hlw hfw hs3
    (haccount'.later hs2.run hs3.run) fun d hd hname => ?_)
  swap
  · rcases eq_or_ne d alice with rfl | hd'
    · exact absurd hname hne
    · rw [hothers3 d hd', hout2 d] at hd
      cases hd
  obtain ⟨ms4, hs4, hothers4, rfl, hlog4⟩ := hr
  rw [← hothers4 alice (by decide)] at hlog3
  obtain ⟨n, record, hrecord, -⟩ := (haccount'.later hs2.run hs3.run).later hs3.run hs4.run
  have hpem : s4.1.hist.1.server.publicKeyOf config.bobName = some record.publicKeyPem :=
    congrArg (Option.map UserRecord.publicKeyPem) hrecord
  refine holds_bind.mpr (holds_mono (fun r s5 hr => ?_) (holds_and
    (holds_execute hfw ha hs4 hlog3 hlog4)
    (holds_execute_available hav hfw ha hs4.run hlog3 hpem)))
  obtain ⟨⟨⟨ms5, hrun5⟩, hsent⟩, rfl⟩ := hr
  obtain ⟨-, hlog5, m, hm, hconversation⟩ := hsent
  exact (holds_showConversation hfw ha hrun5 hlog5 hm hconversation).1

/-! ### The program -/

/-- **The program works.**  Where nothing fails, a complete command line makes the program
exit with 0 after the transcript, whatever the users are called, unless both have the same
name: then the second cannot register, and the program exits with 1. -/
theorem main_available (env : Env) (disk : Str → Option Str) (line : CommandLine)
    (hav : env.Available) (hlw : env.LoginsWork) (hfw : env.FilesWork (users line.config))
    (ha : Assumed env line.config.message)
    (hcomplete : line.ending = .complete) :
    main env disk line.args =
      if line.config.aliceName = line.config.bobName then
        (some 1, ⟨[], line.reports ++ (str "Registration failed" ++ str "\n")⟩)
      else (some 0, ⟨transcript line.config, line.reports⟩) := by
  split
  · next hsame =>
    obtain ⟨r, s, ⟨rfl, hconsole⟩, hmain⟩ := main_of_holds hcomplete
      (holds_session_same hav hsame)
    rw [hmain]
    show (some 1, s.2) = _
    rw [hconsole]
    rfl
  · next hne =>
    obtain ⟨r, ⟨cfg, console⟩, ⟨rfl, hends⟩, hmain⟩ := main_of_holds hcomplete
      (holds_and (holds_session_available hav hlw hfw ha hne) (holds_session hfw ha))
    rw [hmain]
    replace hends : Ends line.config ⟨[], line.reports⟩ (.ok 0) console := hends
    cases hends
    rfl

/-! ### A run -/

theorem reference_available : Env.reference.Available where
  home := ⟨_, rfl⟩
  randBytes n size := ⟨_, rfl⟩
  sealGcm key iv data _ _ := ⟨_, rfl⟩
  rsaKeygen n := ⟨_, rfl⟩
  rsaEncrypt keyPair hgen n data hlen := by
    obtain ⟨b, rfl⟩ := OpenSSL.reference_generated hgen
    exact ⟨b :: data, OpenSSL.reference_encryptWithPublicKey.mpr ⟨by rw [hlen]; decide, rfl⟩⟩
  sha256 n text := ⟨_, rfl⟩

/-- Another message, and an argument that is none. -/
def greetingLine : CommandLine :=
  ⟨[.joined .message (str "hi"), .unknown (str "x") (by decide)], .complete⟩

theorem main_available_greeting : main Env.reference Env.noFiles greetingLine.args
    = (some 0, ⟨str "[bob] new message from alice: hi\nbob conversation with alice:\n- hi\n",
        str "Warning: ignoring unknown argument 'x'\n"⟩) := by
  refine (main_available Env.reference Env.noFiles greetingLine reference_available
    reference_loginsWork Env.reference_filesWork ⟨EvpBase64.reference_documented,
      OpenSSL.reference_inverts, OpenSSL.reference_sized, by decide⟩ rfl).trans ?_
  decide +kernel

end Demo

end Evlampy
