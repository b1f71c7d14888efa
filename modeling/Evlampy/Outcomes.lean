/-
Evlampy/Outcomes.lean

What the result of a call says about the world.  A call that reports a failure,
by false or by no group id, changes neither the server nor a client nor a file,
with two exceptions: `registerOnServer` generates a key pair before it learns
that the name is taken, and `login` loads the key files before it learns that
one is missing or that the name is connected elsewhere.  `failed_unchanged_iff`
says exactly when such a failure is without effect.
-/
import Evlampy.Guards

namespace Evlampy

open Cxx Callback System ChatServer ChatClient OpenSSLKeyFactory

variable {env : Env} {h : History} {i : Nat} {c : ClientId} {w w' : World}

/-! ### Failures -/

/-- The results that report a failure. -/
def Value.Failure : Value → Prop
  | .bool b => b = false
  | .groupId id => id = none
  | _ => False

instance : DecidablePred Value.Failure := fun v => by
  cases v <;> unfold Value.Failure <;> infer_instance

/-- The server, all clients and the files are the same. -/
structure Unchanged (w w' : World) : Prop where
  server : w'.server = w.server
  clients : w'.clients = w.clients
  disk : w'.disk = w.disk

theorem Unchanged.refl (w : World) : Unchanged w w := ⟨rfl, rfl, rfl⟩

/-- What `login` reads from the key files is what the client has in memory. -/
def LoadsSame (env : Env) (w : World) (self : ChatClient) : Prop :=
  ∀ homeDir privateKeyPem, env.home = some homeDir →
    env.read (w.draws + 1) (privKeyPath homeDir self.username)
      (w.disk (env.locate (privKeyPath homeDir self.username))) = some privateKeyPem →
    privateKeyPem = self.keyPair.privateKeyPem ∧
      ∀ publicKeyPem, env.read (w.draws + 2) (pubKeyPath homeDir self.username)
        (w.disk (env.locate (pubKeyPath homeDir self.username))) = some publicKeyPem →
      publicKeyPem = self.keyPair.publicKeyPem

/-- When a call that fails has changed nothing. -/
def FailsClean (env : Env) (w : World) (q : Call) : Prop :=
  match q.op with
  | .registerOnServer _ => (w.clients q.client).registered = true ∨
      generateRsaKeyPair env.ssl w.draws 2048 = .ok (w.clients q.client).keyPair
  | .login p =>
      (∀ passwordHash, hashPassword env w.draws p = .ok passwordHash →
        w.server.authenticate (w.clients q.client).username passwordHash = false) ∨
      LoadsSame env w (w.clients q.client)
  | _ => True

/-- The contract of a call: if it fails, it has changed nothing exactly where it
fails clean. -/
def FailureContract (env : Env) (q : Call) (w : World) (r : Except Exn Value) (w' : World) :
    Prop :=
  ∀ v, r = .ok v → v.Failure → (Unchanged w w' ↔ FailsClean env w q)

/-- A boolean function that cannot yield returns in one move, and what it returns
is the result of the move. -/
theorem step_of_wp_bool (env : Env) (cfg : Configuration) {q : Call} {p : Code Bool}
    {J : History → Prop} {post : Except Exn Bool → History → Prop}
    (hbody : Call.body env q = p >>= fun b => pure (.bool b))
    (hp : env.system.wp J (fun _ => False) cfg.next p post
      (env.system.push cfg.hist cfg.next (.called q))) :
    ∃ r h', post r h' ∧ (env.system.step cfg (.call q)).hist.1 = h'.1 ∧
      ∀ b, resultOf (env.system.step cfg (.call q)).hist = some (.bool b) ↔ r = .ok b := by
  have hwrap : env.system.wp J (fun _ => False) cfg.next (Call.body env q)
      (fun r h' => ∃ r', post r' h' ∧ r = r'.map .bool)
      (env.system.push cfg.hist cfg.next (.called q)) := by
    rw [hbody]
    exact wp_bind_pure.mpr (wp_mono (fun r h' hr => ⟨r, hr, rfl⟩) hp)
  obtain ⟨-, h', ⟨r, hpost, rfl⟩, hstep⟩ := step_of_wp hwrap
  refine ⟨r, h', hpost, by rw [hstep]; rfl, fun b => ?_⟩
  rw [hstep]
  rcases r with x | b'
  all_goals
    constructor
    all_goals
      intro e
      cases e
      try rfl

/-! ### Assignments that change nothing -/

attribute [ext] KeyPair

/-- Only the client `c` differs, and only in its key pair. -/
structure Rekeyed (c : ClientId) (keyPair : KeyPair) (w w' : World) : Prop where
  server : w'.server = w.server
  disk : w'.disk = w.disk
  self : w'.clients c = { w.clients c with keyPair := keyPair }
  others : ∀ d, d ≠ c → w'.clients d = w.clients d

theorem Rekeyed.unchanged_iff {keyPair : KeyPair} (hr : Rekeyed c keyPair w w') :
    Unchanged w w' ↔ keyPair = (w.clients c).keyPair := by
  constructor
  · intro hsame
    have hc := congrArg ChatClient.keyPair (congrFun hsame.clients c)
    rw [hr.self] at hc
    exact hc
  · intro heq
    refine ⟨hr.server, ?_, hr.disk⟩
    funext d
    rcases eq_or_ne d c with rfl | hne
    · rw [hr.self, heq]
    · exact hr.others d hne

/-- Assigning to the key pair once more, or what is there anyway. -/
theorem Rekeyed.assign {keyPair keyPair' : KeyPair} (hr : Rekeyed c keyPair w w') {u : Update}
    (hu : u.apply { w.clients c with keyPair := keyPair }
      = { w.clients c with keyPair := keyPair' }) : Rekeyed c keyPair' w (w'.assign c u) := by
  refine ⟨hr.server, hr.disk, ?_, fun d hne => ?_⟩
  · rw [World.assign_self, hr.self, hu]
  · rw [World.assign_ne w' hne, hr.others d hne]

/-! ### Server functions that fail -/

theorem registerUser_of_false {s : ChatServer} {u passwordHash pem : Str}
    (hno : (s.registerUser u passwordHash pem).1 = false) :
    (s.registerUser u passwordHash pem).2 = s := by
  unfold ChatServer.registerUser at hno ⊢
  split
  · rfl
  · next hfree =>
    rw [if_neg hfree] at hno
    cases hno

theorem deleteMessageForAll_of_false {s : ChatServer} {requester messageId : Str}
    (hno : (s.deleteMessageForAll requester messageId).1 = false) :
    (s.deleteMessageForAll requester messageId).2 = s := by
  unfold ChatServer.deleteMessageForAll at hno ⊢
  simp only [UnorderedMap.eraseIf_fst, Bool.false_or, Bool.or_eq_false_iff] at hno ⊢
  show ({ s with
    history := UnorderedMap.filterValues _ s.history
    groupHistory := UnorderedMap.filterValues _ s.groupHistory } : ChatServer) = s
  rw [UnorderedMap.filterValues_eq_self hno.1, UnorderedMap.filterValues_eq_self hno.2]

theorem addContact_of_false {s : ChatServer} {owner contact : Str}
    (hno : (s.addContact owner contact).1 = false) : (s.addContact owner contact).2 = s := by
  unfold ChatServer.addContact at hno ⊢
  split
  · next record _ ho hc =>
    simp only [ho, hc] at hno
    split
    · rfl
    · next hnew =>
      rw [if_neg hnew] at hno
      cases hno
  · rfl

theorem removeContact_of_false {s : ChatServer} {owner contact : Str}
    (hno : (s.removeContact owner contact).1 = false) :
    (s.removeContact owner contact).2 = s := by
  unfold ChatServer.removeContact at hno ⊢
  split
  · rfl
  · next record ho =>
    simp only [ho] at hno
    split
    · next hmem =>
      rw [if_pos hmem] at hno
      cases hno
    · rfl

theorem createGroup_of_none {s : ChatServer} {owner groupName : Str} {members : List Str}
    (hno : (s.createGroup owner groupName members).1 = none) :
    (s.createGroup owner groupName members).2 = s := by
  unfold ChatServer.createGroup at hno ⊢
  split
  · next ho =>
    rw [if_pos ho] at hno
    cases hno
  · rfl

/-! ### Registering -/

theorem wp_registerOnServer_failure (rawPassword : Str) :
    env.system.wp (fun _ => True) (fun _ => True) i (registerOnServer env c rawPassword)
      (fun r h' => r = .ok false → (Unchanged h.1 h'.1 ↔
        (h.1.clients c).registered = true ∨
          generateRsaKeyPair env.ssl h.1.draws 2048 = .ok (h.1.clients c).keyPair)) h := by
  refine wp_step fun self h1 hself hh1 => ?_
  obtain rfl : self = h.1.clients c := hself
  subst hh1
  split
  · next hreg => exact fun _ => iff_of_true (.refl h.1) (Or.inl hreg)
  · next hreg =>
    refine wp_step fun n h2 hn hh2 => ?_
    obtain rfl : n = h.1.draws := hn
    -- a draw changes nothing that counts
    have hr2 : Rekeyed c (h.1.clients c).keyPair h.1 h2.1 := by
      rw [hh2]
      exact ⟨rfl, rfl, rfl, fun _ _ => rfl⟩
    refine wp_ofExcept_bind ?_ fun _ _ hok => by cases hok
    intro keyPair hgen
    refine wp_step fun _ h3 _ hh3 => ?_
    -- from here on the client has the new pair
    have hr3 : Rekeyed c keyPair h.1 h3.1 := by
      rw [hh3]
      exact hr2.assign rfl
    refine wp_ofExcept_bind ?_ fun _ _ hok => by cases hok
    intro passwordHash _
    refine wp_step fun registered h4 hregistered hh4 => ?_
    refine wp_step fun _ h5 _ hh5 => ?_
    cases registered with
    | true =>
        refine wp_bind.mpr (wp_mono (fun r h' _ => ?_) wp_trivial)
        cases r <;> exact fun e => by cases e
    | false =>
        -- the server has refused and is as it was, so only the pair may be different
        have hserver : h4.1.server = h3.1.server := by
          rw [hh4]
          exact registerUser_of_false hregistered.symm
        have hr4 : Rekeyed c keyPair h.1 h4.1 := by
          refine ⟨hserver.trans hr3.server, ?_, ?_, ?_⟩
          all_goals
            rw [hh4]
          · exact hr3.disk
          · exact hr3.self
          · exact hr3.others
        have hr5 : Rekeyed c keyPair h.1 h5.1 := by
          rw [hh5]
          refine hr4.assign ?_
          rw [Bool.not_eq_true] at hreg
          show ({ h.1.clients c with keyPair := keyPair, registered := false } : ChatClient) = _
          rw [← hreg]
        intro _
        rw [hr5.unchanged_iff, hgen, Except.ok.injEq, or_iff_right hreg]

/-! ### Logging in -/

/-- A failing `connect` has changed nothing. -/
theorem wp_connect_failure (name : Str) {post : Except Exn Bool → History → Prop}
    (htrue : ∀ h' : History, post (.ok true) h')
    (hfalse : ∀ h' : History, h'.1 = h.1 → post (.ok false) h') :
    env.system.wp (fun _ => True) (fun _ => True) i (connect c name) post h := by
  refine wp_step fun self h1 hself hh1 => ?_
  subst hh1
  split
  · exact hfalse _ rfl
  · refine wp_step fun ok h2 hok hh2 => ?_
    by_cases hmem : name ∈ h.1.server.transport.handlers
    · have hexec := exec_connectClient_of_mem env c hmem
      obtain rfl : ok = false := hok.trans (congrArg Prod.fst hexec)
      refine hfalse _ ?_
      rw [hh2]
      exact congrArg Prod.snd hexec
    · have hexec := exec_connectClient_of_notMem env c hmem
      obtain rfl : ok = true := hok.trans (congrArg Prod.fst hexec)
      exact htrue _

/-- Loading leaves the client with a pair that is its own exactly where what is
read is what it has. -/
theorem wp_loadKeyPairFromDisk_rekeyed (hr : Rekeyed c (w.clients c).keyPair w h.1)
    (hdraws : h.1.draws = w.draws + 1) :
    env.system.wp (fun _ => True) (fun _ => True) i (loadKeyPairFromDisk env c)
      (fun _ h' => ∃ keyPair, Rekeyed c keyPair w h'.1 ∧
        (keyPair = (w.clients c).keyPair ↔ LoadsSame env w (w.clients c))) h := by
  have hself0 : h.1.clients c = w.clients c := hr.self
  unfold loadKeyPairFromDisk
  cases hhome : env.home with
  -- without a home directory nothing is loaded
  | none => exact ⟨_, hr, iff_of_true rfl fun homeDir _ e => by rw [hhome] at e; cases e⟩
  | some homeDir =>
      refine wp_step fun self h1 hself hh1 => ?_
      obtain rfl : self = w.clients c := hself.trans hself0
      subst hh1
      refine wp_step fun priv h2 hpriv hh2 => ?_
      replace hpriv : priv = env.read (w.draws + 1) (privKeyPath homeDir (w.clients c).username)
          (w.disk (env.locate (privKeyPath homeDir (w.clients c).username))) := by
        rw [hpriv, ← hdraws, ← hr.disk]
        rfl
      have hr2 : Rekeyed c (w.clients c).keyPair w h2.1 := by
        rw [hh2]
        exact ⟨hr.server, hr.disk, hr.self, hr.others⟩
      have hdraws2 : h2.1.draws = w.draws + 2 := by
        rw [hh2]
        exact congrArg (· + 1) hdraws
      clear hh2
      rcases priv with - | privateKeyPem
      · refine ⟨_, hr2, iff_of_true rfl fun homeDir' a e hread => ?_⟩
        rw [hhome] at e
        cases e
        rw [← hpriv] at hread
        cases hread
      · refine wp_step fun _ h3 _ hh3 => ?_
        -- the private key is assigned, whatever becomes of the other file
        have hr3 : Rekeyed c ⟨(w.clients c).keyPair.publicKeyPem, privateKeyPem⟩ w h3.1 := by
          rw [hh3]
          exact hr2.assign rfl
        have hdraws3 : h3.1.draws = w.draws + 2 := by
          rw [hh3]
          exact hdraws2
        clear hh3
        refine wp_step fun pub h4 hpub hh4 => ?_
        replace hpub : pub = env.read (w.draws + 2) (pubKeyPath homeDir (w.clients c).username)
            (w.disk (env.locate (pubKeyPath homeDir (w.clients c).username))) := by
          rw [hpub, ← hdraws3, ← hr3.disk]
          rfl
        have hr4 : Rekeyed c ⟨(w.clients c).keyPair.publicKeyPem, privateKeyPem⟩ w h4.1 := by
          rw [hh4]
          exact ⟨hr3.server, hr3.disk, hr3.self, hr3.others⟩
        clear hh4
        -- what was read tells whether loading changes anything
        have hloads : LoadsSame env w (w.clients c) ↔
            privateKeyPem = (w.clients c).keyPair.privateKeyPem ∧
              ∀ b, pub = some b → b = (w.clients c).keyPair.publicKeyPem := by
          constructor
          · intro hsame
            obtain ⟨ha, hb⟩ := hsame homeDir privateKeyPem hhome hpriv.symm
            exact ⟨ha, fun b e => hb b (hpub.symm.trans e)⟩
          · rintro ⟨ha, hb⟩ homeDir' a e hread
            rw [hhome] at e
            cases e
            rw [← hpriv] at hread
            cases hread
            exact ⟨ha, fun b e => hb b (hpub.trans e)⟩
        rw [hloads]
        rcases pub with - | publicKeyPem
        · refine ⟨_, hr4, ?_⟩
          simp [KeyPair.ext_iff]
        · refine wp_step fun _ h5 _ hh5 => ?_
          have hr5 : Rekeyed c ⟨publicKeyPem, privateKeyPem⟩ w h5.1 := by
            rw [hh5]
            exact hr4.assign rfl
          refine ⟨_, hr5, ?_⟩
          simp [KeyPair.ext_iff, and_comm]

theorem wp_login_failure (rawPassword : Str) :
    env.system.wp (fun _ => True) (fun _ => True) i (login env c rawPassword)
      (fun r h' => r = .ok false → (Unchanged h.1 h'.1 ↔
        FailsClean env h.1 ⟨c, .login rawPassword⟩)) h := by
  refine wp_step fun self h1 hself hh1 => ?_
  obtain rfl : self = h.1.clients c := hself
  subst hh1
  split
  · exact fun e => by cases e
  · next hlog =>
    refine wp_step fun n h2 hn hh2 => ?_
    obtain rfl : n = h.1.draws := hn
    have hr2 : Rekeyed c (h.1.clients c).keyPair h.1 h2.1 := by
      rw [hh2]
      exact ⟨rfl, rfl, rfl, fun _ _ => rfl⟩
    have hdraws2 : h2.1.draws = h.1.draws + 1 := by
      rw [hh2]
      rfl
    refine wp_ofExcept_bind ?_ fun _ _ hok => by cases hok
    intro passwordHash hhash
    clear hh2
    refine wp_step fun authenticated h3 hauth hh3 => ?_
    have hr3 : Rekeyed c (h.1.clients c).keyPair h.1 h3.1 := by
      rw [hh3]
      exact hr2
    have hdraws3 : h3.1.draws = h.1.draws + 1 := by
      rw [hh3]
      exact hdraws2
    clear hh3
    replace hauth : authenticated
        = h.1.server.authenticate (h.1.clients c).username passwordHash := by
      rw [hauth, ← hr2.server]
      rfl
    cases authenticated with
    | false =>
        -- a wrong password: nothing has been touched yet
        refine fun _ => iff_of_true (hr3.unchanged_iff.mpr rfl) (Or.inl fun hash hhash' => ?_)
        rw [hhash] at hhash'
        cases hhash'
        exact hauth.symm
    | true =>
        -- the password was right, so it is the files that count
        have hclean : FailsClean env h.1 ⟨c, .login rawPassword⟩ ↔
            LoadsSame env h.1 (h.1.clients c) := by
          refine or_iff_right fun hno => ?_
          rw [hno _ hhash] at hauth
          cases hauth
        rw [hclean]
        refine wp_bind.mpr (wp_mono (fun r h4 hload => ?_)
          (wp_loadKeyPairFromDisk_rekeyed hr3 hdraws3))
        obtain ⟨keyPair, hr4, hsame⟩ := hload
        rcases r with x | loaded
        · exact fun e => by cases e
        · cases loaded with
          | false => exact fun _ => hr4.unchanged_iff.trans hsame
          | true =>
              refine wp_bind.mpr (wp_connect_failure _ (fun h5 => ?_) fun h5 hsame5 => ?_)
              · exact fun e => by cases e
              · -- the name is connected elsewhere
                refine fun _ => Iff.trans ?_ hsame
                refine Rekeyed.unchanged_iff (c := c) ?_
                rw [← hsame5] at hr4
                refine hr4.assign ?_
                rw [Bool.not_eq_true] at hlog
                show ({ h.1.clients c with keyPair := keyPair, loggedIn := false } : ChatClient) = _
                rw [← hlog]

/-! ### Sending -/

/-- Once something has been sent, the loop over the members returns true. -/
theorem wp_sendCopies_true {self : ChatClient} {g : Str} {sessionKey encryptedPayload : Bytes}
    (members : List Str) :
    env.system.wp (fun _ => True) (fun _ => True) i
      (sendCopies env c self g sessionKey encryptedPayload members true)
      (fun r _ => r ≠ .ok false) h := by
  induction members generalizing h with
  | nil => exact fun e => by cases e
  | cons member members ih =>
      refine wp_step fun receiverPublicKey h1 _ _ => ?_
      split
      · exact ih
      · refine wp_step fun n h2 _ _ => ?_
        refine wp_ofExcept_bind ?_ fun _ _ e => by cases e
        intro message _
        refine wp_bind.mpr (wp_mono (fun r h' _ => ?_) wp_trivial)
        rcases r with x | _
        · exact fun e => by cases e
        · exact ih

/-- A send that returns false has stored and sent nothing. -/
theorem wp_sendCopies_failure {self : ChatClient} {g : Str}
    {sessionKey encryptedPayload : Bytes} (members : List Str) (hw : Unchanged w h.1) :
    env.system.wp (fun _ => True) (fun _ => True) i
      (sendCopies env c self g sessionKey encryptedPayload members false)
      (fun r h' => r = .ok false → Unchanged w h'.1) h := by
  induction members generalizing h with
  | nil => exact fun _ => hw
  | cons member members ih =>
      refine wp_step fun receiverPublicKey h1 _ hh1 => ?_
      split
      · refine ih ?_
        rw [hh1]
        exact hw
      · refine wp_step fun n h2 _ _ => ?_
        refine wp_ofExcept_bind ?_ fun _ _ e => by cases e
        intro message _
        refine wp_bind.mpr (wp_mono (fun r h' _ => ?_) wp_trivial)
        rcases r with x | _
        · exact fun e => by cases e
        · exact wp_mono (fun r h' hr e => absurd e hr) (wp_sendCopies_true members)

theorem wp_sendMessage_failure (toUser plaintext : Str) :
    env.system.wp (fun _ => True) (fun _ => True) i (sendMessage env c toUser plaintext)
      (fun r h' => r = .ok false → Unchanged h.1 h'.1) h := by
  refine wp_step fun self h1 _ hh1 => ?_
  subst hh1
  split
  · refine wp_step fun receiverPublicKey h2 _ hh2 => ?_
    subst hh2
    split
    · exact fun _ => .refl h.1
    · refine wp_step fun n h3 _ _ => ?_
      refine wp_ofExcept_bind ?_ fun _ _ e => by cases e
      intro message _
      refine wp_bind.mpr (wp_mono (fun r h' _ => ?_) wp_trivial)
      cases r <;> exact fun e => by cases e
  · exact fun _ => .refl h.1

theorem wp_sendGroupMessage_failure (groupId plaintext : Str) :
    env.system.wp (fun _ => True) (fun _ => True) i (sendGroupMessage env c groupId plaintext)
      (fun r h' => r = .ok false → Unchanged h.1 h'.1) h := by
  refine wp_step fun self h1 _ hh1 => ?_
  subst hh1
  split
  · refine wp_step fun members h2 _ hh2 => ?_
    subst hh2
    split
    · exact fun _ => .refl h.1
    · refine wp_step fun n h3 _ hh3 => ?_
      refine wp_ofExcept_bind ?_ fun _ _ e => by cases e
      intro r _
      refine wp_sendCopies_failure members ?_
      rw [hh3]
      exact ⟨rfl, rfl, rfl⟩
  · exact fun _ => .refl h.1

/-! ### Every call -/

/-- A boolean function, as a call. -/
theorem wp_failureContract {q : Call} {p : Code Bool}
    (hbody : Call.body env q = p >>= fun b => pure (.bool b))
    (hp : env.system.wp (fun _ => True) (fun _ => True) i p
      (fun r h' => r = .ok false → (Unchanged w h'.1 ↔ FailsClean env w q)) h) :
    env.system.wp (fun _ => True) (fun _ => True) i (Call.body env q)
      (fun r h' => FailureContract env q w r h'.1) h := by
  rw [hbody]
  refine wp_bind_pure.mpr (wp_mono (fun r h' hr => ?_) hp)
  rcases r with x | b
  · exact fun v e => by cases e
  · intro v e hv
    cases e
    exact hr (congrArg _ hv)

/-- A function that reports no failures. -/
theorem wp_failureContract_of_never {α : Type} {q : Call} {p : Code α} {f : α → Value}
    (hbody : Call.body env q = p >>= fun a => pure (f a)) (hf : ∀ a, ¬ (f a).Failure) :
    env.system.wp (fun _ => True) (fun _ => True) i (Call.body env q)
      (fun r h' => FailureContract env q w r h'.1) h := by
  rw [hbody]
  refine wp_bind_pure.mpr (wp_mono (fun r h' _ => ?_) wp_trivial)
  rcases r with x | a
  · exact fun v e => by cases e
  · intro v e hv
    cases e
    exact absurd hv (hf a)

theorem wp_body_failure (q : Call) :
    env.system.wp (fun _ => True) (fun _ => True) i (Call.body env q)
      (fun r h' => FailureContract env q h.1 r h'.1) (env.system.push h i (.called q)) := by
  obtain ⟨c, op⟩ := q
  cases op with
  | registerOnServer p => exact wp_failureContract rfl (wp_registerOnServer_failure p)
  | login p => exact wp_failureContract rfl (wp_login_failure p)
  | sendMessage toUser plaintext =>
      refine wp_failureContract rfl (wp_mono (fun r h' hr e => ?_)
        (wp_sendMessage_failure toUser plaintext))
      exact iff_of_true (hr e) trivial
  | sendGroupMessage groupId plaintext =>
      refine wp_failureContract rfl (wp_mono (fun r h' hr e => ?_)
        (wp_sendGroupMessage_failure groupId plaintext))
      exact iff_of_true (hr e) trivial
  | deleteMessageForAll messageId =>
      refine wp_failureContract rfl (wp_step fun self h1 _ hh1 => ?_)
      subst hh1
      split
      · exact fun _ => iff_of_true (.refl h.1) trivial
      · refine wp_act.mpr fun e => iff_of_true ⟨?_, rfl, rfl⟩ trivial
        exact deleteMessageForAll_of_false (Except.ok.inj e)
  | addContact contact =>
      refine wp_failureContract rfl (wp_step fun self h1 _ hh1 => ?_)
      subst hh1
      refine wp_act.mpr fun e => iff_of_true ⟨?_, rfl, rfl⟩ trivial
      exact addContact_of_false (Except.ok.inj e)
  | removeContact contact =>
      refine wp_failureContract rfl (wp_step fun self h1 _ hh1 => ?_)
      subst hh1
      refine wp_act.mpr fun e => iff_of_true ⟨?_, rfl, rfl⟩ trivial
      exact removeContact_of_false (Except.ok.inj e)
  | createGroup groupName members =>
      intro v e hv
      cases e
      exact iff_of_true ⟨createGroup_of_none hv, rfl, rfl⟩ trivial
  | isLoggedIn => exact fun v e _ => iff_of_true (.refl h.1) trivial
  | logout => exact wp_failureContract_of_never (f := fun _ => .unit) rfl fun _ => id
  | listUsers => exact wp_failureContract_of_never (f := .names) rfl fun _ => id
  | listContacts => exact wp_failureContract_of_never (f := .names) rfl fun _ => id
  | listGroups => exact wp_failureContract_of_never (f := .names) rfl fun _ => id
  | getConversation peer => exact wp_failureContract_of_never (f := .views) rfl fun _ => id
  | getGroupConversation g => exact wp_failureContract_of_never (f := .views) rfl fun _ => id
  | username => exact fun v e hv => by cases e; exact hv.elim

/-- **When failures are without effect.**  In every run, a call that has returned
false, or no group id, has left the server, all clients and all files as they
were if and only if it fails clean. -/
theorem failed_unchanged_iff (env : Env) (names : ClientId → Str) (disk : Str → Option Str)
    (ms : List (Move Exn Call)) : Meets (FailureContract env) (env.run names disk ms).hist :=
  run_meets env.system (fun _ => trivial) (fun q _ _ _ => wp_body_failure q) ms

/-- Two clients of one name register. -/
def namesakes : List (Move Exn Call) :=
  [.call ⟨3, .registerOnServer (str "pw")⟩, .call ⟨4, .registerOnServer (str "pw")⟩]

/-- The second one fails, but now it has a key pair. -/
theorem failed_changed : ¬ ∀ ms, Meets (fun _ w r w' => ∀ v, r = .ok v → v.Failure → Unchanged w w')
    (Env.reference.run Env.names Env.noFiles ms).hist := by
  intro h
  have hentries : ∃ x ∈ (Env.reference.run Env.names Env.noFiles namesakes).hist.2,
      ∃ y ∈ (Env.reference.run Env.names Env.noFiles namesakes).hist.2, y.inst = x.inst ∧
        callOf x.act = some ⟨4, .registerOnServer (str "pw")⟩ ∧
        valueOf y.act = some (.bool false) ∧
        (y.before.clients 4).keyPair ≠ (x.before.clients 4).keyPair := by decide +kernel
  obtain ⟨x, hx, y, hy, hinst, hcall, hvalue, hne⟩ := hentries
  have hsame := h namesakes x hx y hy hinst _ _ (called_of_callOf hcall) (returned_of_valueOf hvalue)
    (.bool false) rfl rfl
  exact hne (congrArg (fun clients => (clients 4).keyPair) hsame.clients)

end Evlampy
