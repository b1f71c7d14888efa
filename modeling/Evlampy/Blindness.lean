/-
Evlampy/Blindness.lean

The server is blind.  An adversary that sees everything handed to the server and
its transport, and that has the private keys and the received plaintexts of some
corrupted users, learns neither a plaintext nor a session key of a message among
the others, nor a private key of theirs.

That is so exactly where no login crosses the line between the two groups
(`server_blind_iff`): a pair of key files is found by a path the user's name is
pasted into, and where two names lead to one file, a login takes the key pair of
another user for its own (`not_blind`).
-/
import Evlampy.KeyStore
import Evlampy.Symbols

namespace Evlampy

open Cxx Callback System ChatServer ChatClient DolevYao OpenSSLKeyFactory

/-! ### What the adversary knows -/

/-- RSA as the symbols have it: no two generated pairs share a half, and what is
encrypted under a public key is opened by its private key only. -/
structure OpenSSL.Ideal (ssl : OpenSSL) : Prop where
  fresh : ∀ n n' keyPair keyPair', generateRsaKeyPair ssl n 2048 = .ok keyPair →
    generateRsaKeyPair ssl n' 2048 = .ok keyPair' →
    keyPair.publicKeyPem = keyPair'.publicKeyPem ∨
      keyPair.privateKeyPem = keyPair'.privateKeyPem → n = n'
  opens : ∀ n n' publicKeyPem privateKeyPem data c out,
    encryptWithPublicKey ssl n publicKeyPem data = .ok c →
    decryptWithPrivateKey ssl n' privateKeyPem c = .ok out →
    ssl.Generated ⟨publicKeyPem, privateKeyPem⟩

/-- The messages a call of the server returns. -/
def ServerCall.messages : ServerCall → ChatServer → List Message
  | getConversation userA userB, s => s.getConversation userA userB
  | getGroupConversation groupId, s => s.getGroupConversation groupId
  | _, _ => []

variable (env : Env) (names : ClientId → Str) (B : Set Str) (h : History)

/-- A user in `B` receives the plaintext of call `i`: observers are told, or a client
reads a message of the call that it can decrypt. -/
inductive Receives (i : Nat) : Prop
  | told (x : Entry Eff Notice Exn Call Value World) (mem : x ∈ h.2) (inst : x.inst = i)
      (n : Notice) (act : x.act = .notified n) (corrupted : names n.receiver ∈ B)
  | viewed (c : ClientId) (corrupted : names c ∈ B) (op : Op) (w : World)
      (x : Entry Eff Notice Exn Call Value World) (mem : x ∈ h.2)
      (called : CalledAt h x.inst ⟨c, op⟩ w) (q : ServerCall) (act : x.act = .did (.server q))
      (m : Message) (listed : m ∈ q.messages x.before.server) (copy : m ∈ copiesOf i h)
      (n : Nat) (view : MessageView)
      (decrypted : decryptToView env (x.before.clients c) n m = .ok view)

/-- Everything handed over, with the private keys and the received plaintexts of the
users in `B`. -/
inductive Knows : Symbol → Prop
  | handed {t : Symbol} (handed : Handed h t) : Knows t
  | privateKey {c : ClientId} {pem : Str} (corrupted : names c ∈ B) (held : HeldPrivate h c pem) :
      Knows (.privateKey pem)
  | received {i : Nat} (receives : Receives env names B h i) : Knows (Symbol.plaintext i)

/-- What can be derived from that. -/
def Learns (t : Symbol) : Prop :=
  Derives (fun s p => env.ssl.Generated ⟨p, s⟩) (Knows env names B h) t

/-- A message with no user in `B` at either end. -/
def Confidential (q : Call) (w : World) : Prop :=
  match q.op with
  | .sendMessage toUser _ => names q.client ∉ B ∧ toUser ∉ B
  | .sendGroupMessage groupId _ => ∀ u ∈ w.server.getGroupMembers groupId, u ∉ B
  | _ => False

/-- The secrets of the users outside `B` are safe: the plaintexts and session keys of
their messages, and the private halves of all pairs whose public half a client of
theirs has or had in memory. -/
structure Blind : Prop where
  plaintext : ∀ i q w, CalledAt h i q w → Confidential names B q w →
    ¬ Learns env names B h (Symbol.plaintext i)
  sessionKey : ∀ i q w, CalledAt h i q w → Confidential names B q w →
    ¬ Learns env names B h (Symbol.sessionKey i)
  privateKey : ∀ c keyPair, names c ∉ B → HeldPublic h c keyPair.publicKeyPem →
    env.ssl.Generated keyPair → ¬ Learns env names B h (.privateKey keyPair.privateKeyPem)

/-- No login loads a half of a key pair from the other side: a user outside `B` no
public half where a user in `B` has the private one, and a user in `B` no private half
where a user outside has the public one. -/
structure OwnKeys : Prop where
  publicKey : ∀ x ∈ h.2, ∀ c p, x.act = .did (.assign c (.publicKeyPem p)) → names c ∉ B →
    ∀ d s, names d ∈ B → HeldPrivate h d s → ¬ env.ssl.Generated ⟨p, s⟩
  privateKey : ∀ x ∈ h.2, ∀ d s, x.act = .did (.assign d (.privateKeyPem s)) → names d ∈ B →
    ∀ c p, names c ∉ B → HeldPublic h c p → ¬ env.ssl.Generated ⟨p, s⟩

variable {env names B h} {i : Nat} {q : Call} {w : World} {c d : ClientId} {p s u : Str}

/-! ### Key pairs -/

/-- A public key in memory was generated by the client or loaded by it. -/
theorem heldPublic_cases (hp : HeldPublic h c p) :
    (∃ s, Made h c ⟨p, s⟩) ∨ ∃ x ∈ h.2, x.act = .did (.assign c (.publicKeyPem p)) := by
  obtain ⟨x, hx, u, ha, hu⟩ := hp
  cases u with
  | keyPair k =>
      cases hu
      exact Or.inl ⟨k.privateKeyPem, x, hx, ha⟩
  | publicKeyPem pem =>
      cases hu
      exact Or.inr ⟨x, hx, ha⟩
  | _ => cases hu

theorem heldPrivate_cases (hs : HeldPrivate h d s) :
    (∃ p, Made h d ⟨p, s⟩) ∨ ∃ x ∈ h.2, x.act = .did (.assign d (.privateKeyPem s)) := by
  obtain ⟨x, hx, u, ha, hu⟩ := hs
  cases u with
  | keyPair k =>
      cases hu
      exact Or.inl ⟨k.publicKeyPem, x, hx, ha⟩
  | privateKeyPem pem =>
      cases hu
      exact Or.inr ⟨x, hx, ha⟩
  | _ => cases hu

/-- Two clients that have generated the halves of one pair are one. -/
theorem Understood.one_maker (hu : Understood env names h) (hideal : env.ssl.Ideal) {s' p' : Str}
    (hmade : Made h c ⟨p, s'⟩) (hmade' : Made h d ⟨p', s⟩) (hgen : env.ssl.Generated ⟨p, s⟩) :
    c = d := by
  obtain ⟨x, hx, hact⟩ := hmade
  obtain ⟨y, hy, hact'⟩ := hmade'
  have htraced := hu.traced x hx
  have htraced' := hu.traced y hy
  rw [hact] at htraced
  rw [hact'] at htraced'
  obtain ⟨rawPassword, w, n, hcalled, hown, hn⟩ := htraced
  obtain ⟨rawPassword', w', n', hcalled', hown', hn'⟩ := htraced'
  obtain ⟨k, hk⟩ := hgen
  -- all three generations drew the same number, so they are one
  obtain rfl := hideal.fresh k n _ _ hk hn (Or.inl rfl)
  obtain rfl := hideal.fresh k n' _ _ hk hn' (Or.inr rfl)
  have hinst := hu.owner _ _ _ hown hown'
  rw [hinst] at hcalled
  exact congrArg Call.client (hu.calls _ _ _ _ _ hcalled hcalled').1

theorem Understood.generated_of_made (hu : Understood env names h) {keyPair : KeyPair}
    (hmade : Made h c keyPair) : env.ssl.Generated keyPair := by
  obtain ⟨x, hx, hact⟩ := hmade
  have htraced := hu.traced x hx
  rw [hact] at htraced
  obtain ⟨-, -, n, -, -, hn⟩ := htraced
  exact ⟨n, hn⟩

/-- No pair has its halves on both sides. -/
theorem OwnKeys.apart (hown : OwnKeys env names B h) (hu : Understood env names h)
    (hideal : env.ssl.Ideal) (hc : names c ∉ B) (hd : names d ∈ B) (hp : HeldPublic h c p)
    (hs : HeldPrivate h d s) : ¬ env.ssl.Generated ⟨p, s⟩ := by
  rcases heldPublic_cases hp with ⟨s', hmade⟩ | ⟨x, hx, hload⟩
  · rcases heldPrivate_cases hs with ⟨p', hmade'⟩ | ⟨y, hy, hload⟩
    · intro hgen
      have hcd := hu.one_maker hideal hmade hmade' hgen
      rw [hcd] at hc
      exact hc hd
    · exact hown.privateKey y hy d s hload hd c p hc hp
  · exact hown.publicKey x hx c p hload hc d s hd hs

/-! ### The closed set -/

/-- The private keys no user in `B` has had. -/
def Locked (names : ClientId → Str) (B : Set Str) (h : History) (s : Str) : Prop :=
  ∀ d, names d ∈ B → ¬ HeldPrivate h d s

/-- The names that stay hidden. -/
def Hidden (names : ClientId → Str) (B : Set Str) (h : History) : Secret → Prop
  | .sessionKey i => ∃ q w, CalledAt h i q w ∧ Confidential names B q w
  | .plaintext i => ∃ q w, CalledAt h i q w ∧ Confidential names B q w
  | .password _ => False

/-- What is known of a run that meets the condition. -/
structure Guarded (env : Env) (names : ClientId → Str) (B : Set Str) (h : History) : Prop where
  understood : Understood env names h
  ideal : env.ssl.Ideal
  own : OwnKeys env names B h

theorem Guarded.locked (hg : Guarded env names B h) (hc : names c ∉ B) (hp : HeldPublic h c p)
    (hgen : env.ssl.Generated ⟨p, s⟩) : Locked names B h s := by
  intro d hd hs
  exact hg.own.apart hg.understood hg.ideal hc hd hp hs hgen

/-- A confidential message is addressed to users outside `B`. -/
theorem Understood.notMem_of_addresses (hu : Understood env names h) (hq : CalledAt h i q w)
    (hconf : Confidential names B q w) (ha : Addresses h i u) : u ∉ B := by
  obtain ⟨q', w', hq', ha⟩ := ha
  obtain ⟨rfl, rfl⟩ := hu.calls i q q' w w' hq hq'
  obtain ⟨c, op⟩ := q
  cases op with
  | sendMessage toUser text =>
      obtain rfl : u = toUser := ha
      exact hconf.2
  | sendGroupMessage groupId text => exact hconf u ha
  | _ => exact ha.elim

/-- The key a confidential message is wrapped in for a receiver is locked. -/
theorem Guarded.receiver_locked (hg : Guarded env names B h) (hq : CalledAt h i q w)
    (hconf : Confidential names B q w) (ha : Addresses h i u)
    (hrecord : h.1.server.publicKeyOf u = some p) (hgen : env.ssl.Generated ⟨p, s⟩) :
    Locked names B h s := by
  obtain ⟨c, s', hname, hmade⟩ := hg.understood.maker_of_record hrecord
  refine hg.locked (c := c) ?_ hmade.heldPublic hgen
  rw [hname]
  exact hg.understood.notMem_of_addresses hq hconf ha

/-- So is the key it is wrapped in for the sender. -/
theorem Guarded.sender_locked (hg : Guarded env names B h) {toUser text : Str}
    (hq : CalledAt h i ⟨c, .sendMessage toUser text⟩ w) {q' : Call} {w' : World}
    (hq' : CalledAt h i q' w') (hconf : Confidential names B q' w')
    (hgen : env.ssl.Generated ⟨(w.clients c).keyPair.publicKeyPem, s⟩) : Locked names B h s := by
  obtain ⟨rfl, rfl⟩ := hg.understood.calls i _ _ _ _ hq hq'
  obtain ⟨x, hx, -, -, rfl⟩ := hq
  exact hg.locked hconf.1
    ((hg.understood.inHand x hx).publicKey c hgen.ne_nil.1) hgen

/-- Who shows a message has opened its key. -/
theorem exists_sessionKey_of_decryptToView {self : ChatClient} {n : Nat} {m : Message}
    {view : MessageView} (hv : decryptToView env self n m = .ok view) : ∃ sessionKey,
      decryptWithPrivateKey env.ssl n self.keyPair.privateKeyPem (keyToUse self m)
        = .ok sessionKey := by
  simp only [decryptToView, bind_eq_ok] at hv
  obtain ⟨sessionKey, hkey, -⟩ := hv
  exact ⟨sessionKey, hkey⟩

/-- Who can read a confidential message has a locked key. -/
theorem Guarded.locked_of_decryptToView (hg : Guarded env names B h) (hq : CalledAt h i q w)
    (hconf : Confidential names B q w) {m : Message} (hm : Spelled env h i m) {self : ChatClient}
    {n : Nat} {view : MessageView} (hv : decryptToView env self n m = .ok view) :
    self.keyPair.privateKeyPem ≠ [] ∧ Locked names B h self.keyPair.privateKeyPem := by
  obtain ⟨sessionKey, hkey⟩ := exists_sessionKey_of_decryptToView hv
  rw [keyToUse] at hkey
  split at hkey
  · next hself =>
    rcases hm.selfSessionKey with hnone | ⟨c', toUser, text, w', hq', n', a, -, henc⟩
    · exact absurd hnone hself.2
    · have hgen := hg.ideal.opens _ _ _ _ _ _ _ henc hkey
      exact ⟨hgen.ne_nil.2, hg.sender_locked hq' hq hconf hgen⟩
  · obtain ⟨pem, hrecord, n', a, -, henc⟩ := hm.sessionKey
    have hgen := hg.ideal.opens _ _ _ _ _ _ _ henc hkey
    exact ⟨hgen.ne_nil.2, hg.receiver_locked hq hconf hm.receiver hrecord hgen⟩

/-- No user in `B` receives a confidential message. -/
theorem Guarded.not_receives (hg : Guarded env names B h) (hq : CalledAt h i q w)
    (hconf : Confidential names B q w) : ¬ Receives env names B h i := by
  intro hr
  cases hr with
  | told x mem inst n act corrupted =>
      have htraced := hg.understood.traced x mem
      rw [act, inst] at htraced
      exact hg.understood.notMem_of_addresses hq hconf htraced corrupted
  | viewed c corrupted op w' x mem called q' act m listed copy n view decrypted =>
      obtain ⟨y, hy, hinst, hact⟩ := mem_copiesOf.mp copy
      have htraced := hg.understood.traced y hy
      rw [hact, hinst] at htraced
      -- the reader would have a private key it cannot have
      obtain ⟨hne, hlocked⟩ := hg.locked_of_decryptToView hq hconf htraced decrypted
      exact hlocked c corrupted ((hg.understood.inHand x mem).privateKey c hne)

/-- Everything the adversary knows is safe. -/
theorem Guarded.safe_of_knows (hg : Guarded env names B h) {t : Symbol}
    (hk : Knows env names B h t) :
    t.Safe (fun s p => env.ssl.Generated ⟨p, s⟩) (Hidden names B h) (Locked names B h) := by
  cases hk with
  | handed handed =>
      cases handed with
      | @encryptedSessionKey i u pem passed record =>
          by_cases hconf : ∃ q w, CalledAt h i q w ∧ Confidential names B q w
          · obtain ⟨q, w, hq, hconf⟩ := hconf
            exact Or.inr fun s hgen => hg.receiver_locked hq hconf
              (hg.understood.traced.addresses passed) record hgen
          · exact Or.inl hconf
      | @encryptedPayload i u passed =>
          by_cases hconf : ∃ q w, CalledAt h i q w ∧ Confidential names B q w
          · exact Or.inr fun hsafe => hsafe hconf
          · exact Or.inl hconf
      | @encryptedSelfSessionKey i c toUser text u w called passed =>
          by_cases hconf : ∃ q w, CalledAt h i q w ∧ Confidential names B q w
          · obtain ⟨q, w', hq, hconf⟩ := hconf
            exact Or.inr fun s hgen => hg.sender_locked called hq hconf hgen
          · exact Or.inl hconf
      | passwordHash called account => trivial
      | publicKeyPem mem act => trivial
  | @privateKey c pem corrupted held => exact fun hlocked => hlocked c corrupted held
  | received receives =>
      rintro ⟨q, w, hq, hconf⟩
      exact hg.not_receives hq hconf receives

/-- **The server is blind**, in every run: exactly where no login loads a half of a
key pair from the other side. -/
theorem server_blind_iff (env : Env) (hideal : env.ssl.Ideal) (names : ClientId → Str)
    (disk : Str → Option Str) (ms : List (Move Exn Call)) (B : Set Str) :
    Blind env names B (env.run names disk ms).hist ↔
      OwnKeys env names B (env.run names disk ms).hist := by
  constructor
  · intro hblind
    refine ⟨fun x hx c p hload hc d s hd hs hgen => ?_, fun x hx d s hload hd c p hc hp hgen => ?_⟩
    · have hp : HeldPublic (env.run names disk ms).hist c p := ⟨x, hx, _, hload, rfl⟩
      exact hblind.privateKey c ⟨p, s⟩ hc hp hgen (.known (.privateKey hd hs))
    · have hs : HeldPrivate (env.run names disk ms).hist d s := ⟨x, hx, _, hload, rfl⟩
      exact hblind.privateKey c ⟨p, s⟩ hc hp hgen (.known (.privateKey hd hs))
  · intro hown
    have hg : Guarded env names B (env.run names disk ms).hist :=
      ⟨understood_run env names disk ms, hideal, hown⟩
    have hsafe := fun t => hg.safe_of_knows (t := t)
    refine ⟨fun i q w hq hconf => ?_, fun i q w hq hconf => ?_, fun c keyPair hc hp hgen => ?_⟩
    · exact not_derives_name hsafe ⟨q, w, hq, hconf⟩
    · exact not_derives_name hsafe ⟨q, w, hq, hconf⟩
    · exact not_derives_privateKey hsafe (hg.locked hc hp hgen)

/-! ### Files that work -/

/-- What a client of the user `u` loads is a half of the pair on record. -/
def OwnLoad (env : Env) (server : ChatServer) (u : Str) : Update → Prop
  | .privateKeyPem pem =>
      ∃ publicKeyPem, server.publicKeyOf u = some publicKeyPem ∧
        env.ssl.Generated ⟨publicKeyPem, pem⟩
  | .publicKeyPem pem => server.publicKeyOf u = some pem
  | _ => True

/-- All loads of a trace are such. -/
def LoadsOwn (env : Env) (names : ClientId → Str) (h : History) : Prop :=
  ∀ x ∈ h.2, ∀ c u, x.act = .did (.assign c u) → OwnLoad env h.1.server (names c) u

variable {J I : History → Prop} {h' : History}

theorem OwnLoad.mono (hg : Grows h h') {update : Update} (ho : OwnLoad env h.1.server u update) :
    OwnLoad env h'.1.server u update := by
  cases update with
  | privateKeyPem pem =>
      obtain ⟨publicKeyPem, hrecord, hgen⟩ := ho
      exact ⟨publicKeyPem, hg.publicKeyOf _ _ hrecord, hgen⟩
  | publicKeyPem pem => exact hg.publicKeyOf _ _ ho
  | _ => trivial

theorem LoadsOwn.push {a : Act Eff Notice Exn Call Value} (hI : LoadsOwn env names h)
    (ha : ∀ c u, a = .did (.assign c u) → OwnLoad env h.1.server (names c) u) :
    LoadsOwn env names (env.system.push h i a) := by
  have hg := Grows.push env h i a
  intro x hx c u hact
  rcases List.mem_cons.mp hx with rfl | hx
  · exact (ha c u hact).mono hg
  · exact (hI x hx c u hact).mono hg

/-- Acts that load nothing. -/
theorem LoadsOwn.quiet {a : Act Eff Notice Exn Call Value} (hI : LoadsOwn env names h)
    (ha : ∀ c u, a ≠ .did (.assign c u)) : LoadsOwn env names (env.system.push h i a) :=
  hI.push fun c u e => absurd e (ha c u)

/-- The files of a registered user hold the pair on record. -/
theorem wp_loadKeyPairFromDisk_own {users : Set Str} (hfw : env.FilesWork users) {keyPair : KeyPair}
    (hname : (h.1.clients c).username = names c) (hgen : env.ssl.Generated keyPair)
    (hrecord : h.1.server.publicKeyOf (names c) = some keyPair.publicKeyPem)
    (hon : OnDisk env h.1.disk (names c) keyPair) (hI : LoadsOwn env names h) :
    env.system.wp J I i (loadKeyPairFromDisk env c)
      (fun _ h' => LoadsOwn env names h') h := by
  unfold loadKeyPairFromDisk
  cases hhome : env.home with
  | none => exact hI
  | some homeDir =>
      obtain ⟨hpriv, hpub⟩ := hon homeDir hhome
      refine wp_step fun self h1 hself hh1 => ?_
      obtain rfl : self = h.1.clients c := hself
      have hI1 : LoadsOwn env names h1 := hh1 ▸ hI.quiet (fun _ _ e => by cases e)
      refine wp_step fun priv h2 hread hh2 => ?_
      have hI2 : LoadsOwn env names h2 := hh2 ▸ hI1.quiet (fun _ _ e => by cases e)
      -- what is read is what was written at the registration
      obtain rfl : priv = some keyPair.privateKeyPem := by
        rw [hread, hh1, hname]
        show env.read h.1.draws _ (h.1.disk _) = _
        rw [hpriv, hfw.read]
      refine wp_step fun _ h3 _ hh3 => ?_
      -- the half that is assigned belongs to the pair on record
      have hI3 : LoadsOwn env names h3 := by
        rw [hh3]
        refine hI2.push fun d u e => ?_
        cases e
        refine ⟨keyPair.publicKeyPem, ?_, hgen⟩
        rw [hh2, hh1]
        exact hrecord
      refine wp_step fun pub h4 hread hh4 => ?_
      have hI4 : LoadsOwn env names h4 := hh4 ▸ hI3.quiet (fun _ _ e => by cases e)
      obtain rfl : pub = some keyPair.publicKeyPem := by
        rw [hread, hh3, hh2, hh1, hname]
        show env.read (h.1.draws + 1) _ (h.1.disk _) = _
        rw [hpub, hfw.read]
      refine wp_step fun _ h5 _ hh5 => ?_
      show LoadsOwn env names h5
      rw [hh5]
      refine hI4.push fun d u e => ?_
      cases e
      show h4.1.server.publicKeyOf (names c) = some keyPair.publicKeyPem
      rw [hh4, hh3, hh2, hh1]
      exact hrecord

theorem wp_login_own (hfw : env.FilesWork h.1.server.recorded) (rawPassword : Str)
    (hs : Sound env names h) (hI : LoadsOwn env names h) :
    env.system.wp J I i (login env c rawPassword)
      (fun _ h' => LoadsOwn env names h') h := by
  refine wp_step fun self h1 hself hh1 => ?_
  obtain rfl : self = h.1.clients c := hself
  have hI1 : LoadsOwn env names h1 := hh1 ▸ hI.quiet (fun _ _ e => by cases e)
  split
  · exact hI1
  · refine wp_step fun n h2 _ hh2 => ?_
    have hI2 : LoadsOwn env names h2 := hh2 ▸ hI1.quiet (fun _ _ e => by cases e)
    apply wp_ofExcept_bind
    · intro passwordHash _
      refine wp_step fun authenticated h3 hauth hh3 => ?_
      have hI3 : LoadsOwn env names h3 := hh3 ▸ hI2.quiet (fun _ _ e => by cases e)
      split
      · next hyes =>
        -- who is let through is registered, and so has key files
        obtain ⟨pem, hpem⟩ := publicKeyOf_of_authenticate (hauth.symm.trans hyes)
        rw [hs.named c, hh2, hh1] at hpem
        obtain ⟨keyPair, hgen, rfl, hon⟩ := (hs.keys hfw).onRecord _ _ hpem
        refine wp_bind.mpr (wp_mono (fun r h4 hI4 => ?_)
          (wp_loadKeyPairFromDisk_own hfw ?_ hgen ?_ ?_ hI3))
        · rcases r with x | loaded
          · exact hI4
          · cases loaded with
            | false => exact hI4
            | true =>
                -- connecting and logging in load no keys
                refine wp_bind.mpr (wp_mono (fun r h5 hI5 => ?_) (wp_of_allActs
                  (K := LoadsOwn env names) ?_ ?_ (connect_keyFree c _) hI4))
                · rcases r with x | connected
                  · exact hI5
                  · refine wp_step fun _ h6 _ hh6 => ?_
                    have hI6 : LoadsOwn env names h6 := by
                      rw [hh6]
                      exact hI5.push fun d u e => by cases e; trivial
                    cases connected with
                    | false => exact hI6
                    | true =>
                        refine wp_step fun _ h7 _ hh7 => ?_
                        show LoadsOwn env names h7
                        rw [hh7]
                        exact hI6.push fun d u e => by cases e; trivial
                · intro e h' he hK
                  refine hK.push fun d u e' => ?_
                  cases e'
                  cases u <;> trivial
                · exact fun n h' hn => hn.elim
        · rw [hh3, hh2, hh1]
          exact hs.named c
        · rw [hh3, hh2, hh1]
          exact hpem
        · rw [hh3, hh2, hh1]
          exact hon
      · exact hI3
    · exact fun _ _ => hI2

/-- Only `login` loads keys. -/
theorem ownLoad_of_footprint {op : Op} (hlogin : ∀ p, op ≠ .login p) {update : Update}
    (he : Footprint c op (.assign d update)) (server : ChatServer) (u : Str) :
    OwnLoad env server u update := by
  cases op with
  | login p => exact absurd rfl (hlogin p)
  | registerOnServer p => cases update <;> trivial
  | logout => cases update <;> trivial
  | _ => exact he.elim

theorem loadsOwn_run (names : ClientId → Str) (disk : Str → Option Str)
    (ms : List (Move Exn Call))
    (hfw : env.FilesWork (env.run names disk ms).hist.1.server.recorded) :
    LoadsOwn env names (env.run names disk ms).hist := by
  generalize husers : (env.run names disk ms).hist.1.server.recorded = users at hfw
  -- as long as nobody else is on record, the files are right
  refine (run_invariant env.system (J := Sound env names)
    (I := fun h => h.1.server.recorded ⊆ users → LoadsOwn env names h)
    (sound_run env names disk) (fun _ x hx => nomatch hx) ?_ ms).1 husers.subset
  intro q h i hJ hI _
  have hcalled : LoadsOwn env names h → LoadsOwn env names (env.system.push h i (.called q)) :=
    fun hK => hK.quiet (fun _ _ e => by cases e)
  have hreturn : ∀ {h' : History} (r : Except Exn Value), LoadsOwn env names h' →
      LoadsOwn env names (env.system.push h' i (.returned r)) :=
    fun r hK => hK.quiet (fun _ _ e => by cases e)
  obtain ⟨c, op⟩ := q
  by_cases hlogin : ∃ p, op = .login p
  · obtain ⟨p, rfl⟩ := hlogin
    by_cases hknown : h.1.server.recorded ⊆ users
    · exact wp_map (fun r _ hK _ => hreturn r hK) (wp_login_own
        (h := env.system.push h i (.called ⟨c, .login p⟩)) (hfw.mono hknown) p
        ⟨hJ.sessions, hJ.keys, hJ.named⟩ (hcalled (hI hknown)))
    · exact wp_mono (fun r h' hK hsub => absurd hsub hK)
        (wp_body_unknown (q := ⟨c, .login p⟩) not_false hknown)
  · refine wp_mono (fun r h' hK => ?_) (wp_of_allActs
      (K := fun h => h.1.server.recorded ⊆ users → LoadsOwn env names h) ?_ ?_
      (body_allActs env ⟨c, op⟩) fun hsub => hcalled (hI hsub))
    · exact fun hsub => hreturn r (hK hsub)
    · intro e h' he hK hsub
      refine (hK ((recorded_subset_exec env e h'.1).trans hsub)).push fun d u e' => ?_
      cases e'
      exact ownLoad_of_footprint (fun p hp => hlogin ⟨p, hp⟩) he _ _
    · exact fun n h' _ hK => ⟨fun hsub => (hK hsub).quiet (fun _ _ e => by cases e),
        fun a h'' _ hI' _ hsub => (hI' hsub).quiet (fun _ _ e => by cases e)⟩

/-- A user some client of which has generated the pair with this public half. -/
def Maker (names : ClientId → Str) (h : History) (p u : Str) : Prop :=
  ∃ c s, names c = u ∧ Made h c ⟨p, s⟩

/-- **Files that work keep users apart**: every login loads the pair its own user has
registered. -/
theorem ownKeys_of_filesWork (hideal : env.ssl.Ideal) (names : ClientId → Str)
    (disk : Str → Option Str) (ms : List (Move Exn Call)) (B : Set Str)
    (hfw : env.FilesWork (env.run names disk ms).hist.1.server.recorded) :
    OwnKeys env names B (env.run names disk ms).hist := by
  have hu := understood_run env names disk ms
  have hloads := loadsOwn_run names disk ms hfw
  generalize (env.run names disk ms).hist = h at hu hloads
  have hpublic : ∀ {c p}, HeldPublic h c p → Maker names h p (names c) := by
    intro c p hp
    rcases heldPublic_cases hp with ⟨s, hmade⟩ | ⟨x, hx, hload⟩
    · exact ⟨c, s, rfl, hmade⟩
    · obtain ⟨c', s, hname, hmade⟩ := hu.maker_of_record (hloads x hx c _ hload)
      exact ⟨c', s, hname, hmade⟩
  have hprivate : ∀ {d p s}, HeldPrivate h d s → env.ssl.Generated ⟨p, s⟩ →
      Maker names h p (names d) := by
    rintro d p s hs ⟨n, hn⟩
    rcases heldPrivate_cases hs with ⟨p', hmade⟩ | ⟨x, hx, hload⟩
    · obtain ⟨n', hn'⟩ := hu.generated_of_made hmade
      obtain rfl := hideal.fresh n n' _ _ hn hn' (Or.inr rfl)
      cases hn.symm.trans hn'
      exact ⟨d, s, rfl, hmade⟩
    · obtain ⟨p', hrecord, n', hn'⟩ := hloads x hx d _ hload
      obtain rfl := hideal.fresh n n' _ _ hn hn' (Or.inr rfl)
      cases hn.symm.trans hn'
      obtain ⟨d', s', hname, hmade⟩ := hu.maker_of_record hrecord
      exact ⟨d', s', hname, hmade⟩
  -- a pair has one maker, so its halves are on one side
  have hone : ∀ {p u v}, Maker names h p u → Maker names h p v → u = v := by
    rintro p u v ⟨c, s, rfl, hmade⟩ ⟨d, s', rfl, hmade'⟩
    rw [hu.one_maker hideal hmade hmade' (hu.generated_of_made hmade')]
  have hapart : ∀ c d p s, names c ∉ B → names d ∈ B → HeldPublic h c p → HeldPrivate h d s →
      ¬ env.ssl.Generated ⟨p, s⟩ := by
    intro c d p s hc hd hp hs hgen
    rw [hone (hpublic hp) (hprivate hs hgen)] at hc
    exact hc hd
  refine ⟨fun x hx c p hload hc d s hd hs => ?_, fun x hx d s hload hd c p hc hp => ?_⟩
  · exact hapart c d p s hc hd ⟨x, hx, _, hload, rfl⟩ hs
  · exact hapart c d p s hc hd hp ⟨x, hx, _, hload, rfl⟩

/-! ### An ideal library -/

/-- The number of a key in unary, from its PEM text. -/
def readNumber (kind pem : Str) : Option Nat :=
  if pem = kind ++ List.replicate (pem.length - kind.length) 1 then
    some (pem.length - kind.length)
  else none

/-- The reference library with a key pair for every number. -/
def OpenSSL.ideal : OpenSSL :=
  { OpenSSL.reference with
    rsaKeygen := fun n _ => .ok ⟨pub ++ List.replicate n 1, prv ++ List.replicate n 1⟩
    rsaEncrypt := fun _ pem _ data =>
      match readNumber pub pem with
      | none => .error .readPem
      | some k =>
          if data.length ≤ 214 then .ok (List.replicate k 1 ++ 0 :: data) else .error .encrypt
    rsaDecrypt := fun _ pem _ data =>
      match readNumber prv pem with
      | none => .error .readPem
      | some k =>
          if data.take (k + 1) = List.replicate k 1 ++ [0] then .ok (data.drop (k + 1))
          else .error .decrypt }

theorem readNumber_eq_some {kind pem : Str} {k : Nat} (h : readNumber kind pem = some k) :
    pem = kind ++ List.replicate k 1 := by
  unfold readNumber at h
  split at h
  · next hpem =>
    cases h
    exact hpem
  · cases h

/-- A number in unary is read off what it is put in front of. -/
theorem replicate_append_inj {k k' : Nat} {r r' : Bytes}
    (h : List.replicate k (1 : UInt8) ++ 0 :: r = List.replicate k' 1 ++ 0 :: r') : k = k' := by
  induction k generalizing k' with
  | zero =>
      cases k' with
      | zero => rfl
      | succ k' => cases h
  | succ k ih =>
      cases k' with
      | zero => cases h
      | succ k' => exact congrArg (· + 1) (ih (List.cons.inj h).2)

namespace OpenSSL

theorem ideal_generateRsaKeyPair (n : Nat) : generateRsaKeyPair ideal n 2048
    = .ok ⟨pub ++ List.replicate n 1, prv ++ List.replicate n 1⟩ := by
  simp [generateRsaKeyPair, ideal, pub, prv]

theorem ideal_encryptWithPublicKey {n : Nat} {pem : Str} {data c : Bytes}
    (henc : encryptWithPublicKey ideal n pem data = .ok c) :
    ∃ k, pem = pub ++ List.replicate k 1 ∧ c = List.replicate k 1 ++ 0 :: data := by
  simp only [encryptWithPublicKey, ideal] at henc
  rcases hk : readNumber pub pem with - | k
  · simp only [hk] at henc
    cases henc
  · refine ⟨k, readNumber_eq_some hk, ?_⟩
    by_cases hlen : data.length ≤ 214
    · simp only [hk, hlen, if_true, Except.ok.injEq] at henc
      exact henc.symm
    · simp only [hk, hlen, if_false] at henc
      cases henc

theorem ideal_decryptWithPrivateKey {n : Nat} {pem : Str} {c out : Bytes}
    (hdec : decryptWithPrivateKey ideal n pem c = .ok out) :
    ∃ k, pem = prv ++ List.replicate k 1 ∧ c = List.replicate k 1 ++ 0 :: out := by
  simp only [decryptWithPrivateKey, ideal] at hdec
  rcases hk : readNumber prv pem with - | k
  · simp only [hk] at hdec
    cases hdec
  · refine ⟨k, readNumber_eq_some hk, ?_⟩
    by_cases htake : c.take (k + 1) = List.replicate k 1 ++ [0]
    · simp only [hk, htake, if_true, Except.ok.injEq] at hdec
      have hcut := List.take_append_drop (k + 1) c
      rw [htake, hdec, List.append_assoc] at hcut
      exact hcut.symm
    · simp only [hk, htake, if_false] at hdec
      cases hdec

theorem ideal_ideal : ideal.Ideal where
  fresh n n' keyPair keyPair' hn hn' hhalf := by
    rw [ideal_generateRsaKeyPair] at hn hn'
    cases hn
    cases hn'
    rcases hhalf with h | h
    · simpa using congrArg List.length (List.append_cancel_left h)
    · simpa using congrArg List.length (List.append_cancel_left h)
  opens n n' publicKeyPem privateKeyPem data c out henc hdec := by
    obtain ⟨k, rfl, rfl⟩ := ideal_encryptWithPublicKey henc
    obtain ⟨k', rfl, hc⟩ := ideal_decryptWithPrivateKey hdec
    -- both keys have the number in front of the ciphertext
    obtain rfl := replicate_append_inj hc
    exact ⟨k, ideal_generateRsaKeyPair k⟩

end OpenSSL

namespace Env

/-- The reference environment with the ideal library. -/
def ideal : Env := { Env.reference with ssl := OpenSSL.ideal }

theorem ideal_filesWork {users : Set Str} : ideal.FilesWork users :=
  reference_filesWork.withSsl OpenSSL.ideal

/-- Alice writes to Bob, and Carol is corrupted. -/
def onlookerMoves : List (Move Exn Call) :=
  [.call ⟨0, .registerOnServer (str "pw")⟩, .call ⟨1, .registerOnServer (str "pw")⟩,
    .call ⟨2, .registerOnServer (str "pw")⟩, .call ⟨0, .login (str "pw")⟩,
    .call ⟨1, .login (str "pw")⟩, .call ⟨2, .login (str "pw")⟩,
    .call ⟨0, .sendMessage (str "bob") (str "hi")⟩, .answer (.ok ())]

end Env

/-- Carol learns nothing of the message that is stored for Bob. -/
theorem server_blind_carol :
    (∃ m ∈ copiesOf 6 (Env.ideal.run Env.names Env.noFiles Env.onlookerMoves).hist,
      m.receiver = str "bob") ∧
    Blind Env.ideal Env.names {u | u = str "carol"}
      (Env.ideal.run Env.names Env.noFiles Env.onlookerMoves).hist := by
  refine ⟨by decide +kernel, (server_blind_iff Env.ideal OpenSSL.ideal_ideal Env.names
    Env.noFiles Env.onlookerMoves {u | u = str "carol"}).mpr ?_⟩
  exact ownKeys_of_filesWork OpenSSL.ideal_ideal Env.names Env.noFiles
    Env.onlookerMoves {u | u = str "carol"} Env.ideal_filesWork

/-! ### Two names for one file -/

/-- A place as a text: a mark before every byte and after every component. -/
def placeCode (place : Posix.Place) : Str :=
  place.flatMap fun component => component.flatMap (fun b => [1, b]) ++ [0]

theorem placeCode_injective : Function.Injective placeCode := by
  have hcomponent : ∀ (x y : Posix.Path) (r r' : Str),
      x.flatMap (fun b => [1, b]) ++ 0 :: r = y.flatMap (fun b => [1, b]) ++ 0 :: r' →
        x = y ∧ r = r' := by
    intro x
    induction x with
    | nil =>
        intro y r r' h
        cases y with
        | nil => exact ⟨rfl, (List.cons.inj h).2⟩
        | cons b y => cases h
    | cons a x ih =>
        intro y r r' h
        cases y with
        | nil => cases h
        | cons b y =>
            obtain ⟨rfl, htail⟩ := List.cons.inj (List.cons.inj h).2
            obtain ⟨rfl, hr⟩ := ih y r r' htail
            exact ⟨rfl, hr⟩
  intro p
  induction p with
  | nil =>
      intro q h
      cases q with
      | nil => rfl
      | cons y q => exact absurd h (by simp [placeCode])
  | cons x p ih =>
      intro q h
      cases q with
      | nil => exact absurd h (by simp [placeCode])
      | cons y q =>
          simp only [placeCode, List.flatMap_cons, List.append_assoc, List.singleton_append] at h
          obtain ⟨rfl, hrest⟩ := hcomponent x y _ _ h
          rw [ih hrest]

namespace Env

/-- The ideal library on a POSIX system. -/
def idealPosix : Env := { Env.posix placeCode [] (str "/root") with ssl := OpenSSL.ideal }

theorem idealPosix_posixFiles : idealPosix.PosixFiles [] :=
  have hposix := posixFiles_posix placeCode_injective [] (str "/root")
  ⟨hposix.locate, hposix.write⟩

/-- Alice, Bob, and a user whose name is a path to the files of Bob. -/
def twinNames : ClientId → Str
  | 0 => str "alice"
  | 1 => str "bob"
  | _ => str "./bob"

/-- All register, the last one over the files of Bob, who then logs in and writes to
Alice. -/
def twinMoves : List (Move Exn Call) :=
  [.call ⟨0, .registerOnServer (str "pw")⟩, .call ⟨1, .registerOnServer (str "pw")⟩,
    .call ⟨2, .registerOnServer (str "pw")⟩, .call ⟨1, .login (str "pw")⟩,
    .call ⟨1, .sendMessage (str "alice") (str "hi")⟩]

end Env

/-- Bob's copy of his message to Alice is encrypted for `./bob`, who can read it. -/
theorem not_blind : ¬ ∀ env : Env, env.ssl.Ideal → env.PosixFiles [] →
    ∀ (names : ClientId → Str) (disk : Str → Option Str) (ms : List (Move Exn Call)) (B : Set Str)
      (i : Nat) (q : Call) (w : World), CalledAt (env.run names disk ms).hist i q w →
        Confidential names B q w →
          ¬ Learns env names B (env.run names disk ms).hist (Symbol.plaintext i) := by
  intro hblind
  have hu := understood_run Env.idealPosix Env.twinNames Env.noFiles Env.twinMoves
  have hcall : ∃ x ∈ (Env.idealPosix.run Env.twinNames Env.noFiles Env.twinMoves).hist.2,
      x.inst = 4 ∧ callOf x.act = some ⟨1, .sendMessage (str "alice") (str "hi")⟩ ∧
      (Env.idealPosix.run Env.twinNames Env.noFiles Env.twinMoves).hist.1.server.publicKeyOf
        (str "./bob") = some (x.before.clients 1).keyPair.publicKeyPem := by decide +kernel
  have hcopy : ∃ m ∈ copiesOf 4 (Env.idealPosix.run Env.twinNames Env.noFiles Env.twinMoves).hist,
      m.receiver = str "alice" := by decide +kernel
  have hlearns := hblind Env.idealPosix OpenSSL.ideal_ideal Env.idealPosix_posixFiles
    Env.twinNames Env.noFiles Env.twinMoves {u | u = str "./bob"}
  generalize (Env.idealPosix.run Env.twinNames Env.noFiles Env.twinMoves).hist = h at *
  obtain ⟨x, hx, hinst, hact, hrecord⟩ := hcall
  have hcalled : CalledAt h 4 ⟨1, .sendMessage (str "alice") (str "hi")⟩ x.before :=
    ⟨x, hx, hinst, called_of_callOf hact, rfl⟩
  obtain ⟨m, hm, hreceiver⟩ := hcopy
  obtain ⟨y, hy, hyinst, hyact⟩ := mem_copiesOf.mp hm
  have hover : HandsOver h 4 (str "alice") := ⟨y, hy, hyinst, Or.inr ⟨m, hyact, hreceiver⟩⟩
  obtain ⟨c, s, hname, hmade⟩ := hu.maker_of_record hrecord
  refine hlearns 4 _ _ hcalled ⟨by decide, by decide⟩ ?_
  -- the session key from the sender's copy, and the plaintext with it
  have hkey : Learns Env.idealPosix Env.twinNames {u | u = str "./bob"} h (Symbol.sessionKey 4) :=
    .adec (hu.generated_of_made hmade) (.known (.handed (.encryptedSelfSessionKey hcalled hover)))
      (.known (.privateKey (c := c) hname hmade.heldPrivate))
  exact .sdec (.known (.handed (.encryptedPayload hover))) hkey

end Evlampy
