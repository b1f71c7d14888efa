/-
Evlampy/Symbols.lean

A run in symbols.  What clients hand to the server and its transport is read as
terms: every send has a session key and a plaintext of its own, which are secret
names; a public key stands for itself; a ciphertext is what was encrypted and
under which key.  `Handed` says which terms have been handed over, and `Denotes`
which bytes a term stands for.

The two are connected by `allTraced_run`: in every run, the encrypted fields of
every message that is stored or transmitted are the bytes of the terms its call
hands over, messages go to the users their call is addressed to, and key pairs are
made, and registered, by clients of the user they belong to.
-/
import Evlampy.DolevYao
import Evlampy.Sending

namespace Evlampy

open Cxx Callback Prog System ChatServer MessageProtocol ChatClient
open AES256GCMStrategy OpenSSLKeyFactory

/-! ### Symbols -/

/-- What is secret: the session key and the plaintext of a call, and passwords. -/
inductive Secret
  | sessionKey (i : Nat)
  | plaintext (i : Nat)
  | password (rawPassword : Str)

/-- Terms; public and private keys are known by their PEM texts. -/
abbrev Symbol := DolevYao.Term Secret Str Str Str

namespace Symbol

/-- The key call `i` draws. -/
def sessionKey (i : Nat) : Symbol := .name (.sessionKey i)

/-- The text call `i` sends. -/
def plaintext (i : Nat) : Symbol := .name (.plaintext i)

/-- A password as it is typed. -/
def password (rawPassword : Str) : Symbol := .name (.password rawPassword)

end Symbol

/-- The text a call sends. -/
def Op.text : Op → Str
  | .sendMessage _ plaintext => plaintext
  | .sendGroupMessage _ plaintext => plaintext
  | _ => []

/-- The bytes a term stands for in a run: a session key is generated with the first
number its call draws. -/
def Denotes (env : Env) (h : History) : Symbol → Bytes → Prop
  | .data d, b => b = d
  | .name (.sessionKey i), b =>
      ∃ q w, CalledAt h i q w ∧ generateSymmetricKey env.ssl w.draws 32 = .ok b
  | .name (.plaintext i), b => ∃ q w, CalledAt h i q w ∧ b = q.op.text
  | .name (.password rawPassword), b => b = rawPassword
  | .publicKey pem, b => b = pem
  | .privateKey pem, b => b = pem
  | .hash t, b => ∃ n a, Denotes env h t a ∧ hashPassword env n a = .ok b
  | .aenc pem t, b => ∃ n a, Denotes env h t a ∧ encryptWithPublicKey env.ssl n pem a = .ok b
  | .senc key t, b =>
      ∃ n k a, Denotes env h key k ∧ Denotes env h t a ∧ encrypt env.ssl n a k = .ok b

variable {env : Env} {names : ClientId → Str} {h h' h'' : History} {i : Nat} {c : ClientId}
  {m : Message} {q : Call} {w : World}

theorem Denotes.mono (hg : Grows h h') {t : Symbol} {b : Bytes} (hb : Denotes env h t b) :
    Denotes env h' t b := by
  induction t generalizing b with
  | name n =>
      cases n with
      | sessionKey i =>
          obtain ⟨q, w, hq, hgen⟩ := hb
          exact ⟨q, w, hq.mono hg, hgen⟩
      | plaintext i =>
          obtain ⟨q, w, hq, htext⟩ := hb
          exact ⟨q, w, hq.mono hg, htext⟩
      | password rawPassword => exact hb
  | hash t ih =>
      obtain ⟨n, a, ha, hhash⟩ := hb
      exact ⟨n, a, ih ha, hhash⟩
  | aenc pem t ih =>
      obtain ⟨n, a, ha, henc⟩ := hb
      exact ⟨n, a, ih ha, henc⟩
  | senc key t ihkey ih =>
      obtain ⟨n, k, a, hk, ha, henc⟩ := hb
      exact ⟨n, k, a, ihkey hk, ih ha, henc⟩
  | _ => exact hb

/-! ### What is handed over -/

/-- Call `i` hands over a copy for the user `u`: its payload to the transport, or the
message to the server. -/
def HandsOver (h : History) (i : Nat) (u : Str) : Prop :=
  ∃ x ∈ h.2, x.inst = i ∧ (x.act = .did (.tcp (.findHandler u)) ∨
    ∃ m, x.act = .did (.server (.storeMessage m)) ∧ m.receiver = u)

/-- What has been handed to the server and its transport, apart from names, ids,
times and the like, which are public: the encrypted fields of messages and
payloads, the password hashes, and the public keys of the user records. -/
inductive Handed (h : History) : Symbol → Prop
  | encryptedSessionKey {i : Nat} {u pem : Str} (passed : HandsOver h i u)
      (record : h.1.server.publicKeyOf u = some pem) : Handed h (.aenc pem (Symbol.sessionKey i))
  | encryptedPayload {i : Nat} {u : Str} (passed : HandsOver h i u) :
      Handed h (.senc (Symbol.sessionKey i) (Symbol.plaintext i))
  | encryptedSelfSessionKey {i : Nat} {c : ClientId} {toUser text u : Str} {w : World}
      (called : CalledAt h i ⟨c, .sendMessage toUser text⟩ w) (passed : HandsOver h i u) :
      Handed h (.aenc (w.clients c).keyPair.publicKeyPem (Symbol.sessionKey i))
  | passwordHash {i : Nat} {c : ClientId} {rawPassword : Str} {op : Op} {w : World}
      (called : CalledAt h i ⟨c, op⟩ w)
      (account : op = .registerOnServer rawPassword ∨ op = .login rawPassword) :
      Handed h (.hash (Symbol.password rawPassword))
  | publicKeyPem {x : Entry Eff Notice Exn Call Value World} {u passwordHash pem : Str}
      (mem : x ∈ h.2) (act : x.act = .did (.server (.registerUser u passwordHash pem))) :
      Handed h (.publicKey pem)

/-- The users a call made in `w` is addressed to. -/
def Addressed (q : Call) (w : World) (u : Str) : Prop :=
  match q.op with
  | .sendMessage toUser _ => u = toUser
  | .sendGroupMessage groupId _ => u ∈ w.server.getGroupMembers groupId
  | _ => False

/-- Call `i` is addressed to `u`. -/
def Addresses (h : History) (i : Nat) (u : Str) : Prop :=
  ∃ q w, CalledAt h i q w ∧ Addressed q w u

theorem Addresses.mono (hg : Grows h h') {u : Str} (ha : Addresses h i u) : Addresses h' i u := by
  obtain ⟨q, w, hq, ha⟩ := ha
  exact ⟨q, w, hq.mono hg, ha⟩

/-- The bytes of the message `m` are those of the terms call `i` hands over. -/
structure Spelled (env : Env) (h : History) (i : Nat) (m : Message) : Prop where
  receiver : Addresses h i m.receiver
  sessionKey : ∃ pem, h.1.server.publicKeyOf m.receiver = some pem ∧
    Denotes env h (.aenc pem (Symbol.sessionKey i)) m.encryptedSessionKey
  payload : Denotes env h (.senc (Symbol.sessionKey i) (Symbol.plaintext i)) m.encryptedPayload
  selfSessionKey : m.encryptedSelfSessionKey = [] ∨
    ∃ c toUser text w, CalledAt h i ⟨c, .sendMessage toUser text⟩ w ∧
      Denotes env h (.aenc (w.clients c).keyPair.publicKeyPem (Symbol.sessionKey i))
        m.encryptedSelfSessionKey

theorem Spelled.mono (hg : Grows h h') (hm : Spelled env h i m) : Spelled env h' i m := by
  obtain ⟨pem, hpem, hkey⟩ := hm.sessionKey
  refine ⟨hm.receiver.mono hg, ⟨pem, hg.publicKeyOf _ _ hpem, hkey.mono hg⟩,
    hm.payload.mono hg, ?_⟩
  rcases hm.selfSessionKey with hnone | ⟨c, toUser, text, w, hq, hself⟩
  · exact Or.inl hnone
  · exact Or.inr ⟨c, toUser, text, w, hq.mono hg, hself.mono hg⟩

/-- The status is not encrypted. -/
theorem Spelled.setStatus (hm : Spelled env h i m) (status : MessageStatus) :
    Spelled env h i { m with status := status } :=
  ⟨hm.receiver, hm.sessionKey, hm.payload, hm.selfSessionKey⟩

/-! ### Keys in memory -/

/-- The public key an assignment brings into memory. -/
def Update.publicHalf : Update → Option Str
  | .keyPair k => some k.publicKeyPem
  | .publicKeyPem pem => some pem
  | _ => none

/-- The private key an assignment brings into memory. -/
def Update.privateHalf : Update → Option Str
  | .keyPair k => some k.privateKeyPem
  | .privateKeyPem pem => some pem
  | _ => none

/-- The client has or had the public key in memory. -/
def HeldPublic (h : History) (c : ClientId) (pem : Str) : Prop :=
  ∃ x ∈ h.2, ∃ u, x.act = .did (.assign c u) ∧ u.publicHalf = some pem

/-- The client has or had the private key in memory. -/
def HeldPrivate (h : History) (c : ClientId) (pem : Str) : Prop :=
  ∃ x ∈ h.2, ∃ u, x.act = .did (.assign c u) ∧ u.privateHalf = some pem

/-- The client has generated the pair. -/
def Made (h : History) (c : ClientId) (keyPair : KeyPair) : Prop :=
  ∃ x ∈ h.2, x.act = .did (.assign c (.keyPair keyPair))

theorem Made.mono (hg : Grows h h') {keyPair : KeyPair} (hm : Made h c keyPair) :
    Made h' c keyPair := by
  obtain ⟨x, hx, ha⟩ := hm
  exact ⟨x, hg.trace x hx, ha⟩

theorem Made.heldPublic {keyPair : KeyPair} (hm : Made h c keyPair) :
    HeldPublic h c keyPair.publicKeyPem := by
  obtain ⟨x, hx, ha⟩ := hm
  exact ⟨x, hx, _, ha, rfl⟩

theorem Made.heldPrivate {keyPair : KeyPair} (hm : Made h c keyPair) :
    HeldPrivate h c keyPair.privateKeyPem := by
  obtain ⟨x, hx, ha⟩ := hm
  exact ⟨x, hx, _, ha, rfl⟩

theorem HeldPublic.mono (hg : Grows h h') {pem : Str} (hp : HeldPublic h c pem) :
    HeldPublic h' c pem := by
  obtain ⟨x, hx, u, ha, hu⟩ := hp
  exact ⟨x, hg.trace x hx, u, ha, hu⟩

theorem HeldPrivate.mono (hg : Grows h h') {pem : Str} (hp : HeldPrivate h c pem) :
    HeldPrivate h' c pem := by
  obtain ⟨x, hx, u, ha, hu⟩ := hp
  exact ⟨x, hg.trace x hx, u, ha, hu⟩

/-! ### Traces in symbols -/

/-- What is behind an act of instance `i`. -/
def Traced (env : Env) (names : ClientId → Str) (h : History) (i : Nat) :
    Act Eff Notice Exn Call Value → Prop
  | .did (.server (.storeMessage m)) => Spelled env h i m
  | .did (.server (.registerUser u passwordHash pem)) =>
      ∃ c rawPassword w privateKeyPem, CalledAt h i ⟨c, .registerOnServer rawPassword⟩ w ∧
        names c = u ∧ Denotes env h (.hash (Symbol.password rawPassword)) passwordHash ∧
        Made h c ⟨pem, privateKeyPem⟩
  | .did (.tcp (.findHandler u)) => Addresses h i u
  | .did (.invoke _ _ payload) =>
      ∃ m, Spelled env h i m ∧ serialize env.ssl.base64 m = .ok payload
  | .did (.assign c (.keyPair keyPair)) =>
      ∃ rawPassword w n, CalledAt h i ⟨c, .registerOnServer rawPassword⟩ w ∧ Owns h i n ∧
        generateRsaKeyPair env.ssl n 2048 = .ok keyPair
  | .notified n => Addresses h i (names n.receiver)
  | _ => True

theorem Traced.mono (hg : Grows h h') {a : Act Eff Notice Exn Call Value}
    (ha : Traced env names h i a) : Traced env names h' i a := by
  unfold Traced at ha ⊢
  split
  · exact Spelled.mono hg ha
  · obtain ⟨c, rawPassword, w, s, hq, hname, hhash, hmade⟩ := ha
    exact ⟨c, rawPassword, w, s, hq.mono hg, hname, hhash.mono hg, hmade.mono hg⟩
  · exact Addresses.mono hg ha
  · obtain ⟨m, hm, hwire⟩ := ha
    exact ⟨m, hm.mono hg, hwire⟩
  · obtain ⟨rawPassword, w, n, hq, hown, hgen⟩ := ha
    exact ⟨rawPassword, w, n, hq.mono hg, hown.mono hg, hgen⟩
  · exact Addresses.mono hg ha
  · trivial

/-- All acts are traced. -/
def AllTraced (env : Env) (names : ClientId → Str) (h : History) : Prop :=
  ∀ x ∈ h.2, Traced env names h x.inst x.act

theorem AllTraced.push {a : Act Eff Notice Exn Call Value} (hI : AllTraced env names h)
    (ha : Traced env names (env.system.push h i a) i a) :
    AllTraced env names (env.system.push h i a) := by
  intro x hx
  rcases List.mem_cons.mp hx with rfl | hx
  · exact ha
  · exact (hI x hx).mono (Grows.push env h i a)

/-- A call has gone on, and everything is traced. -/
structure Going (env : Env) (names : ClientId → Str) (h h' : History) : Prop where
  traced : AllTraced env names h'
  grows : Grows h h'

theorem Going.refl (hI : AllTraced env names h) : Going env names h h := ⟨hI, .refl h⟩

theorem Going.act (hg : Going env names h h') {e : Eff}
    (ha : Traced env names (env.system.push h' i (.did e)) i (.did e)) :
    Going env names h (env.system.push h' i (.did e)) :=
  ⟨hg.traced.push ha, hg.grows.trans (Grows.push env h' i _)⟩

/-- One traced act, with names for its answer and for the history after it. -/
theorem wp_going {α : Type} {e : Eff} {f : e.Res → Code α}
    {post : Except Exn α → History → Prop} (hg : Going env names h h')
    (ha : Traced env names (env.system.push h' i (.did e)) i (.did e))
    (k : ∀ r h'', r = (e.exec env h'.1).1 → h'' = env.system.push h' i (.did e) →
      Going env names h h'' →
        env.system.wp (Sound env names) (AllTraced env names) i (f r) post h'') :
    env.system.wp (Sound env names) (AllTraced env names) i
      ((Prog.act e : Code e.Res) >>= f) post h' :=
  wp_step fun r h'' hr hh'' => k r h'' hr hh'' (hh'' ▸ hg.act ha)

/-! ### Registration -/

theorem wp_registerOnServer_traced {rawPassword : Str} (hs : Sound env names h)
    (hI : AllTraced env names h) (hq : CalledAt h i ⟨c, .registerOnServer rawPassword⟩ w) :
    env.system.wp (Sound env names) (AllTraced env names) i (registerOnServer env c rawPassword)
      (fun _ h' => AllTraced env names h') h := by
  refine wp_going (.refl hI) trivial fun self h1 hself _ hg1 => ?_
  obtain rfl : self = h.1.clients c := hself
  split
  · exact hg1.traced
  · refine wp_going hg1 trivial fun n h2 hn hh2 hg2 => ?_
    apply wp_ofExcept_bind
    · intro keyPair hgen
      -- the key pair is generated from a draw of this call
      have hown : Owns h2 i n := by
        rw [hh2]
        refine owns_push.mpr (Or.inr ⟨rfl, 2, rfl, Nat.le_of_eq hn.symm, ?_⟩)
        rw [hn]
        exact Nat.lt_add_of_pos_right (by decide)
      refine wp_going hg2 ?_ fun _ h3 _ hh3 hg3 => ?_
      · have hgrows := Grows.push env h2 i (.did (.assign c (.keyPair keyPair)))
        exact ⟨rawPassword, w, n, (hq.mono hg2.grows).mono hgrows, hown.mono hgrows, hgen⟩
      · have hmade : Made h3 c keyPair := by
          rw [hh3]
          exact ⟨_, List.mem_cons_self, rfl⟩
        apply wp_ofExcept_bind
        · intro passwordHash hhash
          refine wp_going hg3 ?_ fun registered h4 _ _ hg4 => ?_
          -- the hash is that of the password the call was given, salted with its own draw
          · have hgrows := Grows.push env h3 i (.did (.server
              (.registerUser (h.1.clients c).username passwordHash keyPair.publicKeyPem)))
            exact ⟨c, rawPassword, w, keyPair.privateKeyPem, (hq.mono hg3.grows).mono hgrows,
              (hs.named c).symm, ⟨n + 1, rawPassword, rfl, hhash⟩, hmade.mono hgrows⟩
          · refine wp_going hg4 trivial fun _ h5 _ _ hg5 => ?_
            split
            · -- what is left only reads and writes files
              refine wp_map (fun _ _ hK => hK) (wp_of_allActs (V := fun _ => False)
                (P := fun e => ∀ h i, Traced env names h i (.did e)) ?_ ?_ ?_ hg5.traced)
              · exact fun e h' he hK => hK.push (he _ i)
              · exact fun n h' hn => hn.elim
              · exact saveKeyPairToDisk_allActs env c (fun _ _ => trivial) (fun _ _ _ => trivial)
                  fun _ _ _ _ => trivial
            · exact hg5.traced
        · exact fun _ _ => hg3.traced
    · exact fun _ _ => hg2.traced

/-! ### Sending -/

/-- A send has gone on. -/
structure Sending (env : Env) (names : ClientId → Str) (h h' : History) : Prop extends
    Going env names h h' where
  sound : Sound env names h'

theorem wp_sending {α : Type} {e : Eff} {f : e.Res → Code α}
    {post : Except Exn α → History → Prop} (hg : Sending env names h h') (he : SendActs e)
    (ha : Traced env names (env.system.push h' i (.did e)) i (.did e))
    (k : ∀ r h'', r = (e.exec env h'.1).1 → h'' = env.system.push h' i (.did e) →
      Sending env names h h'' →
        env.system.wp (Sound env names) (AllTraced env names) i (f r) post h'') :
    env.system.wp (Sound env names) (AllTraced env names) i
      ((Prog.act e : Code e.Res) >>= f) post h' :=
  wp_going hg.toGoing ha fun r h'' hr hh'' hg'' => k r h'' hr hh'' ⟨hg'', hh'' ▸ hg.sound.act he⟩

/-- `handleIncoming` of a client whose user the call is addressed to. -/
theorem wp_handleIncoming_traced {r : ClientId} (hg : Sending env names h h')
    (hr : Addresses h' i (names r)) (fromUser payload : Str) :
    env.system.wp (Sound env names) (AllTraced env names) i (handleIncoming env r fromUser payload)
      (fun _ h'' => Sending env names h h'') h' := by
  refine wp_mono (fun _ _ hK => hK.1) (wp_of_allActs
    (P := fun e => SendActs e ∧ ∀ h i, Traced env names h i (.did e))
    (V := fun n => n.receiver = r)
    (K := fun h'' => Sending env names h h'' ∧ Addresses h'' i (names r)) ?_ ?_ ?_ ⟨hg, hr⟩)
  · rintro e h'' ⟨he, htraced⟩ ⟨hg'', hr''⟩
    exact ⟨⟨hg''.act (htraced _ i), hg''.sound.act he⟩, hr''.mono (Grows.push env h'' i _)⟩
  · rintro n h'' rfl ⟨hg'', hr''⟩
    have hnote := Grows.push env h'' i (.notified n)
    refine ⟨hg''.traced.push (hr''.mono hnote), fun a h3 hJ hI ho => ?_⟩
    have hgrows := (hnote.trans (Grows.of_others ho)).trans (Grows.push env h3 i (.resumed a))
    exact ⟨⟨⟨hI.push trivial, hg''.grows.trans hgrows⟩, hJ.sessions, hJ.keys, hJ.named⟩,
      hr''.mono hgrows⟩
  · exact handleIncoming_allActs env r (fun d => ⟨trivial, fun _ _ => trivial⟩)
      (fun n => ⟨trivial, fun _ _ => trivial⟩) (fun event => rfl) fromUser payload

theorem wp_send_traced (hs : Sending env names h h) (hm : Spelled env h i m) {wire : Str}
    (hwire : serialize env.ssl.base64 m = .ok wire) :
    env.system.wp (Sound env names) (AllTraced env names) i (send env c m.receiver wire)
      (fun _ h' => Sending env names h h') h := by
  refine wp_sending hs trivial trivial fun self h1 _ _ hg1 => ?_
  split
  · have hreceiver := (hm.mono hg1.grows).receiver.mono
      (Grows.push env h1 i (.did (.tcp (.findHandler m.receiver))))
    refine wp_sending hg1 trivial hreceiver fun handler h2 hhandler hh2 hg2 => ?_
    rcases handler with - | r
    · exact hg2
    · -- the table has the client of this name
      have hname : names r = m.receiver :=
        (hg1.sound.named r).symm.trans ((hg1.sound.sessions.handler _ r).mp hhandler.symm).2
      refine wp_sending hg2 trivial ⟨m, ?_, hwire⟩ fun _ h3 _ _ hg3 => ?_
      · exact (hm.mono hg2.grows).mono (Grows.push env h2 i _)
      · refine wp_bind.mpr (wp_mono (fun x h4 hg4 => ?_) (wp_handleIncoming_traced hg3 ?_ _ _))
        · rcases x with x | _ <;> exact hg4
        · rw [hname]
          exact (hm.mono hg3.grows).receiver
  · exact hg1

theorem wp_deliver_traced (hs : Sending env names h h) (hm : Spelled env h i m) :
    env.system.wp (Sound env names) (AllTraced env names) i (deliver env c m.receiver m)
      (fun _ h' => Sending env names h h') h := by
  apply wp_ofExcept_bind
  · intro wire hwire
    refine wp_bind.mpr (wp_mono (fun x h1 hg1 => ?_) (wp_send_traced hs hm hwire))
    rcases x with x | b
    · exact hg1
    · refine wp_act.mpr ⟨hg1.act ?_, hg1.sound.act trivial⟩
      exact ((hm.mono hg1.grows).mono (Grows.push env h1 i _)).setStatus _
  · exact fun _ _ => hs

theorem wp_sendMessage_traced {toUser text : Str} (hs : Sending env names h h)
    (hq : CalledAt h i ⟨c, .sendMessage toUser text⟩ h.1) :
    env.system.wp (Sound env names) (AllTraced env names) i (sendMessage env c toUser text)
      (fun _ h' => AllTraced env names h') h := by
  refine wp_sending hs trivial trivial fun self h1 hself hh1 hg1 => ?_
  obtain rfl : self = h.1.clients c := hself
  split
  · refine wp_sending hg1 trivial trivial fun pem h2 hpem hh2 hg2 => ?_
    split
    · exact hg2.traced
    · next hne =>
      refine wp_sending hg2 trivial trivial fun n h3 hn _ hg3 => ?_
      apply wp_ofExcept_bind
      · intro m hm
        obtain ⟨⟨sessionKey, hgen, hpayload, hkey, hself⟩, -, -, rfl, -, -⟩ :=
          composeMessage_eq_ok hm
        -- the numbers are the first ones the call draws
        obtain rfl : n = h.1.draws := by
          rw [hn, hh2, hh1]
          rfl
        have hrecord : h.1.server.publicKeyOf m.receiver = some pem := by
          refine publicKeyOf_of_getPublicKey ?_ hne
          rw [hpem, hh1]
          rfl
        have hq3 := hq.mono hg3.grows
        have hdenotes : Denotes env h3 (Symbol.sessionKey i) sessionKey := ⟨_, h.1, hq3, hgen⟩
        have hspelled : Spelled env h3 i m := by
          refine ⟨⟨_, h.1, hq3, rfl⟩,
            ⟨pem, hg3.grows.publicKeyOf _ _ hrecord, _, _, hdenotes, hkey⟩,
            ⟨_, _, _, hdenotes, ⟨_, h.1, hq3, rfl⟩, hpayload⟩, Or.inr ⟨c, _, _, h.1, hq3, ?_⟩⟩
          exact ⟨_, _, hdenotes, hself⟩
        refine wp_bind.mpr (wp_mono (fun x h4 hg4 => ?_)
          (wp_deliver_traced ⟨.refl hg3.traced, hg3.sound⟩ hspelled))
        rcases x with x | _ <;> exact hg4.traced
      · exact fun _ _ => hg3.traced
  · exact hg1.traced

/-- The copies share the session key and the payload. -/
theorem wp_sendCopies_traced {self : ChatClient} {groupId : Str} {sessionKey payload : Bytes}
    (members : List Str) (haddressed : ∀ u ∈ members, Addresses h i u)
    (hkey : Denotes env h (Symbol.sessionKey i) sessionKey)
    (hpayload : Denotes env h (.senc (Symbol.sessionKey i) (Symbol.plaintext i)) payload)
    (hs : Sending env names h h) (anySent : Bool) :
    env.system.wp (Sound env names) (AllTraced env names) i
      (sendCopies env c self groupId sessionKey payload members anySent)
      (fun _ h' => AllTraced env names h') h := by
  induction members generalizing h anySent with
  | nil => exact hs.traced
  | cons member members ih =>
      have hrest : ∀ {h' : History}, Sending env names h h' → ∀ anySent,
          env.system.wp (Sound env names) (AllTraced env names) i
            (sendCopies env c self groupId sessionKey payload members anySent)
            (fun _ h' => AllTraced env names h') h' := fun hg => ih
        (fun u hu => (haddressed u (List.mem_cons_of_mem _ hu)).mono hg.grows)
        (hkey.mono hg.grows) (hpayload.mono hg.grows) ⟨.refl hg.traced, hg.sound⟩
      refine wp_sending hs trivial trivial fun pem h1 hpem _ hg1 => ?_
      split
      · exact hrest hg1 anySent
      · next hne =>
        have hrecord : h.1.server.publicKeyOf member = some pem :=
          publicKeyOf_of_getPublicKey hpem hne
        refine wp_sending hg1 trivial trivial fun n h2 _ _ hg2 => ?_
        apply wp_ofExcept_bind
        · intro m hm
          obtain ⟨henc, rfl, hnoself, -, -, rfl, -, -⟩ := composeCopy_eq_ok hm
          have hspelled : Spelled env h2 i m :=
            ⟨(haddressed _ List.mem_cons_self).mono hg2.grows,
              ⟨pem, hg2.grows.publicKeyOf _ _ hrecord, _, _, hkey.mono hg2.grows, henc⟩,
              hpayload.mono hg2.grows, Or.inl hnoself⟩
          refine wp_bind.mpr (wp_mono (fun x h3 hg3 => ?_)
            (wp_deliver_traced ⟨.refl hg2.traced, hg2.sound⟩ hspelled))
          rcases x with x | _
          · exact hg3.traced
          · exact hrest ⟨⟨hg3.traced, hg2.grows.trans hg3.grows⟩, hg3.sound⟩ true
        · exact fun _ _ => hg2.traced

theorem wp_sendGroupMessage_traced {groupId text : Str} (hs : Sending env names h h)
    (hq : CalledAt h i ⟨c, .sendGroupMessage groupId text⟩ h.1) :
    env.system.wp (Sound env names) (AllTraced env names) i (sendGroupMessage env c groupId text)
      (fun _ h' => AllTraced env names h') h := by
  refine wp_sending hs trivial trivial fun self h1 hself hh1 hg1 => ?_
  split
  · refine wp_sending hg1 trivial trivial fun members h2 hmembers hh2 hg2 => ?_
    split
    · exact hg2.traced
    · refine wp_sending hg2 trivial trivial fun n h3 hn _ hg3 => ?_
      apply wp_ofExcept_bind
      · intro r hr
        obtain ⟨hgen, hpayload⟩ := composePayload_eq_ok hr
        obtain rfl : n = h.1.draws := by
          rw [hn, hh2, hh1]
          rfl
        obtain rfl : members = h.1.server.getGroupMembers groupId := by
          rw [hmembers, hh1]
          rfl
        have hq3 := hq.mono hg3.grows
        have hdenotes : Denotes env h3 (Symbol.sessionKey i) r.1 := ⟨_, h.1, hq3, hgen⟩
        exact wp_sendCopies_traced _ (fun u hu => ⟨_, h.1, hq3, hu⟩) hdenotes
          ⟨_, _, _, hdenotes, ⟨_, h.1, hq3, rfl⟩, hpayload⟩ ⟨.refl hg3.traced, hg3.sound⟩ false
      · exact fun _ _ => hg3.traced
  · exact hg1.traced

/-! ### Runs -/

/-- The acts of the other calls need no explanation. -/
theorem traced_of_footprint {op : Op} {e : Eff} (hregister : ∀ p, op ≠ .registerOnServer p)
    (hop : ¬ op.Sends) (he : Footprint c op e) (h : History) (i : Nat) :
    Traced env names h i (.did e) := by
  cases op with
  | registerOnServer p => exact absurd rfl (hregister p)
  | sendMessage _ _ => exact absurd trivial hop
  | sendGroupMessage _ _ => exact absurd trivial hop
  | login p =>
      cases e with
      | server q => cases q <;> trivial
      | tcp q => cases q <;> trivial
      | assign d u => cases u <;> trivial
      | invoke => exact he.elim
      | _ => trivial
  | logout =>
      cases e with
      | server q => exact he.elim
      | tcp q => cases q <;> trivial
      | assign d u => cases u <;> trivial
      | invoke => exact he.elim
      | _ => trivial
  | _ =>
      cases e with
      | server q => cases q <;> trivial
      | tcp q => exact he.elim
      | assign d u => exact he.elim
      | invoke => exact he.elim
      | _ => trivial

/-- **Symbols and bytes agree**, in every run: all acts are traced. -/
theorem allTraced_run (env : Env) (names : ClientId → Str) (disk : Str → Option Str)
    (ms : List (Move Exn Call)) : AllTraced env names (env.run names disk ms).hist := by
  refine (run_invariant env.system (J := Sound env names) (I := AllTraced env names)
    (sound_run env names disk) (fun x hx => nomatch hx) ?_ ms).1
  intro q h i hJ hI _
  have hcalled : Sending env names (env.system.push h i (.called q))
      (env.system.push h i (.called q)) :=
    ⟨.refl (hI.push trivial), hJ.sessions, hJ.keys, hJ.named⟩
  have hcall : CalledAt (env.system.push h i (.called q)) i q h.1 :=
    calledAt_push.mpr (Or.inr ⟨rfl, rfl, rfl⟩)
  obtain ⟨c, op⟩ := q
  by_cases hregister : ∃ p, op = .registerOnServer p
  · obtain ⟨p, rfl⟩ := hregister
    exact wp_map (fun _ _ hK => hK.push trivial)
      (wp_registerOnServer_traced hcalled.sound hcalled.traced hcall)
  · by_cases hop : op.Sends
    · cases op with
      | sendMessage toUser text =>
          exact wp_map (fun _ _ hK => hK.push trivial) (wp_sendMessage_traced hcalled hcall)
      | sendGroupMessage groupId text =>
          exact wp_map (fun _ _ hK => hK.push trivial) (wp_sendGroupMessage_traced hcalled hcall)
      | _ => exact hop.elim
    · refine wp_mono (fun r h' hK => hK.push trivial)
        (wp_of_allActs (K := AllTraced env names) ?_ ?_ (body_allActs env ⟨c, op⟩) hcalled.traced)
      · exact fun e h' he hK =>
          hK.push (traced_of_footprint (fun p hp => hregister ⟨p, hp⟩) hop he _ i)
      · exact fun n h' hn => absurd hn hop

/-- A call is made once. -/
def OneCall (h : History) : Prop :=
  ∀ i q q' w w', CalledAt h i q w → CalledAt h i q' w' → q = q' ∧ w = w'

theorem OneCall.push {a : Act Eff Notice Exn Call Value} (ho : OneCall h)
    (hnew : ∀ q, a = .called q → ∀ x ∈ h.2, x.inst ≠ i) : OneCall (env.system.push h i a) := by
  have hfresh : ∀ {q q' w'}, a = .called q → ¬ CalledAt h i q' w' := by
    rintro q q' w' ha ⟨x, hx, hinst, -⟩
    exact hnew q ha x hx hinst
  intro j q q' w w' hq hq'
  rcases calledAt_push.mp hq with hold | ⟨rfl, ha, rfl⟩
  · rcases calledAt_push.mp hq' with hold' | ⟨rfl, ha', -⟩
    · exact ho j q q' w w' hold hold'
    · exact absurd hold (hfresh ha')
  · rcases calledAt_push.mp hq' with hold' | ⟨-, ha', rfl⟩
    · exact absurd hold' (hfresh ha)
    · rw [ha] at ha'
      cases ha'
      exact ⟨rfl, rfl⟩

theorem oneCall_run (env : Env) (names : ClientId → Str) (disk : Str → Option Str)
    (ms : List (Move Exn Call)) : OneCall (env.run names disk ms).hist := by
  refine (run_invariant env.system (J := fun _ => True) (I := OneCall) (fun _ => trivial)
    ?_ ?_ ms).1
  · rintro i q q' w w' ⟨x, hx, -⟩
    cases hx
  · intro q h i _ hI hlt
    have hquiet : ∀ {h' : History} (a : Act Eff Notice Exn Call Value), (∀ q, a ≠ .called q) →
        OneCall h' → OneCall (env.system.push h' i a) :=
      fun a ha hK => hK.push fun q e => absurd e (ha q)
    have hcalled : OneCall (env.system.push h i (.called q)) :=
      hI.push fun _ _ x hx => Nat.ne_of_lt (hlt x hx)
    refine wp_mono (fun r h' hK => hquiet _ (fun _ e => by cases e) hK)
      (wp_of_allActs (K := OneCall) ?_ ?_ (body_allActs env q) hcalled)
    · exact fun e h' _ hK => hquiet _ (fun _ e => by cases e) hK
    · intro n h' _ hK
      exact ⟨hquiet _ (fun _ e => by cases e) hK,
        fun a h'' _ hI' _ => hquiet _ (fun _ e => by cases e) hI'⟩

/-- Whom a call hands copies for, it is addressed to. -/
theorem AllTraced.addresses (hI : AllTraced env names h) {u : Str} (ho : HandsOver h i u) :
    Addresses h i u := by
  obtain ⟨x, hx, rfl, ha | ⟨m, ha, rfl⟩⟩ := ho
  · have htraced := hI x hx
    rw [ha] at htraced
    exact htraced
  · have htraced := hI x hx
    rw [ha] at htraced
    exact Spelled.receiver htraced

/-- The record a registration adds. -/
theorem publicKeyOf_registerUser {s : ChatServer} {v hash k u pem : Str}
    (hu : (s.registerUser v hash k).2.publicKeyOf u = some pem)
    (hold : s.publicKeyOf u ≠ some pem) : u = v ∧ pem = k := by
  rw [ChatServer.registerUser] at hu
  split at hu
  · exact absurd hu hold
  · rw [ChatServer.publicKeyOf] at hu
    rcases eq_or_ne u v with rfl | hne
    · rw [AList.lookup_insert] at hu
      exact ⟨rfl, (Option.some.inj hu).symm⟩
    · rw [AList.lookup_insert_ne hne] at hu
      exact absurd hu hold

/-- A public key on record has been registered. -/
theorem recorded_run (env : Env) (names : ClientId → Str) (disk : Str → Option Str)
    (ms : List (Move Exn Call)) {u pem : Str}
    (hu : (env.run names disk ms).hist.1.server.publicKeyOf u = some pem) :
    ∃ x ∈ (env.run names disk ms).hist.2, ∃ passwordHash,
      x.act = .did (.server (.registerUser u passwordHash pem)) := by
  have hpush : ∀ i a (h : History),
      (∀ u pem, h.1.server.publicKeyOf u = some pem →
        ∃ x ∈ h.2, ∃ hash, x.act = .did (.server (.registerUser u hash pem))) →
      ∀ u pem, (env.system.push h i a).1.server.publicKeyOf u = some pem →
        ∃ x ∈ (env.system.push h i a).2, ∃ hash,
          x.act = .did (.server (.registerUser u hash pem)) := by
    intro i a h hI u pem hu
    by_cases hold : h.1.server.publicKeyOf u = some pem
    · obtain ⟨x, hx, hash, ha⟩ := hI u pem hold
      exact ⟨x, List.mem_cons_of_mem _ hx, hash, ha⟩
    · -- the record has changed, which only a registration does
      cases a with
      | did e =>
          cases e with
          | server q =>
              by_cases hq : KeyFree (.server q)
              · exact absurd (((q.exec_change h.1.server).publicKeyOf hq u).symm.trans hu) hold
              · cases q with
                | registerUser v hash k =>
                    obtain ⟨rfl, rfl⟩ := publicKeyOf_registerUser hu hold
                    exact ⟨_, List.mem_cons_self, hash, rfl⟩
                | _ => exact absurd trivial hq
          | _ => exact absurd hu hold
      | _ => exact absurd hu hold
  exact run_keeps env.system (I := fun h => ∀ u pem, h.1.server.publicKeyOf u = some pem →
      ∃ x ∈ h.2, ∃ hash, x.act = .did (.server (.registerUser u hash pem)))
    (fun u pem hu => by cases hu) (fun q => .of_push hpush _) (fun i a h _ => hpush i a h) ms
    u pem hu

/-- The keys in memory are held, unless there are none. -/
structure InHand (h : History) (w : World) : Prop where
  publicKey : ∀ c, (w.clients c).keyPair.publicKeyPem ≠ [] →
    HeldPublic h c (w.clients c).keyPair.publicKeyPem
  privateKey : ∀ c, (w.clients c).keyPair.privateKeyPem ≠ [] →
    HeldPrivate h c (w.clients c).keyPair.privateKeyPem

theorem InHand.mono (hg : Grows h h') (hi : InHand h w) : InHand h' w :=
  ⟨fun c hne => (hi.publicKey c hne).mono hg, fun c hne => (hi.privateKey c hne).mono hg⟩

theorem InHand.of_clients {w' : World} (hi : InHand h w) (hclients : w'.clients = w.clients) :
    InHand h w' := by
  refine ⟨?_, ?_⟩
  · rw [hclients]
    exact hi.publicKey
  · rw [hclients]
    exact hi.privateKey

theorem InHand.assign {d : ClientId} {u : Update} (hi : InHand h h.1) :
    InHand (env.system.push h i (.did (.assign d u))) (h.1.assign d u) := by
  have hold := hi.mono (Grows.push env h i (.did (.assign d u)))
  refine ⟨fun c hne => ?_, fun c hne => ?_⟩
  all_goals rcases eq_or_ne c d with rfl | hcd
  · rw [World.assign_self] at hne ⊢
    cases u with
    | keyPair k => exact ⟨_, List.mem_cons_self, _, rfl, rfl⟩
    | publicKeyPem pem => exact ⟨_, List.mem_cons_self, _, rfl, rfl⟩
    | _ => exact hold.publicKey c hne
  · rw [World.assign_ne _ hcd] at hne ⊢
    exact hold.publicKey c hne
  · rw [World.assign_self] at hne ⊢
    cases u with
    | keyPair k => exact ⟨_, List.mem_cons_self, _, rfl, rfl⟩
    | privateKeyPem pem => exact ⟨_, List.mem_cons_self, _, rfl, rfl⟩
    | _ => exact hold.privateKey c hne
  · rw [World.assign_ne _ hcd] at hne ⊢
    exact hold.privateKey c hne

theorem InHand.push (a : Act Eff Notice Exn Call Value) (hi : InHand h h.1) :
    InHand (env.system.push h i a) (env.system.push h i a).1 := by
  have hold := hi.mono (Grows.push env h i a)
  cases a with
  | did e =>
      cases e with
      | assign d u => exact hi.assign
      | _ => exact hold.of_clients rfl
  | _ => exact hold

theorem inHand_run (env : Env) (names : ClientId → Str) (disk : Str → Option Str)
    (ms : List (Move Exn Call)) : ∀ x ∈ (env.run names disk ms).hist.2,
      InHand (env.run names disk ms).hist x.before := by
  have hpush : ∀ i a (h : History), (InHand h h.1 ∧ ∀ x ∈ h.2, InHand h x.before) →
      InHand (env.system.push h i a) (env.system.push h i a).1 ∧
        ∀ x ∈ (env.system.push h i a).2, InHand (env.system.push h i a) x.before := by
    rintro i a h ⟨hi, hbefore⟩
    refine ⟨hi.push a, fun x hx => ?_⟩
    rcases List.mem_cons.mp hx with rfl | hx
    · exact hi.mono (Grows.push env h i a)
    · exact (hbefore x hx).mono (Grows.push env h i a)
  refine (run_keeps env.system (I := fun h => InHand h h.1 ∧ ∀ x ∈ h.2, InHand h x.before) ?_
    (fun q => .of_push hpush _) (fun i a h _ => hpush i a h) ms).2
  exact ⟨⟨fun c hne => absurd rfl hne, fun c hne => absurd rfl hne⟩, fun x hx => nomatch hx⟩

/-- What is known of a run in symbols. -/
structure Understood (env : Env) (names : ClientId → Str) (h : History) : Prop where
  traced : AllTraced env names h
  calls : OneCall h
  owner : ∀ i j k, Owns h i k → Owns h j k → i = j
  recorded : ∀ u pem, h.1.server.publicKeyOf u = some pem →
    ∃ x ∈ h.2, ∃ passwordHash, x.act = .did (.server (.registerUser u passwordHash pem))
  inHand : ∀ x ∈ h.2, InHand h x.before

theorem understood_run (env : Env) (names : ClientId → Str) (disk : Str → Option Str)
    (ms : List (Move Exn Call)) : Understood env names (env.run names disk ms).hist where
  traced := allTraced_run env names disk ms
  calls := oneCall_run env names disk ms
  owner := (sends_run env names disk ms).owner
  recorded _ _ := recorded_run env names disk ms
  inHand := inHand_run env names disk ms

/-- A public key on record was generated by a client of the user. -/
theorem Understood.maker_of_record (hu : Understood env names h)
    (hrecord : h.1.server.publicKeyOf u = some p) : ∃ c s, names c = u ∧ Made h c ⟨p, s⟩ := by
  obtain ⟨x, hx, passwordHash, hact⟩ := hu.recorded u p hrecord
  have htraced := hu.traced x hx
  rw [hact] at htraced
  obtain ⟨c, rawPassword, w, s, -, hname, -, hmade⟩ := htraced
  exact ⟨c, s, hname, hmade⟩

/-- Only the clients' users are on record. -/
theorem recorded_subset_names (env : Env) (names : ClientId → Str) (disk : Str → Option Str)
    (ms : List (Move Exn Call)) :
    (env.run names disk ms).hist.1.server.recorded ⊆ Set.range names := by
  rintro u ⟨pem, hrecord⟩
  obtain ⟨c, -, hname, -⟩ := (understood_run env names disk ms).maker_of_record hrecord
  exact ⟨c, hname⟩

end Evlampy
