/-
Evlampy/Agreement.lean

The live path and the history path.  A message reaches its receiver twice: as a
wire, which `handleIncoming` parses and decrypts for the observers, and as the
stored copy, which `decryptToView` decrypts for the history.  A wire that is
accepted reads as the message it was made of, so both paths use the same key on
the same ciphertext, and the sender's name, which the transport supplies on one
path and the message on the other, is the same because sessions agree.

`live_agrees_with_history`: once a send has returned, every notice it has given
has exactly one stored copy for its receiver, and a view of that copy shows what
the observers were told.
-/
import Evlampy.Delivery

namespace Evlampy

open Cxx Callback Prog System ChatServer MessageProtocol ChatClient
open AES256GCMStrategy OpenSSLKeyFactory

/-! ### What the two paths rely on -/

/-- Ciphertexts are written through `int` counts. -/
structure OpenSSL.IntSizes (ssl : OpenSSL) : Prop where
  gcm : ∀ (key iv data : Bytes) (size : Int) (c : Bytes) (tag : Buffer 16),
    ssl.sealGcm key iv data size = .ok (c, tag) → c.length < 2 ^ 31
  rsa : ∀ n pem size data c, ssl.rsaEncrypt n pem size data = .ok c → c.length < 2 ^ 31

/-- Decrypting does not depend on when it is done. -/
structure OpenSSL.Steady (ssl : OpenSSL) : Prop where
  rsa : ∀ n n' pem size data, ssl.rsaDecrypt n pem size data = ssl.rsaDecrypt n' pem size data
  newCipherCtx : ∀ n, ssl.newCipherCtx n = true

variable {env : Env} {names : ClientId → Str} {h h' : History} {i : Nat} {c : ClientId}
  {m : Message} {text : Str}

theorem OpenSSL.IntSizes.encrypt (hs : env.ssl.IntSizes) {n : Nat} {plaintext key out : Bytes}
    (henc : encrypt env.ssl n plaintext key = .ok out) : out.length < 3 * 2 ^ 30 := by
  obtain ⟨-, -, ⟨iv, hiv⟩, c, ⟨tag, htag⟩, -, hseal, rfl⟩ := OpenSSL.encrypt_eq_ok.mp henc
  have hc := hs.gcm _ _ _ _ _ _ hseal
  rw [List.length_append, List.length_append, hiv, htag]
  omega

theorem OpenSSL.IntSizes.encryptWithPublicKey (hs : env.ssl.IntSizes) {n : Nat} {pem : Str}
    {data out : Bytes} (henc : encryptWithPublicKey env.ssl n pem data = .ok out) :
    out.length < 3 * 2 ^ 30 := by
  unfold OpenSSLKeyFactory.encryptWithPublicKey at henc
  split at henc
  · cases henc
  · next c hc =>
    cases henc
    exact Nat.lt_trans (hs.rsa _ _ _ _ _ hc) (by decide)

/-- Two decryptions of one envelope. -/
theorem OpenSSL.Steady.decrypt_eq (hs : env.ssl.Steady) (n n' : Nat) (envelope key : Bytes) :
    decrypt env.ssl n envelope key = decrypt env.ssl n' envelope key := by
  unfold decrypt
  rw [hs.newCipherCtx n, hs.newCipherCtx n']

theorem OpenSSL.Steady.decryptWithPrivateKey_eq (hs : env.ssl.Steady) (n n' : Nat) (pem : Str)
    (data : Bytes) :
    decryptWithPrivateKey env.ssl n pem data = decryptWithPrivateKey env.ssl n' pem data := by
  unfold decryptWithPrivateKey
  rw [hs.rsa n n']

/-! ### What a call has told -/

/-- The notices of instance `i`, with the worlds they were given in. -/
def tellings (i : Nat) (h : History) : List (Notice × World) :=
  (own i h.2).filterMap fun x => (noticeOf x.act).map fun n => (n, x.before)

theorem tellings_push_self (a : Act Eff Notice Exn Call Value) : tellings i (env.system.push h i a)
    = ((noticeOf a).map fun n => (n, h.1)).toList ++ tellings i h := by
  rw [tellings, System.push, own_cons_self, List.filterMap_cons]
  cases noticeOf a <;> rfl

theorem tellings_push_of_none {a : Act Eff Notice Exn Call Value} (ha : noticeOf a = none) :
    tellings i (env.system.push h i a) = tellings i h := by
  rw [tellings_push_self, ha]
  rfl

theorem tellings_others (ho : env.system.Others i h h') : tellings i h' = tellings i h := by
  rw [tellings, ho.own_eq, tellings]

/-- What the observers were told by the notice `n`, given in the world `w`, is
what is in the copy `m`: the receiver of the copy was logged in, and found the
text with the key it held. -/
structure Mirrors (env : Env) (n : Notice) (w : World) (m : Message) : Prop where
  loggedIn : (w.clients n.receiver).loggedIn = true
  receiver : (w.clients n.receiver).username = m.receiver
  event : n.event = ⟨m.sender, n.event.text, m.chatId, m.messageId, m.isGroupMessage⟩
  keys : env.FilesWork w.server.recorded → KeyInv env w
  read : ∃ k sessionKey,
    decryptWithPrivateKey env.ssl k (w.clients n.receiver).keyPair.privateKeyPem
      (keyToUse (w.clients n.receiver) m) = .ok sessionKey ∧
    decrypt env.ssl k m.encryptedPayload sessionKey = .ok n.event.text

/-- Every notice of call `i` has a copy that call `i` has stored. -/
def Mirrored (env : Env) (i : Nat) (h : History) : Prop :=
  ∀ t ∈ tellings i h, ∃ m ∈ copiesOf i h, Mirrors env t.1 t.2 m

/-! ### The acts of a send -/

/-- Call `i` has gone on, alone, without storing or notifying. -/
structure Still (env : Env) (names : ClientId → Str) (i : Nat) (h h' : History) : Prop where
  sound : Sound env names h'
  copies : copiesOf i h' = copiesOf i h
  told : tellings i h' = tellings i h
  server : h'.1.server = h.1.server
  clients : h'.1.clients = h.1.clients

theorem Still.refl (hs : Sound env names h) : Still env names i h h := ⟨hs, rfl, rfl, rfl, rfl⟩

theorem Still.act (hq : Still env names i h h') {e : Eff} (he : SendActs e)
    (hstore : storedBy (.did e) = none) :
    Still env names i h (env.system.push h' i (.did e)) where
  sound := hq.sound.act he
  copies := (copiesOf_push_of_none hstore).trans hq.copies
  told := (tellings_push_of_none rfl).trans hq.told
  server := (sendActs_server he hstore h'.1).trans hq.server
  clients := (sendActs_clients he h'.1).trans hq.clients

theorem Still.mirrored (hq : Still env names i h h') (hm : Mirrored env i h) :
    Mirrored env i h' := by
  unfold Mirrored
  rw [hq.copies, hq.told]
  exact hm

/-- One such act, with names for its answer and for the history after it. -/
theorem wp_still {α : Type} {e : Eff} {f : e.Res → Code α} {post : Except Exn α → History → Prop}
    (hq : Still env names i h h') (he : SendActs e) (hstore : storedBy (.did e) = none)
    (k : ∀ r h'', r = (e.exec env h'.1).1 → Still env names i h h'' →
      env.system.wp (Sound env names) (fun _ => True) i (f r) post h'') :
    env.system.wp (Sound env names) (fun _ => True) i
      ((Prog.act e : Code e.Res) >>= f) post h' :=
  wp_step fun r _ hr hh'' => k r _ hr (hh'' ▸ hq.act he hstore)

/-! ### The live path -/

/-- What call `i` has told the observers of `r`, if anything. -/
structure Heard (env : Env) (names : ClientId → Str) (i : Nat) (r : ClientId)
    (fromUser payload : Str) (h h' : History) : Prop where
  sound : Sound env names h'
  copies : copiesOf i h' = copiesOf i h
  told : tellings i h' = tellings i h ∨ ∃ w n x, w.clients = h.1.clients ∧
    (env.FilesWork w.server.recorded → KeyInv env w) ∧
    readIncoming env (h.1.clients r) n payload = .ok x ∧
    tellings i h' = (⟨r, ⟨fromUser, x.2, x.1.chatId, x.1.messageId, x.1.isGroupMessage⟩⟩, w)
      :: tellings i h

theorem Still.heard (hq : Still env names i h h') (r : ClientId) (fromUser payload : Str) :
    Heard env names i r fromUser payload h h' :=
  ⟨hq.sound, hq.copies, Or.inl hq.told⟩

theorem wp_handleIncoming_heard (hs : Sound env names h) (r : ClientId) (fromUser payload : Str) :
    env.system.wp (Sound env names) (fun _ => True) i (handleIncoming env r fromUser payload)
      (fun _ h' => Heard env names i r fromUser payload h h') h := by
  apply wp_tryCatch.mpr
  refine wp_still (.refl hs) trivial rfl fun self h1 hself hq1 => ?_
  obtain rfl : self = h.1.clients r := hself
  refine wp_still hq1 trivial rfl fun n h2 _ hq2 => ?_
  apply wp_ofExcept_bind
  · intro x hread
    apply wp_notify.mpr
    refine ⟨trivial, fun a h3 hJ _ ho => ?_⟩
    have hheard : Heard env names i r fromUser payload h (env.system.push h3 i (.resumed a)) := by
      refine ⟨⟨hJ.sessions, hJ.keys, hJ.named⟩, ?_, Or.inr ⟨h2.1, n, x, hq2.clients, hq2.sound.keys,
        hread, ?_⟩⟩
      · rw [copiesOf_push_of_none rfl, copiesOf_others ho, copiesOf_push_of_none rfl, hq2.copies]
      · rw [tellings_push_of_none rfl, tellings_others ho, tellings_push_self, hq2.told]
        rfl
    rcases a with x | _
    · cases x <;> exact hheard
    · exact hheard
  · intro e _
    cases e <;> exact hq2.heard r fromUser payload

/-- What call `i` has told of the message `m`, if anything. -/
structure Passed (env : Env) (names : ClientId → Str) (i : Nat) (m : Message) (h h' : History) :
    Prop where
  sound : Sound env names h'
  copies : copiesOf i h' = copiesOf i h
  told : tellings i h' = tellings i h ∨
    ∃ t, tellings i h' = t :: tellings i h ∧ Mirrors env t.1 t.2 m

theorem Still.passed (hq : Still env names i h h') : Passed env names i m h h' :=
  ⟨hq.sound, hq.copies, Or.inl hq.told⟩

/-- A receiver that is logged in has read the message that was sent. -/
theorem Heard.passed (hdoc : env.ssl.base64.Documented) (hlen : Unwrapped m) {r : ClientId}
    {wire : Str} (hwire : serialize env.ssl.base64 m = .ok wire) {h1 : History}
    (hq : Still env names i h h1) (hlog : (h1.1.clients r).loggedIn = true)
    (hname : (h1.1.clients r).username = m.receiver)
    (hh : Heard env names i r m.sender wire h1 h') : Passed env names i m h h' := by
  refine ⟨hh.sound, hh.copies.trans hq.copies, ?_⟩
  rw [← hq.told]
  rcases hh.told with hsame | ⟨w, n, x, hw, hkeys, hread, htold⟩
  · exact Or.inl hsame
  · obtain ⟨hde, sessionKey, hkey, hdec⟩ := readIncoming_eq_ok.mp hread
    have hx : x.1 = m := eq_of_deserialize hdoc hlen hwire hde
    rw [hx] at hkey hdec htold
    refine Or.inr ⟨_, htold, ?_, ?_, rfl, hkeys, n, sessionKey, ?_, hdec⟩
    · rw [hw]
      exact hlog
    · rw [hw]
      exact hname
    · rw [hw]
      exact hkey

theorem wp_send_passed (hdoc : env.ssl.base64.Documented) (hlen : Unwrapped m)
    (hs : Sound env names h) (hsender : m.sender = names c) {wire : Str}
    (hwire : serialize env.ssl.base64 m = .ok wire) :
    env.system.wp (Sound env names) (fun _ => True) i (send env c m.receiver wire)
      (fun r h' => ∀ b, r = .ok b → Passed env names i m h h') h := by
  refine wp_still (.refl hs) trivial rfl fun self h1 hself hq1 => ?_
  obtain rfl : self = h.1.clients c := hself
  split
  · next hconnected =>
    -- the transport supplies the name the message has
    have hlogged := (hs.sessions.connected c).trans hconnected
    have hfrom : (h.1.clients c).transport.username = m.sender := by
      rw [hs.sessions.username c hlogged, hs.named c, hsender]
    rw [hfrom]
    refine wp_still hq1 trivial rfl fun handler h2 hhandler hq2 => ?_
    rcases handler with - | r
    · exact fun _ _ => hq2.passed
    · refine wp_still hq2 trivial rfl fun _ h3 _ hq3 => ?_
      have hlookup : h3.1.server.transport.handlers.lookup m.receiver = some r := by
        rw [hq3.server, ← hq1.server]
        exact hhandler.symm
      obtain ⟨hlog, hname⟩ := (hq3.sound.sessions.handler m.receiver r).mp hlookup
      refine wp_bind.mpr (wp_mono (fun x h4 hheard => ?_)
        (wp_handleIncoming_heard hq3.sound r m.sender wire))
      have hpassed := hheard.passed hdoc hlen hwire hq3 hlog hname
      rcases x with x | _
      · exact fun _ e => by cases e
      · exact fun _ _ => hpassed
  · exact fun _ _ => hq1.passed

/-! ### The history path -/

/-- The status is no part of what is shown. -/
theorem Mirrors.setStatus {n : Notice} {w : World} (hm : Mirrors env n w m)
    (status : MessageStatus) : Mirrors env n w { m with status := status } :=
  ⟨hm.loggedIn, hm.receiver, hm.event, hm.keys, hm.read⟩

theorem Passed.mirrored (hp : Passed env names i m h h') (hm : Mirrored env i h)
    (status : MessageStatus) : Mirrored env i (env.system.push h' i
      (.did (.server (.storeMessage { m with status := status })))) := by
  unfold Mirrored
  rw [copiesOf_push_self, tellings_push_of_none rfl, hp.copies]
  have hold : ∀ t ∈ tellings i h,
      ∃ m' ∈ { m with status := status } :: copiesOf i h, Mirrors env t.1 t.2 m' := by
    intro t ht
    obtain ⟨m', hm', hmirrors⟩ := hm t ht
    exact ⟨m', List.mem_cons_of_mem _ hm', hmirrors⟩
  intro t ht
  rcases hp.told with hsame | ⟨t', htold, hmirrors⟩
  · rw [hsame] at ht
    exact hold t ht
  · rw [htold] at ht
    rcases List.mem_cons.mp ht with rfl | ht
    · exact ⟨_, List.mem_cons_self, hmirrors.setStatus status⟩
    · exact hold t ht

theorem wp_deliver_mirrored (hdoc : env.ssl.base64.Documented) (hlen : Unwrapped m)
    (hs : Sound env names h) (hsender : m.sender = names c) (hm : Mirrored env i h) :
    env.system.wp (Sound env names) (fun _ => True) i (deliver env c m.receiver m)
      (fun r h' => ∀ b, r = .ok b → Sound env names h' ∧ Mirrored env i h') h := by
  apply wp_ofExcept_bind
  · intro wire hwire
    refine wp_bind.mpr (wp_mono (fun x h1 hx => ?_)
      (wp_send_passed hdoc hlen hs hsender hwire))
    rcases x with x | b
    · exact fun _ e => by cases e
    · have hpassed := hx b rfl
      exact wp_act.mpr fun _ _ => ⟨hpassed.sound.act trivial, hpassed.mirrored hm _⟩
  · exact fun _ _ _ e => by cases e

/-! ### The sending functions -/

theorem wp_sendMessage_mirrored (hdoc : env.ssl.base64.Documented) (hsizes : env.ssl.IntSizes)
    (hs : Sound env names h) (hm : Mirrored env i h) (toUser plaintext : Str) :
    env.system.wp (Sound env names) (fun _ => True) i (sendMessage env c toUser plaintext)
      (fun r h' => ∀ b, r = .ok b → Mirrored env i h') h := by
  refine wp_still (.refl hs) trivial rfl fun self h1 hself hq1 => ?_
  obtain rfl : self = h.1.clients c := hself
  split
  · refine wp_still hq1 trivial rfl fun pem h2 _ hq2 => ?_
    split
    · exact fun _ _ => hq2.mirrored hm
    · refine wp_still hq2 trivial rfl fun n h3 _ hq3 => ?_
      apply wp_ofExcept_bind
      · intro m hmessage
        obtain ⟨⟨sessionKey, -, hpayload, hkey, hself⟩, -, hsender, rfl, -, -⟩ :=
          composeMessage_eq_ok hmessage
        have hlen : Unwrapped m := ⟨hsizes.encryptWithPublicKey hkey, hsizes.encrypt hpayload,
          hsizes.encryptWithPublicKey hself⟩
        refine wp_bind.mpr (wp_mono (fun x h4 hx => ?_) (wp_deliver_mirrored hdoc hlen hq3.sound
          (hsender.trans (hs.named c)) (hq3.mirrored hm)))
        rcases x with x | _
        · exact fun _ e => by cases e
        · exact fun _ _ => (hx () rfl).2
      · exact fun _ _ _ e => by cases e
  · exact fun _ _ => hq1.mirrored hm

theorem wp_sendCopies_mirrored (hdoc : env.ssl.base64.Documented) (hsizes : env.ssl.IntSizes)
    {self : ChatClient} (hself : self.username = names c) {groupId : Str}
    {sessionKey payload : Bytes} (hpayload : payload.length < 3 * 2 ^ 30) (members : List Str)
    (hs : Sound env names h) (hm : Mirrored env i h) (anySent : Bool) :
    env.system.wp (Sound env names) (fun _ => True) i
      (sendCopies env c self groupId sessionKey payload members anySent)
      (fun r h' => ∀ b, r = .ok b → Mirrored env i h') h := by
  induction members generalizing h anySent with
  | nil => exact fun _ _ => hm
  | cons member members ih =>
      refine wp_still (.refl hs) trivial rfl fun pem h1 _ hq1 => ?_
      split
      · exact ih hq1.sound (hq1.mirrored hm) anySent
      · refine wp_still hq1 trivial rfl fun n h2 _ hq2 => ?_
        apply wp_ofExcept_bind
        · intro m hcopy
          obtain ⟨hkey, hpay, hnoself, -, hsender, rfl, -, -⟩ := composeCopy_eq_ok hcopy
          have hlen : Unwrapped m := by
            refine ⟨hsizes.encryptWithPublicKey hkey, ?_, ?_⟩
            · rw [hpay]
              exact hpayload
            · rw [hnoself]
              decide
          refine wp_bind.mpr (wp_mono (fun x h3 hx => ?_) (wp_deliver_mirrored hdoc hlen hq2.sound
            (hsender.trans hself) (hq2.mirrored hm)))
          rcases x with x | _
          · exact fun _ e => by cases e
          · exact ih (hx () rfl).1 (hx () rfl).2 true
        · exact fun _ _ _ e => by cases e

theorem wp_sendGroupMessage_mirrored (hdoc : env.ssl.base64.Documented)
    (hsizes : env.ssl.IntSizes) (hs : Sound env names h) (hm : Mirrored env i h)
    (groupId plaintext : Str) :
    env.system.wp (Sound env names) (fun _ => True) i (sendGroupMessage env c groupId plaintext)
      (fun r h' => ∀ b, r = .ok b → Mirrored env i h') h := by
  refine wp_still (.refl hs) trivial rfl fun self h1 hself hq1 => ?_
  obtain rfl : self = h.1.clients c := hself
  split
  · refine wp_still hq1 trivial rfl fun members h2 _ hq2 => ?_
    split
    · exact fun _ _ => hq2.mirrored hm
    · refine wp_still hq2 trivial rfl fun n h3 _ hq3 => ?_
      apply wp_ofExcept_bind
      · intro r hr
        exact wp_sendCopies_mirrored hdoc hsizes (hs.named c)
          (hsizes.encrypt (composePayload_eq_ok hr).2) members hq3.sound (hq3.mirrored hm) false
      · exact fun _ _ _ e => by cases e
  · exact fun _ _ => hq1.mirrored hm

theorem wp_body_mirrored (hdoc : env.ssl.base64.Documented) (hsizes : env.ssl.IntSizes)
    (hs : Sound env names h) (hm : Mirrored env i h) (q : Call) :
    env.system.wp (Sound env names) (fun _ => True) i (q.body env)
      (fun r h' => ∀ v, r = .ok v → Mirrored env i h') h := by
  have hok : ∀ {f : Bool → Value} {r : Except Exn Bool} {h' : History},
      (∀ b, r = .ok b → Mirrored env i h') → ∀ v, r.map f = .ok v → Mirrored env i h' := by
    intro f r h' hr v hv
    rcases r with x | b
    · cases hv
    · exact hr b rfl
  obtain ⟨c, op⟩ := q
  by_cases hop : op.Sends
  · cases op with
    | sendMessage toUser plaintext =>
        exact wp_bind_pure.mpr (wp_mono (fun r h' => hok)
          (wp_sendMessage_mirrored hdoc hsizes hs hm toUser plaintext))
    | sendGroupMessage groupId plaintext =>
        exact wp_bind_pure.mpr (wp_mono (fun r h' => hok)
          (wp_sendGroupMessage_mirrored hdoc hsizes hs hm groupId plaintext))
    | _ => exact hop.elim
  · -- other calls tell and store nothing
    refine wp_mono (fun r h' hK v _ => hK) (wp_of_allActs (K := Mirrored env i) ?_ ?_
      (body_allActs env ⟨c, op⟩) hm)
    · intro e h' he hK
      unfold Mirrored
      rw [copiesOf_push_of_none (storedBy_of_footprint hop he), tellings_push_of_none rfl]
      exact hK
    · exact fun n h' hn => absurd hn hop

/-- Once a call has returned, each of its notices has a copy. -/
theorem mirrored_of_returned (hdoc : env.ssl.base64.Documented) (hsizes : env.ssl.IntSizes)
    (names : ClientId → Str) (disk : Str → Option Str) (ms : List (Move Exn Call)) {v : Value}
    (hret : ∃ y ∈ (env.run names disk ms).hist.2, y.inst = i ∧ y.act = .returned (.ok v)) :
    Mirrored env i (env.run names disk ms).hist := by
  have hfulfils := run_fulfils env.system (J := Sound env names)
    (P := fun r rest => ∀ v, r = .ok v →
      ∀ t ∈ rest.filterMap (fun x => (noticeOf x.act).map fun n => (n, x.before)),
        ∃ m ∈ rest.filterMap fun x => storedBy x.act, Mirrors env t.1 t.2 m)
    (sound_run env names disk) (fun q h i hJ hnone => ?_) ms
  · obtain ⟨y, hy, rfl, hact⟩ := hret
    obtain ⟨rest, hrest, hall⟩ := hfulfils y hy _ hact
    have htold : tellings y.inst (env.run names disk ms).hist
        = rest.filterMap fun x => (noticeOf x.act).map fun n => (n, x.before) := by
      rw [tellings, hrest, List.filterMap_cons, hact]
      rfl
    have hcopies : copiesOf y.inst (env.run names disk ms).hist
        = rest.filterMap fun x => storedBy x.act := by
      rw [copiesOf, hrest, List.filterMap_cons, hact]
      rfl
    unfold Mirrored
    rw [htold, hcopies]
    exact hall v rfl
  · have hnothing : tellings i (env.system.push h i (.called q)) = [] := by
      rw [tellings_push_of_none rfl, tellings, hnone]
      rfl
    refine wp_body_mirrored (h := env.system.push h i (.called q)) hdoc hsizes
      ⟨hJ.sessions, hJ.keys, hJ.named⟩ (fun t ht => ?_) q
    rw [hnothing] at ht
    cases ht

/-! ### The receiver's history -/

/-- `decryptToView` of the client `self`, at the number `k`, shows the message `m`
as the event `e` does. -/
def Shows (env : Env) (self : ChatClient) (k : Nat) (m : Message) (e : DecryptedMessageEvent) :
    Prop :=
  ∃ view, decryptToView env self k m = .ok view ∧ view.messageId = e.messageId ∧
    view.fromUser = e.fromUser ∧ view.text = e.text ∧ view.chatId = e.chatId ∧
    view.isGroupMessage = e.isGroupMessage

theorem Mirrors.shows {n : Notice} {w : World} (hm : Mirrors env n w m) {self : ChatClient}
    {k : Nat} {sessionKey : Bytes}
    (hkey : decryptWithPrivateKey env.ssl k self.keyPair.privateKeyPem (keyToUse self m)
      = .ok sessionKey)
    (hdec : decrypt env.ssl k m.encryptedPayload sessionKey = .ok n.event.text) :
    Shows env self k m n.event := by
  refine ⟨_, decryptToView_eq_ok hkey hdec, ?_⟩
  rw [hm.event]
  exact ⟨rfl, rfl, rfl, rfl, rfl⟩

/-- With the key the receiver held when it was told. -/
theorem Mirrors.shows_of_key (hsteady : env.ssl.Steady) {n : Notice} {w : World}
    (hm : Mirrors env n w m) {self : ChatClient}
    (hname : self.username = (w.clients n.receiver).username)
    (hpem : self.keyPair.privateKeyPem = (w.clients n.receiver).keyPair.privateKeyPem) (k : Nat) :
    Shows env self k m n.event := by
  obtain ⟨k', sessionKey, hkey, hdec⟩ := hm.read
  have huse : keyToUse self m = keyToUse (w.clients n.receiver) m := by
    unfold keyToUse
    rw [hname]
  have hkey' : decryptWithPrivateKey env.ssl k self.keyPair.privateKeyPem (keyToUse self m)
      = .ok sessionKey := by
    rw [hsteady.decryptWithPrivateKey_eq k k', hpem, huse]
    exact hkey
  apply hm.shows hkey'
  rw [hsteady.decrypt_eq k k']
  exact hdec

/-- With the key on record for the receiver, whenever it is logged in. -/
theorem Mirrors.shows_of_loggedIn (hsteady : env.ssl.Steady) {limit : Nat}
    (hinv : env.ssl.Inverts limit) {n : Notice} {w w' : World}
    (hfw : env.FilesWork w'.server.recorded) (hm : Mirrors env n w m) {sessionKey : Bytes}
    (hsealed : Sealed env w'.server m text sessionKey) (hkeys : KeyInv env w')
    (hgrows : ∀ u pem, w.server.publicKeyOf u = some pem → w'.server.publicKeyOf u = some pem)
    {d : ClientId} (hlog : (w'.clients d).loggedIn = true)
    (hname : (w'.clients d).username = m.receiver) (k : Nat) :
    Shows env (w'.clients d) k m n.event := by
  have hthen : Holds env w'.server (w.clients n.receiver) :=
    have hbefore : w.server.recorded ⊆ w'.server.recorded := fun u ⟨pem, hu⟩ =>
      ⟨pem, hgrows u pem hu⟩
    have hh := (hm.keys (hfw.mono hbefore)).holds hm.loggedIn
    ⟨hh.generated, hgrows _ _ hh.onRecord⟩
  obtain ⟨k', sessionKey', hkey', hdec'⟩ := hm.read
  -- the session key the observers were told with is the one that was sealed
  obtain ⟨hsame, -⟩ := hsealed.opens_of_holds hfw hinv hthen (Or.inl hm.receiver) k'
  rw [hkey'] at hsame
  cases hsame
  obtain ⟨hkey, -⟩ := hsealed.opens hfw hinv hkeys hlog (Or.inl hname) k
  rw [hsteady.decrypt_eq k' k] at hdec'
  exact hm.shows hkey hdec'

/-- **The live path and the history path agree.**  In every run, for every notice
of a call that has returned there is exactly one stored copy for the receiver,
and `decryptToView` shows it as the notice did: to every client of the receiver
that holds the private key the observers were told with, and, where files work
and decryption inverts encryption, for texts up to whatever length, to whoever is
logged in as the receiver. -/
theorem live_agrees_with_history (hdoc : env.ssl.base64.Documented) (hsizes : env.ssl.IntSizes)
    (hsteady : env.ssl.Steady) (names : ClientId → Str) (disk : Str → Option Str)
    (ms : List (Move Exn Call))
    {x y : Entry Eff Notice Exn Call Value World} (hx : x ∈ (env.run names disk ms).hist.2)
    (hy : y ∈ (env.run names disk ms).hist.2) (hinst : y.inst = x.inst) {n : Notice} {v : Value}
    (hn : x.act = .notified n) (hv : y.act = .returned (.ok v)) :
    ∃ m, (copiesOf x.inst (env.run names disk ms).hist).filter
        (fun m => m.receiver = names n.receiver) = [m] ∧
      (∀ self k, self.username = names n.receiver →
        self.keyPair.privateKeyPem = (x.before.clients n.receiver).keyPair.privateKeyPem →
        Shows env self k m n.event) ∧
      (env.FilesWork (env.run names disk ms).hist.1.server.recorded →
        ∀ limit, env.ssl.Inverts limit → ∀ c k,
        ((env.run names disk ms).hist.1.clients c).loggedIn = true →
        ((env.run names disk ms).hist.1.clients c).username = names n.receiver →
        Shows env ((env.run names disk ms).hist.1.clients c) k m n.event) := by
  have hs := sends_run env names disk ms
  have htold : (n, x.before) ∈ tellings x.inst (env.run names disk ms).hist :=
    List.mem_filterMap.mpr ⟨x, mem_own.mpr ⟨hx, rfl⟩, by rw [hn]; rfl⟩
  obtain ⟨m, hm, hmirrors⟩ :=
    mirrored_of_returned hdoc hsizes names disk ms ⟨y, hy, hinst, hv⟩ _ htold
  have hname : (x.before.clients n.receiver).username = names n.receiver :=
    before_kept env.system (S := fun w => Named names w)
      (fun e w hw c => (exec_username env e w c).trans (hw c)) (fun _ => rfl) ms hx n.receiver
  have hreceiver : m.receiver = names n.receiver := hmirrors.receiver.symm.trans hname
  refine ⟨m, ?_, fun self k hself hpem => ?_, fun hfw limit hinv c k hlog hc => ?_⟩
  · -- no two copies of a call have one receiver
    rw [← hreceiver]
    exact filter_eq_singleton (hs.receivers x.inst) hm
  · exact hmirrors.shows_of_key hsteady (hself.trans hname.symm) hpem k
  · obtain ⟨text, hcopy, -⟩ := hs.copies x.inst m hm
    obtain ⟨sessionKey, hsealed⟩ := hcopy.fields
    refine hmirrors.shows_of_loggedIn hsteady hinv hfw hsealed (keyInv_run names disk ms hfw)
      (fun u pem hu => ?_) hlog (hc.trans hreceiver.symm) k
    exact kept_of_before env.system (S := fun w => w.server.publicKeyOf u = some pem)
      (fun e w hw => (Grows.push env (w, []) 0 (.did e)).publicKeyOf u pem hw) _ ms hx hu

/-- The reference library, refusing what it cannot count. -/
def OpenSSL.counting : OpenSSL :=
  { OpenSSL.reference with
    sealGcm := fun key iv data size =>
      if data.length < 2 ^ 31 then OpenSSL.reference.sealGcm key iv data size
      else .error .encryptUpdate }

/-- `Env.reference` with the library that counts with an `int`. -/
def Env.counting : Env := { Env.reference with ssl := .counting }

theorem OpenSSL.counting_intSizes : OpenSSL.counting.IntSizes where
  gcm key iv data size c tag hseal := by
    simp only [OpenSSL.counting] at hseal
    split at hseal
    · next hlen =>
      cases hseal
      rw [length_mask]
      exact hlen
    · cases hseal
  rsa n pem size data c henc := by
    simp only [OpenSSL.counting, OpenSSL.reference] at henc
    split at henc
    · cases henc
    · split at henc
      · cases henc
        rw [List.length_cons]
        omega
      · cases henc

theorem OpenSSL.counting_steady : OpenSSL.counting.Steady := ⟨fun _ _ _ _ _ => rfl, fun _ => rfl⟩

/-- Bob was told what Alice sent, and his history shows it so. -/
theorem live_agrees_greeting : ∃ x ∈ (Env.counting.run Env.names Env.noFiles greeting).hist.2,
    ∃ n m, x.act = .notified n ∧ n.event.text = str "hi" ∧
    Shows .counting ((Env.counting.run Env.names Env.noFiles greeting).hist.1.clients 1) 0 m
      n.event := by
  have hnotice : ∃ x ∈ (Env.counting.run Env.names Env.noFiles greeting).hist.2,
      ∃ y ∈ (Env.counting.run Env.names Env.noFiles greeting).hist.2,
        y.inst = x.inst ∧ (noticeOf x.act).map (fun n => (n.receiver, n.event.text))
          = some (1, str "hi") ∧ valueOf y.act = some (.bool true) ∧
        (x.before.clients 1).keyPair.privateKeyPem
          = ((Env.counting.run Env.names Env.noFiles greeting).hist.1.clients 1).keyPair.privateKeyPem
        := by
    decide +kernel
  obtain ⟨x, hx, y, hy, hinst, hn, hv, hpem⟩ := hnotice
  obtain ⟨n, hnotified, hn⟩ := Option.map_eq_some_iff.mp hn
  obtain ⟨hreceiver, htext⟩ := Prod.ext_iff.mp hn
  obtain ⟨m, -, hshows, -⟩ := live_agrees_with_history EvpBase64.reference_documented
    OpenSSL.counting_intSizes OpenSSL.counting_steady Env.names Env.noFiles greeting hx hy hinst
    (notified_of_noticeOf hnotified) (returned_of_valueOf hv)
  refine ⟨x, hx, n, m, notified_of_noticeOf hnotified, htext, hshows _ 0 ?_ ?_⟩
  · rw [named_run Env.counting Env.names Env.noFiles greeting 1]
    exact congrArg Env.names hreceiver.symm
  · rw [show n.receiver = 1 from hreceiver]
    exact hpem.symm

end Evlampy
