/-
Evlampy/Sending.lean

The sending functions keep `Sends`, so it holds in every reachable state
(`sends_run`).  The proofs follow a message on its way: `handleIncoming` tells
observers at most once; `send` finds a receiver that is logged in and, if the
wire can be read back, tells it the text; `deliver` then stores the copy with
the status reported; and the loop of `sendGroupMessage` does this for each
member in turn.

While observers run, other calls may do anything, the sender may even be logged
out.  What a send relies on afterwards is what `Grows` keeps.
-/
import Evlampy.Copies

namespace Evlampy

open Cxx Callback Prog System ChatServer MessageProtocol ChatClient
open AES256GCMStrategy OpenSSLKeyFactory

/-! ### Opening a message -/

variable {env : Env} {names : ClientId → Str} {m : Message} {text : Str}

/-- The client holds the pair on record for its name. -/
structure Holds (env : Env) (s : ChatServer) (client : ChatClient) : Prop where
  generated : env.ssl.Generated client.keyPair
  onRecord : s.publicKeyOf client.username = some client.keyPair.publicKeyPem

theorem KeyInv.holds {w : World} (hw : KeyInv env w) {c : ClientId}
    (hlog : (w.clients c).loggedIn = true) : Holds env w.server (w.clients c) :=
  ⟨(hw.inHand c hlog).2.1, (hw.inHand c hlog).2.2⟩

theorem Holds.open {s : ChatServer} {self : ChatClient} (hh : Holds env s self)
    {limit : Nat} (hinv : env.ssl.Inverts limit) {u : Str} (hu : self.username = u)
    {data out : Bytes}
    (hs : SealedFor env s u data out) (n : Nat) :
    out ≠ [] ∧ decryptWithPrivateKey env.ssl n self.keyPair.privateKeyPem out = .ok data := by
  obtain ⟨k, pem, hpem, henc⟩ := hs
  have hrecord := hh.onRecord
  rw [hu, hpem] at hrecord
  rw [Option.some.inj hrecord] at henc
  exact hinv.rsa _ hh.generated k n data out henc

/-- The key a client uses for a message. -/
def keyToUse (self : ChatClient) (m : Message) : Bytes :=
  if m.sender = self.username ∧ m.encryptedSelfSessionKey ≠ [] then m.encryptedSelfSessionKey
  else m.encryptedSessionKey

/-- **Parties can read.**  Whoever holds the pair on record for the receiver of a
message, or for the sender of a direct one, recovers its session key, and with it its
text if that is not too long. -/
theorem Sealed.opens_of_holds {s : ChatServer} {sessionKey : Bytes} {limit : Nat}
    (hs : Sealed env s m text sessionKey) (hfw : env.FilesWork s.recorded)
    (hinv : env.ssl.Inverts limit) {self : ChatClient} (hh : Holds env s self)
    (hparty : self.username = m.receiver ∨ self.username = m.sender ∧ m.isGroupMessage = false)
    (n : Nat) :
    decryptWithPrivateKey env.ssl n self.keyPair.privateKeyPem (keyToUse self m)
        = .ok sessionKey ∧
      (text.length < limit → decrypt env.ssl n m.encryptedPayload sessionKey = .ok text) := by
  obtain ⟨k, hpayload⟩ := hs.payload
  refine ⟨?_, fun hlen => hinv.decrypt_encrypt hlen hpayload⟩
  unfold keyToUse
  split
  · next hself =>
    -- the self key is there, so the message is direct
    have hdirect : m.isGroupMessage = false := by
      cases hgroup : m.isGroupMessage with
      | false => rfl
      | true => exact absurd (hs.noSelfKey hgroup) hself.2
    exact (hh.open hinv hself.1.symm (hs.selfKey hfw hdirect) n).2
  · next hself =>
    rcases hparty with hreceiver | ⟨hsender, hdirect⟩
    · exact (hh.open hinv hreceiver hs.key n).2
    · have hne := (hh.open hinv hsender (hs.selfKey hfw hdirect) n).1
      exact absurd ⟨hsender.symm, hne⟩ hself

theorem Sealed.opens {w : World} {sessionKey : Bytes} {limit : Nat}
    (hs : Sealed env w.server m text sessionKey) (hfw : env.FilesWork w.server.recorded)
    (hinv : env.ssl.Inverts limit) (hw : KeyInv env w) {c : ClientId}
    (hlog : (w.clients c).loggedIn = true)
    (hparty : (w.clients c).username = m.receiver ∨
      (w.clients c).username = m.sender ∧ m.isGroupMessage = false) (n : Nat) :
    decryptWithPrivateKey env.ssl n (w.clients c).keyPair.privateKeyPem
        (keyToUse (w.clients c) m) = .ok sessionKey ∧
      (text.length < limit → decrypt env.ssl n m.encryptedPayload sessionKey = .ok text) :=
  hs.opens_of_holds hfw hinv (hw.holds hlog) hparty n

/-- The sizes of the encrypted fields. -/
theorem Sealed.fits {w : World} {sessionKey : Bytes}
    (hs : Sealed env w.server m text sessionKey) (hfw : env.FilesWork w.server.recorded)
    (hsized : env.ssl.Sized)
    (hw : KeyInv env w) (htext : text.length ≤ maxText) : Fits m := by
  have hkey : ∀ {u : Str} {data out : Bytes}, SealedFor env w.server u data out →
      out.length ≤ maxBytes := by
    rintro u data out ⟨k, pem, hpem, henc⟩
    obtain ⟨keyPair, hgen, rfl, -⟩ := hw.onRecord u pem hpem
    exact (hsized.rsa keyPair hgen k data out henc).trans (by decide)
  obtain ⟨k, hpayload⟩ := hs.payload
  have hlen : text.length < 2 ^ 31 := Nat.lt_of_le_of_lt htext (by decide)
  refine ⟨hkey hs.key, ?_, ?_⟩
  · rw [hsized.length_encrypt hlen hpayload]
    exact Nat.add_le_add_right htext 28
  · cases hgroup : m.isGroupMessage with
    | false => exact hkey (hs.selfKey hfw hgroup)
    | true =>
        rw [hs.noSelfKey hgroup]
        exact Nat.zero_le _

theorem readIncoming_eq_ok {self : ChatClient} {n : Nat} {payload : Str} {r : Message × Bytes} :
    readIncoming env self n payload = .ok r ↔
      deserialize env.ssl.base64 payload = .ok r.1 ∧ ∃ sessionKey,
        decryptWithPrivateKey env.ssl n self.keyPair.privateKeyPem (keyToUse self r.1)
          = .ok sessionKey ∧
        decrypt env.ssl n r.1.encryptedPayload sessionKey = .ok r.2 := by
  obtain ⟨m, text⟩ := r
  simp only [readIncoming, bind_eq_ok]
  constructor
  · rintro ⟨m', hm, sessionKey, hkey, text', htext, h⟩
    cases h
    exact ⟨hm, sessionKey, hkey, htext⟩
  · rintro ⟨hm, sessionKey, hkey, htext⟩
    exact ⟨m, hm, sessionKey, hkey, text, htext, rfl⟩

/-- A text that has been read is one the wire can carry. -/
theorem length_le_of_readIncoming (hdoc : env.ssl.base64.Documented) (hsized : env.ssl.Sized)
    {self : ChatClient} {n : Nat} {payload : Str} {r : Message × Bytes}
    (hr : readIncoming env self n payload = .ok r) : r.2.length ≤ maxText := by
  obtain ⟨hm, sessionKey, -, hdec⟩ := readIncoming_eq_ok.mp hr
  obtain ⟨⟨-, hpayload, -⟩, -⟩ := (deserialize_iff.mp hm).clean hdoc
  have hlen := hsized.length_decrypt (Nat.lt_of_le_of_lt hpayload (by decide)) hdec
  rw [hlen] at hpayload
  exact Nat.le_sub_of_add_le hpayload

/-! ### What a send relies on -/

/-- The invariants of runs the sends rely on. -/
structure Sound (env : Env) (names : ClientId → Str) (h : History) : Prop where
  sessions : SessionInv h.1
  keys : env.FilesWork h.1.server.recorded → KeyInv env h.1
  named : Named names h.1

/-- With the invariant of the sends themselves. -/
structure Known (env : Env) (names : ClientId → Str) (h : History) : Prop where
  sound : Sound env names h
  sends : Sends env names h

/-- A message of call `i` that none of its copies and notices is about yet. -/
structure New (env : Env) (h : History) (i : Nat) (m : Message) : Prop where
  id : ∃ k, Owns h i k ∧ m.messageId = env.messageId k
  copies : env.FreshIds h.1.draws → m.messageId ∉ (copiesOf i h).map Message.messageId
  notices : env.ssl.base64.Documented → env.FreshIds h.1.draws →
    ∀ n ∈ noticesBy i h, n.event.messageId ≠ m.messageId

variable {h h' : History} {i : Nat} {c : ClientId}

theorem sound_run (env : Env) (names : ClientId → Str) (disk : Str → Option Str)
    (ms : List (Move Exn Call)) : Sound env names (env.run names disk ms).hist :=
  ⟨sessionInv_run env names disk ms, keyInv_run names disk ms,
    named_run env names disk ms⟩

theorem sessionFree_of_sendActs {e : Eff} (he : SendActs e) : SessionFree e :=
  have hfoot : Footprint 0 (.sendMessage [] []) e := he
  sessionFree_of_footprint (fun _ hp => by cases hp) (fun hp => by cases hp) hfoot

theorem sendActs_clients {e : Eff} (he : SendActs e) (w : World) :
    (e.exec env w).2.clients = w.clients := by
  cases e with
  | assign d u => exact he.elim
  | _ => rfl

/-- A send changes the server only by storing. -/
theorem sendActs_server {e : Eff} (he : SendActs e) (hstore : storedBy (.did e) = none)
    (w : World) : (e.exec env w).2.server = w.server := by
  cases e with
  | server q => cases q <;> first | rfl | exact he.elim | cases hstore
  | tcp q => cases q <;> first | rfl | exact he.elim
  | _ => rfl

theorem Sound.act (hs : Sound env names h) {e : Eff} (he : SendActs e) :
    Sound env names (env.system.push h i (.did e)) where
  sessions := hs.sessions.congr (sameSessions_exec env (sessionFree_of_sendActs he) h.1)
  keys hfw := (hs.keys (hfw.mono (recorded_subset_exec env e h.1))).congr
    (sameKeys_exec env (keyFree_of_sendActs he) h.1)
  named c := (exec_username env e h.1 c).trans (hs.named c)

theorem Known.resumed (hs : Sound env names h) (hsends : Sends env names h)
    (a : Except Exn Unit) : Known env names (env.system.push h i (.resumed a)) where
  sound := ⟨hs.sessions, hs.keys, hs.named⟩
  sends := hsends.quiet rfl rfl fun q hq => by cases hq

/-- Call `i` has gone on without storing or notifying. -/
structure Quietly (env : Env) (names : ClientId → Str) (i : Nat) (h h' : History) : Prop where
  known : Known env names h'
  grows : Grows h h'
  copies : copiesOf i h' = copiesOf i h
  notices : noticesBy i h' = noticesBy i h
  server : h'.1.server = h.1.server
  clients : h'.1.clients = h.1.clients

theorem Quietly.refl (hk : Known env names h) : Quietly env names i h h :=
  ⟨hk, Grows.refl h, rfl, rfl, rfl, rfl⟩

/-- The acts of a send but storing change nothing but the number of draws. -/
theorem Quietly.act (hq : Quietly env names i h h') {e : Eff} (he : SendActs e)
    (hstore : storedBy (.did e) = none) :
    Quietly env names i h (env.system.push h' i (.did e)) where
  known := ⟨hq.known.sound.act he, hq.known.sends.quiet hstore rfl fun q hq => by cases hq⟩
  grows := hq.grows.trans (Grows.push env h' i _)
  copies := (copiesOf_push_of_none hstore).trans hq.copies
  notices := (noticesBy_push_of_none rfl).trans hq.notices
  server := (sendActs_server he hstore h'.1).trans hq.server
  clients := (sendActs_clients he h'.1).trans hq.clients

/-- One quiet act of a send, with names for its answer and for the history after
it. -/
theorem wp_quiet {α : Type} {e : Eff} {f : e.Res → Code α}
    {post : Except Exn α → History → Prop} (hq : Quietly env names i h h') (he : SendActs e)
    (hstore : storedBy (.did e) = none)
    (k : ∀ r h'', r = (e.exec env h'.1).1 → h'' = env.system.push h' i (.did e) →
      Quietly env names i h h'' →
        env.system.wp (Sound env names) (Sends env names) i (f r) post h'') :
    env.system.wp (Sound env names) (Sends env names) i
      ((Prog.act e : Code e.Res) >>= f) post h' :=
  wp_step fun r h'' hr hh'' => k r h'' hr hh'' (hh'' ▸ hq.act he hstore)

/-- What has been drawn meanwhile is new. -/
theorem Quietly.new (hq : Quietly env names i h h') (hk : Known env names h) {k : Nat}
    (hle : h.1.draws ≤ k) (hown : Owns h' i k) (hid : m.messageId = env.messageId k) :
    New env h' i m := by
  -- the numbers of before are other numbers
  have hother : ∀ k', Owns h i k' → env.FreshIds h'.1.draws →
      env.messageId k' ≠ env.messageId k := fun k' hk' hf heq => by
    have hlt := hk.sends.drawn i k' hk'
    obtain rfl := hf k' (Nat.lt_of_lt_of_le hlt hq.grows.draws) k
      (hq.known.sends.drawn i k hown) heq
    exact absurd hlt (Nat.not_lt.mpr hle)
  refine ⟨⟨k, hown, hid⟩, fun hf hmem => ?_, fun hd hf n hn heq => ?_⟩
  · rw [hq.copies] at hmem
    obtain ⟨m', hm', heq⟩ := List.mem_map.mp hmem
    obtain ⟨text, ⟨⟨k', hk', hid'⟩, -, -⟩, -⟩ := hk.sends.copies i m' hm'
    rw [hid', hid] at heq
    exact hother k' hk' hf heq
  · rw [hq.notices] at hn
    obtain ⟨k', hk', hid'⟩ := hk.sends.notices hd i n hn
    rw [hid', hid] at heq
    exact hother k' hk' hf heq

theorem New.later (hnew : New env h i m) (hq : Quietly env names i h h') : New env h' i m := by
  obtain ⟨⟨k, hk, hid⟩, hcopies, hnotices⟩ := hnew
  refine ⟨⟨k, hk.mono hq.grows, hid⟩, fun hf => ?_, fun hd hf => ?_⟩
  · rw [hq.copies]
    exact hcopies (hf.mono hq.grows.draws)
  · rw [hq.notices]
    exact hnotices hd (hf.mono hq.grows.draws)

/-! ### Receiving -/

/-- What `handleIncoming` of the client `r` has done. -/
structure Handled (env : Env) (names : ClientId → Str) (i : Nat) (r : ClientId)
    (fromUser payload : Str) (h h' : History) : Prop where
  known : Known env names h'
  grows : Grows h h'
  copies : copiesOf i h' = copiesOf i h
  notices : (noticesBy i h' = noticesBy i h ∧
      ∃ n, ∀ x, readIncoming env (h.1.clients r) n payload ≠ .ok x) ∨
    ∃ n x, readIncoming env (h.1.clients r) n payload = .ok x ∧ noticesBy i h'
      = ⟨r, ⟨fromUser, x.2, x.1.chatId, x.1.messageId, x.1.isGroupMessage⟩⟩ :: noticesBy i h

theorem wp_handleIncoming (hk : Known env names h) (hnew : New env h i m) {wire : Str}
    (hwire : serialize env.ssl.base64 m = .ok wire) (r : ClientId) (fromUser : Str) :
    env.system.wp (Sound env names) (Sends env names) i (handleIncoming env r fromUser wire)
      (fun _ h' => Handled env names i r fromUser wire h h') h := by
  refine wp_tryCatch.mpr (wp_quiet (.refl hk) trivial rfl fun self h1 hself _ hq1 => ?_)
  obtain rfl : self = h.1.clients r := hself
  refine wp_quiet hq1 trivial rfl fun n h2 hn _ hq2 => ?_
  have hnew2 := hnew.later hq2
  refine wp_ofExcept_bind ?_ ?_
  · intro x hread
    -- the wire that was read is the wire of `m`
    have hheader : env.ssl.base64.Documented → x.1.messageId = m.messageId := fun hd =>
      (header_eq hd hwire (readIncoming_eq_ok.mp hread).1).2.1
    refine wp_notify.mpr ⟨?_, fun a h3 hJ hI ho => ?_⟩
    · refine hq2.known.sends.notified (fun hd => ?_) (fun hd hf m' hm' heq => ?_) ?_
      · rw [hheader hd]
        exact hnew2.id
      · refine hnew2.copies hf (List.mem_map.mpr ⟨m', hm', ?_⟩)
        exact heq.trans (hheader hd)
      · exact fun hdoc hsized => length_le_of_readIncoming hdoc hsized hread
    · have hdone : Handled env names i r fromUser wire h (env.system.push h3 i (.resumed a)) := by
        refine ⟨.resumed hJ hI a, ?_, ?_, Or.inr ⟨n, x, hread, ?_⟩⟩
        · exact (hq2.grows.trans (Grows.push env h2 i _)).trans
            ((Grows.of_others ho).trans (Grows.push env h3 i _))
        · rw [copiesOf_push_of_none rfl, copiesOf_others ho, copiesOf_push_of_none rfl, hq2.copies]
        · rw [noticesBy_push_of_none rfl, noticesBy_others ho, noticesBy_push_self, hq2.notices]
          rfl
      rcases a with x | _
      · cases x <;> exact hdone
      · exact hdone
  · intro e he
    have hdone : Handled env names i r fromUser wire h h2 :=
      ⟨hq2.known, hq2.grows, hq2.copies,
        Or.inl ⟨hq2.notices, n, fun x hx => by rw [he] at hx; cases hx⟩⟩
    cases e <;> exact hdone

/-! ### Transmitting -/

/-- What `send` has done with the message `m` if it returns `b`. -/
structure Transmitted (env : Env) (names : ClientId → Str) (i : Nat) (m : Message) (text : Str)
    (h : History) (b : Bool) (h' : History) : Prop where
  known : Known env names h'
  grows : Grows h h'
  copies : copiesOf i h' = copiesOf i h
  notices : noticesBy i h' = noticesBy i h ∨ ∃ n, noticesBy i h' = n :: noticesBy i h ∧
    (env.ssl.base64.Documented → NoBar m)
  delivered : b = true → env.ssl.base64.Documented → env.FilesWork h'.1.server.recorded →
    env.ssl.Inverts (maxText + 1) → env.ssl.Sized → NoBar m → text.length ≤ maxText →
    ∃ n, noticesBy i h' = n :: noticesBy i h ∧ names n.receiver = m.receiver ∧
      n.event = ⟨m.sender, text, m.chatId, m.messageId, m.isGroupMessage⟩

/-- A receiver that is logged in is told the text, if the wire can be read. -/
theorem Handled.transmitted {r : ClientId} {wire : Str}
    (hd : Handled env names i r m.sender wire h h') (hk : Known env names h)
    (hwire : serialize env.ssl.base64 m = .ok wire) (hcopy : Copy env names h i m text)
    (hlog : (h.1.clients r).loggedIn = true) (hname : (h.1.clients r).username = m.receiver) :
    Transmitted env names i m text h true h' := by
  refine ⟨hd.known, hd.grows, hd.copies, ?_, ?_⟩
  · rcases hd.notices with ⟨hsame, -⟩ | ⟨n, x, hread, hnotice⟩
    · exact Or.inl hsame
    · refine Or.inr ⟨_, hnotice, fun hdoc => ?_⟩
      exact (header_eq hdoc hwire (readIncoming_eq_ok.mp hread).1).1
  · intro _ hdoc hfw hinv hsized hbar htext
    have hfw := hfw.mono hd.grows.recorded
    have hkeys := hk.sound.keys hfw
    obtain ⟨sessionKey, hsealed⟩ := hcopy.fields
    -- without bars the receiver reads back the message that was sent
    have hround := deserialize_serialize hdoc (hsealed.fits hfw hsized hkeys htext) hbar
    rw [hwire] at hround
    have hread : ∀ n, readIncoming env (h.1.clients r) n wire = .ok (m, text) := fun n =>
      readIncoming_eq_ok.mpr ⟨hround, sessionKey,
        (hsealed.opens hfw hinv hkeys hlog (Or.inl hname) n).imp_right fun hdec =>
          hdec (Nat.lt_succ_of_le htext)⟩
    rcases hd.notices with ⟨-, n, hfail⟩ | ⟨n, x, hx, hnotice⟩
    · exact absurd (hread n) (hfail _)
    · rw [hread n] at hx
      cases hx
      exact ⟨_, hnotice, (hk.sound.named r).symm.trans hname, rfl⟩

theorem Transmitted.before (hq : Quietly env names i h h') {b : Bool} {h'' : History}
    (ht : Transmitted env names i m text h' b h'') : Transmitted env names i m text h b h'' where
  known := ht.known
  grows := hq.grows.trans ht.grows
  copies := ht.copies.trans hq.copies
  notices := by
    rw [← hq.notices]
    exact ht.notices
  delivered := by
    rw [← hq.notices]
    exact ht.delivered

/-- Nothing has been transmitted. -/
theorem Quietly.notTransmitted (hq : Quietly env names i h h') :
    Transmitted env names i m text h false h' :=
  ⟨hq.known, hq.grows, hq.copies, Or.inl hq.notices, fun hb => nomatch hb⟩

theorem wp_send (hk : Known env names h) (hnew : New env h i m)
    (hcopy : Copy env names h i m text) (hsender : m.sender = names c) {wire : Str}
    (hwire : serialize env.ssl.base64 m = .ok wire) :
    env.system.wp (Sound env names) (Sends env names) i (send env c m.receiver wire)
      (fun r h' => match r with
        | .ok b => Transmitted env names i m text h b h'
        | .error _ => Known env names h') h := by
  refine wp_quiet (.refl hk) trivial rfl fun self h1 hself _ hq1 => ?_
  obtain rfl : self = h.1.clients c := hself
  split
  · next hconnected =>
    -- a client that is connected is logged in, under its own name
    have hlogged := (hk.sound.sessions.connected c).trans hconnected
    have hfrom : (h.1.clients c).transport.username = m.sender := by
      rw [hk.sound.sessions.username c hlogged, hk.sound.named c, hsender]
    rw [hfrom]
    refine wp_quiet hq1 trivial rfl fun handler h2 hhandler _ hq2 => ?_
    rcases handler with - | r
    · exact hq2.notTransmitted
    · refine wp_quiet hq2 trivial rfl fun _ h3 _ _ hq3 => ?_
      have hlookup : h3.1.server.transport.handlers.lookup m.receiver = some r := by
        rw [hq3.server, ← hq1.server]
        exact hhandler.symm
      obtain ⟨hlog, hname⟩ := (hq3.known.sound.sessions.handler m.receiver r).mp hlookup
      refine wp_bind.mpr (wp_mono (fun x h4 hdone => ?_)
        (wp_handleIncoming hq3.known (hnew.later hq3) hwire r m.sender))
      rcases x with x | _
      · exact hdone.known
      · exact (hdone.transmitted hq3.known hwire (hcopy.mono hq3.grows) hlog hname).before hq3
  · exact hq1.notTransmitted

/-! ### Storing -/

/-- What `deliver` has done with the message `m`. -/
structure Delivered (env : Env) (names : ClientId → Str) (i : Nat) (m : Message)
    (h h' : History) : Prop where
  known : Known env names h'
  grows : Grows h h'
  copies : ∃ status, copiesOf i h' = { m with status := status } :: copiesOf i h

theorem Transmitted.announced {b : Bool} (ht : Transmitted env names i m text h b h')
    (hnew : New env h i m) (hdoc : env.ssl.base64.Documented) (hf : env.FreshIds h.1.draws) :
    Announced env names h' i
      { m with status := if b then MessageStatus.delivered else MessageStatus.sent } text := by
  have hold := hnew.notices hdoc hf
  refine ⟨fun hbar n hn => ?_, fun hfw hinv hsized hst hbar htext => ?_⟩
  · rcases ht.notices with hsame | ⟨n', -, hnobar⟩
    · rw [hsame] at hn
      exact hold n hn
    · exact absurd (hnobar hdoc) hbar
  · -- only a send that returned true makes the status delivered
    have hb : b = true := by
      cases b with
      | true => rfl
      | false =>
          have hne : MessageStatus.sent ≠ MessageStatus.delivered := by decide
          exact absurd hst hne
    obtain ⟨n, hn, hreceiver, hevent⟩ := ht.delivered hb hdoc hfw hinv hsized hbar htext
    refine ⟨n, ?_, hreceiver, hevent⟩
    have hrest : (noticesBy i h).filter (fun n => n.event.messageId = m.messageId) = [] :=
      List.filter_eq_nil_iff.mpr fun x hx => by simpa using hold x hx
    show (noticesBy i h').filter (fun n => n.event.messageId = m.messageId) = [n]
    rw [hn, List.filter_cons_of_pos (by rw [hevent]; simp), hrest]

theorem wp_deliver (hk : Known env names h) (hnew : New env h i m)
    (hcopy : Copy env names h i m text) (hsender : m.sender = names c)
    (hreceiver : m.receiver ∉ (copiesOf i h).map Message.receiver) :
    env.system.wp (Sound env names) (Sends env names) i (deliver env c m.receiver m)
      (fun r h' => match r with
        | .ok _ => Delivered env names i m h h'
        | .error _ => Known env names h') h := by
  refine wp_ofExcept_bind (fun wire hwire => ?_) (fun _ _ => hk)
  refine wp_bind.mpr (wp_mono (fun x h1 ht => ?_) (wp_send hk hnew hcopy hsender hwire))
  rcases x with x | b
  · exact ht
  · refine wp_act.mpr ⟨⟨?_, ?_⟩, ?_, ?_⟩
    · exact ht.known.sound.act trivial
    · refine ht.known.sends.stored ((hcopy.mono ht.grows).setStatus _) ?_ ?_
        (fun hd hf => ht.announced hnew hd (hf.mono ht.grows.draws))
      · rw [ht.copies]
        exact hreceiver
      · rw [ht.copies]
        exact fun hf => hnew.copies (hf.mono ht.grows.draws)
    · exact ht.grows.trans (Grows.push env h1 i _)
    · exact ⟨_, (copiesOf_push_self _).trans (congrArg _ ht.copies)⟩

/-! ### Composing -/

theorem publicKeyOf_of_getPublicKey {s : ChatServer} {u pem : Str} (hpem : pem = s.getPublicKey u)
    (hne : pem ≠ []) : s.publicKeyOf u = some pem := by
  subst hpem
  rw [ChatServer.publicKeyOf]
  rw [ChatServer.getPublicKey] at hne ⊢
  cases hu : s.users.lookup u with
  | none =>
      rw [hu] at hne
      exact absurd rfl hne
  | some record => rfl

theorem composeMessage_eq_ok {self : ChatClient} {n : Nat} {toUser pem : Str}
    (hm : composeMessage env self n toUser pem text = .ok m) :
    (∃ sessionKey, generateSymmetricKey env.ssl n 32 = .ok sessionKey ∧
      encrypt env.ssl (n + 1) text sessionKey = .ok m.encryptedPayload ∧
      encryptWithPublicKey env.ssl (n + 2) pem sessionKey = .ok m.encryptedSessionKey ∧
      encryptWithPublicKey env.ssl (n + 3) self.keyPair.publicKeyPem sessionKey
        = .ok m.encryptedSelfSessionKey) ∧
      m.messageId = env.messageId (n + 4) ∧ m.sender = self.username ∧ m.receiver = toUser ∧
      m.chatId = [] ∧ m.isGroupMessage = false := by
  simp only [composeMessage, bind_eq_ok] at hm
  obtain ⟨sessionKey, hgen, payload, hpayload, key, hkey, selfKey, hself, hm⟩ := hm
  cases hm
  exact ⟨⟨sessionKey, hgen, hpayload, hkey, hself⟩, rfl, rfl, rfl, rfl, rfl⟩

theorem composePayload_eq_ok {n : Nat} {r : Bytes × Bytes}
    (hr : composePayload env n text = .ok r) :
    generateSymmetricKey env.ssl n 32 = .ok r.1 ∧ encrypt env.ssl (n + 1) text r.1 = .ok r.2 := by
  simp only [composePayload, bind_eq_ok] at hr
  obtain ⟨sessionKey, hgen, payload, hpayload, hr⟩ := hr
  cases hr
  exact ⟨hgen, hpayload⟩

theorem composeCopy_eq_ok {self : ChatClient} {n : Nat} {member pem groupId : Str}
    {sessionKey payload : Bytes}
    (hm : composeCopy env self n member pem groupId sessionKey payload = .ok m) :
    encryptWithPublicKey env.ssl n pem sessionKey = .ok m.encryptedSessionKey ∧
      m.encryptedPayload = payload ∧ m.encryptedSelfSessionKey = [] ∧
      m.messageId = env.messageId (n + 1) ∧ m.sender = self.username ∧ m.receiver = member ∧
      m.chatId = groupId ∧ m.isGroupMessage = true := by
  simp only [composeCopy, bind_eq_ok] at hm
  obtain ⟨key, hkey, hm⟩ := hm
  cases hm
  exact ⟨hkey, rfl, rfl, rfl, rfl, rfl, rfl, rfl⟩

/-- A message is sealed with the keys on record, for the sender because the pair in memory
is the one on record. -/
theorem sealed_of_composeMessage {s : ChatServer} {self : ChatClient} {n : Nat} {toUser pem : Str}
    (hm : composeMessage env self n toUser pem text = .ok m)
    (hrecord : s.publicKeyOf toUser = some pem)
    (hself : env.FilesWork s.recorded →
      s.publicKeyOf self.username = some self.keyPair.publicKeyPem) :
    ∃ sessionKey, Sealed env s m text sessionKey := by
  obtain ⟨⟨sessionKey, -, hpayload, hkey, hselfKey⟩, -, hsender, rfl, -, hdirect⟩ :=
    composeMessage_eq_ok hm
  refine ⟨sessionKey, ⟨n + 1, hpayload⟩, ⟨n + 2, pem, hrecord, hkey⟩, fun hfw _ => ?_,
    fun hgroup => ?_⟩
  · have hown := hself hfw
    rw [← hsender] at hown
    exact ⟨n + 3, _, hown, hselfKey⟩
  · rw [hdirect] at hgroup
    cases hgroup

theorem sealed_of_composeCopy {s : ChatServer} {self : ChatClient} {n : Nat}
    {member pem groupId : Str} {sessionKey payload : Bytes}
    (hm : composeCopy env self n member pem groupId sessionKey payload = .ok m)
    (hrecord : s.publicKeyOf member = some pem)
    (hpayload : ∃ k, encrypt env.ssl k text sessionKey = .ok payload) :
    Sealed env s m text sessionKey := by
  obtain ⟨hkey, rfl, hnoself, -, -, rfl, -, hgroup⟩ := composeCopy_eq_ok hm
  refine ⟨hpayload, ⟨n, pem, hrecord, hkey⟩, fun _ hdirect => ?_, fun _ => hnoself⟩
  rw [hgroup] at hdirect
  cases hdirect

/-- The numbers reserved by a draw are the caller's, and were reserved by nobody
before. -/
theorem Quietly.owns_draw {h'' : History} (hq : Quietly env names i h h') {n count : Nat}
    (hn : n = h'.1.draws) (hh'' : h'' = env.system.push h' i (.did (.draw count))) {k : Nat}
    (hk : k < count) : h.1.draws ≤ n + k ∧ Owns h'' i (n + k) := by
  subst hn hh''
  refine ⟨hq.grows.draws.trans (Nat.le_add_right _ k), ?_⟩
  refine owns_push.mpr (Or.inr ⟨rfl, count, rfl, ?_, ?_⟩)
  · exact Nat.le_add_right _ k
  · exact Nat.add_lt_add_left hk _

/-! ### The sending functions -/

theorem wp_sendMessage (hk : Known env names h) {toUser : Str}
    (hcalled : CalledAt h i ⟨c, .sendMessage toUser text⟩ h.1)
    (hfirst : copiesOf i h = []) :
    env.system.wp (Sound env names) (Sends env names) i (sendMessage env c toUser text)
      (fun _ h' => Known env names h') h := by
  refine wp_quiet (.refl hk) trivial rfl fun self h1 hself _ hq1 => ?_
  obtain rfl : self = h.1.clients c := hself
  split
  · next hlog =>
    refine wp_quiet hq1 trivial rfl fun pem h2 hpem _ hq2 => ?_
    split
    · exact hq2.known
    · next hne =>
      have hrecord : h.1.server.publicKeyOf toUser = some pem := by
        refine publicKeyOf_of_getPublicKey ?_ hne
        rw [hpem, ← hq1.server]
        rfl
      refine wp_quiet hq2 trivial rfl fun n h3 hn hh3 hq3 => ?_
      obtain ⟨hle, hown⟩ := hq2.owns_draw hn hh3 (show 4 < 5 by decide)
      refine wp_ofExcept_bind (fun m hm => ?_) (fun _ _ => hq3.known)
      obtain ⟨sessionKey, hsealed⟩ := sealed_of_composeMessage hm hrecord
        fun hfw => ((hk.sound.keys hfw).inHand c hlog).2.2
      obtain ⟨-, hid, hsender, rfl, hchat, hdirect⟩ := composeMessage_eq_ok hm
      have hname : m.sender = names c := hsender.trans (hk.sound.named c)
      have hcopy : Copy env names h3 i m text :=
        ⟨⟨n + 4, hown, hid⟩, ⟨sessionKey, hsealed.mono hq3.grows⟩,
          .direct c h.1 hname hlog hdirect hchat (hcalled.mono hq3.grows)⟩
      refine wp_bind.mpr (wp_mono (fun x h4 hx => ?_)
        (wp_deliver hq3.known (hq3.new hk hle hown hid) hcopy hname ?_))
      · rcases x with x | _
        · exact hx
        · exact hx.known
      · rw [hq3.copies, hfirst]
        exact List.not_mem_nil
  · exact hq1.known

/-- A group send under way: call `i` of `c` to the group `groupId`. -/
structure GroupSend (env : Env) (h : History) (i : Nat) (c : ClientId) (w : World)
    (groupId text : Str) (record : GroupRecord) (sessionKey payload : Bytes) : Prop where
  called : CalledAt h i ⟨c, .sendGroupMessage groupId text⟩ w
  loggedIn : (w.clients c).loggedIn = true
  before : w.server.groups.lookup groupId = some record
  now : h.1.server.groups.lookup groupId = some record
  sealed : ∃ n, encrypt env.ssl n text sessionKey = .ok payload

theorem GroupSend.mono {w : World} {groupId : Str} {record : GroupRecord}
    {sessionKey payload : Bytes} (hg : Grows h h')
    (hs : GroupSend env h i c w groupId text record sessionKey payload) :
    GroupSend env h' i c w groupId text record sessionKey payload :=
  ⟨hs.called.mono hg, hs.loggedIn, hs.before, hg.groups _ _ hs.now, hs.sealed⟩

/-- The loop over the members: no receiver comes twice. -/
theorem wp_sendCopies {self : ChatClient} (hself : self.username = names c) {w : World}
    {groupId : Str} {record : GroupRecord} {sessionKey payload : Bytes} (members : List Str)
    (hnodup : members.Nodup) (hmember : ∀ u ∈ members, u ∈ record.members)
    (hs : GroupSend env h i c w groupId text record sessionKey payload)
    (hk : Known env names h)
    (hreceivers : ∀ u ∈ members, u ∉ (copiesOf i h).map Message.receiver) (anySent : Bool) :
    env.system.wp (Sound env names) (Sends env names) i
      (sendCopies env c self groupId sessionKey payload members anySent)
      (fun _ h' => Known env names h') h := by
  induction members generalizing h anySent with
  | nil => exact hk
  | cons member members ih =>
      obtain ⟨hnotin, hnodup'⟩ := List.nodup_cons.mp hnodup
      have hmember' : ∀ u ∈ members, u ∈ record.members :=
        fun u hu => hmember u (List.mem_cons_of_mem _ hu)
      refine wp_quiet (.refl hk) trivial rfl fun pem h1 hpem _ hq1 => ?_
      split
      · -- a member that is not registered is passed over
        refine ih hnodup' hmember' (hs.mono hq1.grows) hq1.known (fun u hu => ?_) anySent
        rw [hq1.copies]
        exact hreceivers u (List.mem_cons_of_mem _ hu)
      · next hne =>
        have hrecord : h.1.server.publicKeyOf member = some pem :=
          publicKeyOf_of_getPublicKey hpem hne
        refine wp_quiet hq1 trivial rfl fun n h2 hn hh2 hq2 => ?_
        obtain ⟨hle, hown⟩ := hq1.owns_draw hn hh2 (show 1 < 2 by decide)
        refine wp_ofExcept_bind (fun m hm => ?_) (fun _ _ => hq2.known)
        have hsealed : Sealed env h.1.server m text sessionKey :=
          sealed_of_composeCopy hm hrecord hs.sealed
        obtain ⟨-, -, -, hid, hsender, rfl, rfl, hgroup⟩ := composeCopy_eq_ok hm
        have hname : m.sender = names c := hsender.trans hself
        have hs2 := hs.mono hq2.grows
        have hcopy : Copy env names h2 i m text :=
          ⟨⟨n + 1, hown, hid⟩, ⟨sessionKey, hsealed.mono hq2.grows⟩,
            .group c w record hname hs2.loggedIn hgroup hs2.called hs2.before hs2.now
              (hmember _ List.mem_cons_self)⟩
        refine wp_bind.mpr (wp_mono (fun x h3 hx => ?_)
          (wp_deliver hq2.known (hq2.new hk hle hown hid) hcopy hname ?_))
        · rcases x with x | _
          · exact hx
          · refine ih hnodup' hmember' (hs2.mono hx.grows) hx.known (fun u hu => ?_) true
            -- the receivers so far are `member` and those of before
            obtain ⟨status, hcopies⟩ := hx.copies
            rw [hcopies, List.map_cons, List.mem_cons, hq2.copies]
            rintro (rfl | hold)
            · exact hnotin hu
            · exact hreceivers u (List.mem_cons_of_mem _ hu) hold
        · rw [hq2.copies]
          exact hreceivers _ List.mem_cons_self

theorem getGroupMembers_of_ne_nil {s : ChatServer} {groupId : Str}
    (hne : s.getGroupMembers groupId ≠ []) : ∃ record, s.groups.lookup groupId = some record ∧
      s.getGroupMembers groupId = sortedFromSet record.members := by
  unfold ChatServer.getGroupMembers at *
  cases hg : s.groups.lookup groupId with
  | none =>
      rw [hg] at hne
      exact absurd rfl hne
  | some record => exact ⟨record, rfl, rfl⟩

theorem wp_sendGroupMessage (hk : Known env names h) {groupId : Str}
    (hcalled : CalledAt h i ⟨c, .sendGroupMessage groupId text⟩ h.1)
    (hfirst : copiesOf i h = []) :
    env.system.wp (Sound env names) (Sends env names) i (sendGroupMessage env c groupId text)
      (fun _ h' => Known env names h') h := by
  refine wp_quiet (.refl hk) trivial rfl fun self h1 hself _ hq1 => ?_
  obtain rfl : self = h.1.clients c := hself
  split
  · next hlog =>
    refine wp_quiet hq1 trivial rfl fun members h2 hmembers _ hq2 => ?_
    have hmembers' : members = h.1.server.getGroupMembers groupId := by
      rw [hmembers, ← hq1.server]
      rfl
    clear hmembers
    subst hmembers'
    split
    · exact hq2.known
    · next hne =>
      obtain ⟨record, hrecord, hlist⟩ := getGroupMembers_of_ne_nil hne
      refine wp_quiet hq2 trivial rfl fun n h3 hn _ hq3 => ?_
      refine wp_ofExcept_bind (fun r hr => ?_) (fun _ _ => hq3.known)
      have hs : GroupSend env h i c h.1 groupId text record r.1 r.2 :=
        ⟨hcalled, hlog, hrecord, hrecord, n + 1, (composePayload_eq_ok hr).2⟩
      rw [hlist]
      refine wp_sendCopies (hk.sound.named c) _ (sortedFromSet_nodup _) (fun u hu => ?_)
        (hs.mono hq3.grows) hq3.known (fun u _ => ?_) false
      · exact mem_sortedFromSet.mp hu
      · rw [hq3.copies, hfirst]
        exact List.not_mem_nil
  · exact hq1.known

/-! ### Runs -/

/-- Only the sending functions store messages. -/
theorem storedBy_of_footprint {op : Op} {e : Eff} (hop : ¬ op.Sends) (he : Footprint c op e) :
    storedBy (.did e) = none := by
  cases e with
  | server q =>
      cases q with
      | storeMessage m =>
          cases op with
          | sendMessage _ _ => exact absurd trivial hop
          | sendGroupMessage _ _ => exact absurd trivial hop
          | _ => exact he.elim
      | _ => rfl
  | _ => rfl

/-- **Sends**, in every state of every run. -/
theorem sends_run (env : Env) (names : ClientId → Str) (disk : Str → Option Str)
    (ms : List (Move Exn Call)) : Sends env names (env.run names disk ms).hist := by
  refine (run_invariant env.system (J := Sound env names) (I := Sends env names)
    (sound_run env names disk) (sends_initial env names disk) ?_ ms).1
  intro q h i hJ hI hlt
  have hne : ∀ x ∈ h.2, x.inst ≠ i := fun x hx => Nat.ne_of_lt (hlt x hx)
  have hcalled : Known env names (env.system.push h i (.called q)) :=
    ⟨⟨hJ.sessions, hJ.keys, hJ.named⟩, hI.quiet rfl rfl fun _ _ => hne⟩
  have hfirst : copiesOf i (env.system.push h i (.called q)) = [] :=
    (copiesOf_push_of_none rfl).trans (copiesOf_of_lt hlt)
  have hcall : CalledAt (env.system.push h i (.called q)) i q h.1 :=
    calledAt_push.mpr (Or.inr ⟨rfl, rfl, rfl⟩)
  have hreturn : ∀ {h' : History} (r : Except Exn Value), Sends env names h' →
      Kept (Sends env names) env.system i r h' :=
    fun r hs => hs.quiet rfl rfl fun _ hq => by cases hq
  obtain ⟨c, op⟩ := q
  by_cases hop : op.Sends
  · cases op with
    | sendMessage toUser text =>
        exact wp_map (fun r _ hK => hreturn r hK.sends) (wp_sendMessage hcalled hcall hfirst)
    | sendGroupMessage groupId text =>
        exact wp_map (fun r _ hK => hreturn r hK.sends) (wp_sendGroupMessage hcalled hcall hfirst)
    | _ => exact hop.elim
  · refine wp_mono (fun r h' hK => hreturn r hK) (wp_of_allActs (K := Sends env names) ?_ ?_
      (body_allActs env ⟨c, op⟩) hcalled.sends)
    · intro e h' he hK
      exact hK.quiet (storedBy_of_footprint hop he) rfl fun _ hq => by cases hq
    · exact fun n h' hn => absurd hn hop

end Evlampy
