/-
Evlampy/Provenance.lean

Where notices come from, and where keys go.  A notice that reaches an observer, however
deep in nested calls, was meant for it: some client that was logged in has called a
sending function with this text for this receiver, and no call tells a receiver twice
(`notices_genuine`).  A message that was stored as sent has been told to nobody
(`sent_untold`).  And a session key is used by one call for one payload, so that AES-GCM
never sees two payloads under one key (`keys_used_once`).

`Conduct` is the invariant behind all three.  It is proved along the same way as `Sends`,
which is used here for what it says of each function (`wp_and`).
-/
import Evlampy.Agreement

namespace Evlampy

open Cxx Callback Prog System ChatServer MessageProtocol ChatClient
open AES256GCMStrategy OpenSSLKeyFactory

variable {env : Env} {names : ClientId → Str} {h h' : History} {i j : Nat} {c : ClientId}
  {m : Message} {text : Str} {a : Act Eff Notice Exn Call Value}

/-! ### The invariant -/

/-- The names of those call `i` has told something, the last one first. -/
def told (names : ClientId → Str) (i : Nat) (h : History) : List Str :=
  (noticesBy i h).map fun n => names n.receiver

/-- The notice tells what call `i` was made for: it is about the message `m`, is for the
receiver of `m`, and has the text that was to be sent, if that is shorter than `limit`. -/
structure Genuine (names : ClientId → Str) (limit : Nat) (h : History) (i : Nat) (n : Notice)
    (m : Message) (text : Str) : Prop where
  receiver : names n.receiver = m.receiver
  event : n.event = ⟨m.sender, n.event.text, m.chatId, m.messageId, m.isGroupMessage⟩
  told : text.length < limit → n.event.text = text
  origin : Origin names h i m text

/-- Call `i` is to send the text to the receiver of `m`.  The session key is its `k`-th draw,
the payload of `m` is the text encrypted with the key and the draw after it, and `m` carries
the key for its receiver. -/
structure UsesKey (env : Env) (names : ClientId → Str) (h : History) (i k : Nat) (text : Str)
    (sessionKey : Bytes) (m : Message) : Prop where
  drawn : Owns h i k
  key : generateSymmetricKey env.ssl k 32 = .ok sessionKey
  payload : encrypt env.ssl (k + 1) text sessionKey = .ok m.encryptedPayload
  wrapped : SealedFor env h.1.server m.receiver sessionKey m.encryptedSessionKey
  origin : Origin names h i m text

/-- What the environment has to be for observers to be told what was sent, of texts shorter
than `limit`. -/
structure Env.Carries (env : Env) (users : Set Str) (limit : Nat) : Prop where
  base64 : env.ssl.base64.Documented
  sizes : env.ssl.IntSizes
  files : env.FilesWork users
  inverts : env.ssl.Inverts limit

theorem Env.Carries.mono {users users' : Set Str} {limit : Nat} (hc : env.Carries users' limit)
    (hsub : users ⊆ users') : env.Carries users limit :=
  ⟨hc.base64, hc.sizes, hc.files.mono hsub, hc.inverts⟩

/-- What calls do in a run. -/
structure Conduct (env : Env) (names : ClientId → Str) (h : History) : Prop where
  genuine : ∀ limit, env.Carries h.1.server.recorded limit → ∀ i, ∀ n ∈ noticesBy i h,
    ∃ m text, Genuine names limit h i n m text
  once : ∀ i, (told names i h).Nodup
  untold : env.ssl.base64.Documented → env.FreshIds h.1.draws → ∀ i, ∀ m ∈ copiesOf i h,
    m.status = .sent → ∀ n ∈ noticesBy i h, n.event.messageId ≠ m.messageId
  keyed : ∀ i, ∃ k text sessionKey, ∀ m ∈ copiesOf i h, UsesKey env names h i k text sessionKey m

theorem conduct_initial (env : Env) (names : ClientId → Str) (disk : Str → Option Str) :
    Conduct env names (World.initial names disk, []) := by
  refine ⟨fun _ _ i n hn => ?_, fun i => List.nodup_nil, fun _ _ i m hm => ?_,
    fun i => ⟨0, [], [], fun m hm => ?_⟩⟩
  · cases hn
  · cases hm
  · cases hm

/-! ### Growth -/

theorem Genuine.mono {limit : Nat} {n : Notice} (hg : Grows h h')
    (hn : Genuine names limit h i n m text) : Genuine names limit h' i n m text :=
  ⟨hn.receiver, hn.event, hn.told, hn.origin.mono hg⟩

theorem UsesKey.mono {k : Nat} {sessionKey : Bytes} (hg : Grows h h')
    (hm : UsesKey env names h i k text sessionKey m) : UsesKey env names h' i k text sessionKey m :=
  ⟨hm.drawn.mono hg, hm.key, hm.payload, hm.wrapped.mono hg, hm.origin.mono hg⟩

/-- The status says nothing about the key. -/
theorem UsesKey.setStatus {k : Nat} {sessionKey : Bytes}
    (hm : UsesKey env names h i k text sessionKey m) (status : MessageStatus) :
    UsesKey env names h i k text sessionKey { m with status := status } := by
  refine ⟨hm.drawn, hm.key, hm.payload, hm.wrapped, ?_⟩
  cases hm.origin with
  | direct c w sender loggedIn isGroup chatId called =>
      exact .direct c w sender loggedIn isGroup chatId called
  | group c w record sender loggedIn isGroup called before now member =>
      exact .group c w record sender loggedIn isGroup called before now member

theorem told_push_of_none (ha : noticeOf a = none) :
    told names j (env.system.push h i a) = told names j h := by
  rw [told, noticesBy_push_of_none ha, told]

/-- An act that neither stores nor notifies. -/
theorem Conduct.quiet (hc : Conduct env names h) (hstore : storedBy a = none)
    (hnote : noticeOf a = none) : Conduct env names (env.system.push h i a) := by
  have hgrows := Grows.push env h i a
  refine ⟨fun limit hcarries j n hn => ?_, fun j => ?_, fun hdoc hf j m hm hst n hn => ?_,
    fun j => ?_⟩
  · rw [noticesBy_push_of_none hnote] at hn
    obtain ⟨m, text, hm⟩ := hc.genuine limit (hcarries.mono hgrows.recorded) j n hn
    exact ⟨m, text, hm.mono hgrows⟩
  · rw [told_push_of_none hnote]
    exact hc.once j
  · rw [copiesOf_push_of_none hstore] at hm
    rw [noticesBy_push_of_none hnote] at hn
    exact hc.untold hdoc (hf.mono hgrows.draws) j m hm hst n hn
  · obtain ⟨k, text, sessionKey, hall⟩ := hc.keyed j
    refine ⟨k, text, sessionKey, fun m hm => ?_⟩
    rw [copiesOf_push_of_none hstore] at hm
    exact (hall m hm).mono hgrows

/-- A notice that is genuine, for somebody call `i` has told nothing yet, about none of its
copies. -/
theorem Conduct.notified (hc : Conduct env names h) {n : Notice}
    (hgenuine : ∀ limit, env.Carries h.1.server.recorded limit →
      ∃ m text, Genuine names limit h i n m text)
    (hnew : names n.receiver ∉ told names i h)
    (hcopies : env.ssl.base64.Documented → env.FreshIds h.1.draws → ∀ m ∈ copiesOf i h,
      n.event.messageId ≠ m.messageId) :
    Conduct env names (env.system.push h i (.notified n)) := by
  have hgrows := Grows.push env h i (.notified n)
  refine ⟨fun limit hcarries j n' hn' => ?_, fun j => ?_, fun hdoc hf j m hm hst n' hn' => ?_,
    fun j => ?_⟩
  · rcases mem_noticesBy_notified.mp hn' with hn' | ⟨rfl, rfl⟩
    · obtain ⟨m, text, hm⟩ := hc.genuine limit (hcarries.mono hgrows.recorded) j n' hn'
      exact ⟨m, text, hm.mono hgrows⟩
    · obtain ⟨m, text, hm⟩ := hgenuine limit (hcarries.mono hgrows.recorded)
      exact ⟨m, text, hm.mono hgrows⟩
  · rcases eq_or_ne i j with rfl | hne
    · show ((noticesBy i (env.system.push h i (.notified n))).map _).Nodup
      rw [noticesBy_push_self]
      exact List.nodup_cons.mpr ⟨hnew, hc.once i⟩
    · rw [told, noticesBy_push_ne hne]
      exact hc.once j
  · rw [copiesOf_push_of_none rfl] at hm
    rcases mem_noticesBy_notified.mp hn' with hn' | ⟨rfl, rfl⟩
    · exact hc.untold hdoc hf j m hm hst n' hn'
    · exact hcopies hdoc hf m hm
  · obtain ⟨k, text, sessionKey, hall⟩ := hc.keyed j
    refine ⟨k, text, sessionKey, fun m hm => ?_⟩
    rw [copiesOf_push_of_none rfl] at hm
    exact (hall m hm).mono hgrows

/-- Storing a copy with the key of the others; as sent, if nobody has been told of it. -/
theorem Conduct.stored (hc : Conduct env names h)
    (huntold : env.ssl.base64.Documented → env.FreshIds h.1.draws → m.status = .sent →
      ∀ n ∈ noticesBy i h, n.event.messageId ≠ m.messageId)
    (hkeyed : ∃ k text sessionKey, ∀ m' ∈ m :: copiesOf i h,
      UsesKey env names h i k text sessionKey m') :
    Conduct env names (env.system.push h i (.did (.server (.storeMessage m)))) := by
  have hgrows := Grows.push env h i (.did (.server (.storeMessage m)))
  refine ⟨fun limit hcarries j n hn => ?_, fun j => ?_, fun hdoc hf j m' hm' hst n hn => ?_,
    fun j => ?_⟩
  · rw [noticesBy_push_of_none rfl] at hn
    obtain ⟨m', text', hm'⟩ := hc.genuine limit (hcarries.mono hgrows.recorded) j n hn
    exact ⟨m', text', hm'.mono hgrows⟩
  · rw [told_push_of_none rfl]
    exact hc.once j
  · rw [noticesBy_push_of_none rfl] at hn
    rcases mem_copiesOf_stored.mp hm' with hm' | ⟨rfl, rfl⟩
    · exact hc.untold hdoc hf j m' hm' hst n hn
    · exact huntold hdoc hf hst n hn
  · rcases eq_or_ne i j with rfl | hne
    · obtain ⟨k, text, sessionKey, hall⟩ := hkeyed
      refine ⟨k, text, sessionKey, fun m' hm' => ?_⟩
      rw [copiesOf_push_self] at hm'
      exact (hall m' hm').mono hgrows
    · obtain ⟨k, text, sessionKey, hall⟩ := hc.keyed j
      refine ⟨k, text, sessionKey, fun m' hm' => ?_⟩
      rw [copiesOf_push_ne hne] at hm'
      exact (hall m' hm').mono hgrows

/-! ### Telling -/

/-- One quiet act of a send. -/
theorem wp_aside {α : Type} {e : Eff} {f : e.Res → Code α} {post : Except Exn α → History → Prop}
    (hq : Quietly env names i h h') (hc : Conduct env names h') (he : SendActs e)
    (hstore : storedBy (.did e) = none)
    (k : ∀ r h'', r = (e.exec env h'.1).1 → h'' = env.system.push h' i (.did e) →
      Quietly env names i h h'' → Conduct env names h'' →
        env.system.wp (Known env names) (Conduct env names) i (f r) post h'') :
    env.system.wp (Known env names) (Conduct env names) i
      ((Prog.act e : Code e.Res) >>= f) post h' := by
  apply wp_step
  intro r h'' hr hh''
  apply k r h'' hr hh''
  · exact hh'' ▸ hq.act he hstore
  · exact hh'' ▸ hc.quiet hstore rfl

/-- What `send` has told if it returns `b`: at most one observer's client, and none if the
message counts as sent only. -/
structure Conveyed (env : Env) (names : ClientId → Str) (i : Nat) (m : Message) (h : History)
    (b : Bool) (h' : History) : Prop where
  conduct : Conduct env names h'
  notices : noticesBy i h' = noticesBy i h ∨
    b = true ∧ ∃ n, noticesBy i h' = n :: noticesBy i h ∧ names n.receiver = m.receiver

theorem Conveyed.told_subset {b : Bool} (hc : Conveyed env names i m h b h') :
    ∀ u ∈ told names i h', u = m.receiver ∨ u ∈ told names i h := by
  intro u hu
  unfold told at hu ⊢
  rcases hc.notices with hsame | ⟨-, n, hn, hname⟩
  · rw [hsame] at hu
    exact Or.inr hu
  · rw [hn, List.map_cons, hname] at hu
    exact List.mem_cons.mp hu

theorem Copy.unwrapped {limit : Nat} (hcopy : Copy env names h i m text)
    (hcarries : env.Carries h.1.server.recorded limit) : Unwrapped m := by
  obtain ⟨sessionKey, hsealed⟩ := hcopy.fields
  have hlen : ∀ {u : Str} {data out : Bytes}, SealedFor env h.1.server u data out →
      out.length < 3 * 2 ^ 30 := by
    rintro u data out ⟨n, pem, -, henc⟩
    exact hcarries.sizes.encryptWithPublicKey henc
  obtain ⟨n, hpayload⟩ := hsealed.payload
  refine ⟨hlen hsealed.key, hcarries.sizes.encrypt hpayload, ?_⟩
  cases hgroup : m.isGroupMessage with
  | false => exact hlen (hsealed.selfKey hcarries.files hgroup)
  | true =>
      rw [hsealed.noSelfKey hgroup]
      decide

/-- What a receiver reads off the wire is the message, and its text. -/
theorem Copy.read {limit : Nat} (hcopy : Copy env names h i m text) (hk : Known env names h)
    (hcarries : env.Carries h.1.server.recorded limit) {wire : Str}
    (hwire : serialize env.ssl.base64 m = .ok wire) {r : ClientId} (hlog : (h.1.clients r).loggedIn = true)
    (hname : (h.1.clients r).username = m.receiver) {n : Nat} {x : Message × Bytes}
    (hread : readIncoming env (h.1.clients r) n wire = .ok x) :
    x.1 = m ∧ (text.length < limit → x.2 = text) := by
  obtain ⟨hde, sessionKey, hkey, hdec⟩ := readIncoming_eq_ok.mp hread
  have hx : x.1 = m := eq_of_deserialize hcarries.base64 (hcopy.unwrapped hcarries) hwire hde
  obtain ⟨sessionKey', hsealed⟩ := hcopy.fields
  obtain ⟨hkey', hdec'⟩ := hsealed.opens hcarries.files hcarries.inverts
    (hk.sound.keys hcarries.files) hlog (Or.inl hname) n
  rw [hx, hkey'] at hkey
  refine ⟨hx, fun hlen => ?_⟩
  rw [hx, ← Except.ok.inj hkey, hdec' hlen] at hdec
  exact (Except.ok.inj hdec).symm

theorem wp_handleIncoming_conduct (hk : Known env names h) (hc : Conduct env names h)
    (hnew : New env h i m) (hcopy : Copy env names h i m text) {wire : Str}
    (hwire : serialize env.ssl.base64 m = .ok wire) {r : ClientId}
    (hlog : (h.1.clients r).loggedIn = true) (hname : (h.1.clients r).username = m.receiver)
    (htold : m.receiver ∉ told names i h) :
    env.system.wp (Known env names) (Conduct env names) i (handleIncoming env r m.sender wire)
      (fun _ h' => Conveyed env names i m h true h') h := by
  have hreceiver : names r = m.receiver := (hk.sound.named r).symm.trans hname
  apply wp_tryCatch.mpr
  refine wp_aside (.refl hk) hc trivial rfl fun self h1 hself _ hq1 hc1 => ?_
  obtain rfl : self = h.1.clients r := hself
  refine wp_aside hq1 hc1 trivial rfl fun n h2 _ _ hq2 hc2 => ?_
  apply wp_ofExcept_bind
  · intro x hread
    have hnotified : Conduct env names (env.system.push h2 i
        (.notified ⟨r, ⟨m.sender, x.2, x.1.chatId, x.1.messageId, x.1.isGroupMessage⟩⟩)) := by
      apply hc2.notified
      · intro limit hcarries
        obtain ⟨hx, htext⟩ := hcopy.read hk (hcarries.mono hq2.grows.recorded) hwire hlog hname
          hread
        exact ⟨m, text, hreceiver, by rw [hx], htext, hcopy.origin.mono hq2.grows⟩
      · show names r ∉ told names i h2
        rw [hreceiver, told, hq2.notices]
        exact htold
      · intro hdoc hf m' hm' heq
        have hheader := (header_eq hdoc hwire (readIncoming_eq_ok.mp hread).1).2.1
        apply (hnew.later hq2).copies hf
        exact List.mem_map.mpr ⟨m', hm', heq.symm.trans hheader⟩
    refine wp_notify.mpr ⟨hnotified, fun a h3 _ hI ho => ?_⟩
    have hdone : Conveyed env names i m h true (env.system.push h3 i (.resumed a)) := by
      refine ⟨hI.quiet rfl rfl, Or.inr ⟨rfl,
        ⟨r, ⟨m.sender, x.2, x.1.chatId, x.1.messageId, x.1.isGroupMessage⟩⟩, ?_, hreceiver⟩⟩
      rw [noticesBy_push_of_none rfl, noticesBy_others ho, noticesBy_push_self, hq2.notices]
      rfl
    rcases a with x | _
    · cases x <;> exact hdone
    · exact hdone
  · intro e _
    have hdone : Conveyed env names i m h true h2 := ⟨hc2, Or.inl hq2.notices⟩
    cases e <;> exact hdone

theorem wp_send_conduct (hk : Known env names h) (hc : Conduct env names h)
    (hnew : New env h i m) (hcopy : Copy env names h i m text) (hsender : m.sender = names c)
    {wire : Str} (hwire : serialize env.ssl.base64 m = .ok wire)
    (htold : m.receiver ∉ told names i h) :
    env.system.wp (Known env names) (Conduct env names) i (send env c m.receiver wire)
      (fun r h' => match r with
        | .ok b => Conveyed env names i m h b h'
        | .error _ => Conduct env names h') h := by
  refine wp_aside (.refl hk) hc trivial rfl fun self h1 hself _ hq1 hc1 => ?_
  obtain rfl : self = h.1.clients c := hself
  split
  · next hconnected =>
    have hlogged := (hk.sound.sessions.connected c).trans hconnected
    have hfrom : (h.1.clients c).transport.username = m.sender := by
      rw [hk.sound.sessions.username c hlogged, hk.sound.named c, hsender]
    rw [hfrom]
    refine wp_aside hq1 hc1 trivial rfl fun handler h2 hhandler _ hq2 hc2 => ?_
    rcases handler with - | r
    · exact ⟨hc2, Or.inl hq2.notices⟩
    · refine wp_aside hq2 hc2 trivial rfl fun _ h3 _ _ hq3 hc3 => ?_
      have hlookup : h3.1.server.transport.handlers.lookup m.receiver = some r := by
        rw [hq3.server, ← hq1.server]
        exact hhandler.symm
      obtain ⟨hlog, hname⟩ := (hq3.known.sound.sessions.handler m.receiver r).mp hlookup
      have htold3 : m.receiver ∉ told names i h3 := by
        rw [told, hq3.notices]
        exact htold
      apply wp_bind.mpr
      refine wp_mono (fun x h4 hdone => ?_) (wp_handleIncoming_conduct hq3.known hc3
        (hnew.later hq3) (hcopy.mono hq3.grows) hwire hlog hname htold3)
      rcases x with x | _
      · exact hdone.conduct
      · refine ⟨hdone.conduct, ?_⟩
        have hnotices := hdone.notices
        rw [hq3.notices] at hnotices
        exact hnotices
  · exact ⟨hc1, Or.inl hq1.notices⟩

/-! ### Storing -/

theorem Known.parts (hk : Known env names h) : Sound env names h ∧ Sends env names h :=
  ⟨hk.sound, hk.sends⟩

theorem wp_deliver_conduct (hk : Known env names h) (hc : Conduct env names h)
    (hnew : New env h i m) (hcopy : Copy env names h i m text) (hsender : m.sender = names c)
    (htold : m.receiver ∉ told names i h) {k : Nat} {sessionKey : Bytes}
    (hkeyed : ∀ m' ∈ m :: copiesOf i h, UsesKey env names h i k text sessionKey m') :
    env.system.wp (Known env names) (Conduct env names) i (deliver env c m.receiver m)
      (fun r h' => Conduct env names h' ∧ ∀ b, r = .ok b →
        ∀ u ∈ told names i h', u = m.receiver ∨ u ∈ told names i h) h := by
  refine wp_ofExcept_bind (fun wire hwire => ?_) fun _ _ => ⟨hc, fun _ e => by cases e⟩
  apply wp_bind.mpr
  refine wp_mono (fun r h1 hr => ?_) (wp_and (fun _ => Known.parts)
    (wp_send hk hnew hcopy hsender hwire) (wp_send_conduct hk hc hnew hcopy hsender hwire htold))
  rcases r with x | b
  · exact ⟨hr.2, fun _ e => by cases e⟩
  · obtain ⟨hsent, hconveyed⟩ := hr
    refine wp_act.mpr ⟨hconveyed.conduct.stored ?_ ?_, fun _ _ => ?_⟩
    · intro hdoc hf hst n hn
      have hb : b = false := by
        cases b with
        | false => rfl
        | true => cases hst
      have hsame : noticesBy i h1 = noticesBy i h := by
        rcases hconveyed.notices with hsame | ⟨htrue, -⟩
        · exact hsame
        · rw [hb] at htrue
          cases htrue
      rw [hsame] at hn
      exact hnew.notices hdoc (hf.mono hsent.grows.draws) n hn
    · refine ⟨k, text, sessionKey, fun m' hm' => ?_⟩
      rw [hsent.copies] at hm'
      rcases List.mem_cons.mp hm' with rfl | hm'
      · exact ((hkeyed m List.mem_cons_self).mono hsent.grows).setStatus _
      · exact (hkeyed m' (List.mem_cons_of_mem _ hm')).mono hsent.grows
    · rw [told_push_of_none rfl]
      exact hconveyed.told_subset

/-! ### The sending functions -/

theorem wp_sendMessage_conduct (hk : Known env names h) (hc : Conduct env names h) {toUser : Str}
    (hcalled : CalledAt h i ⟨c, .sendMessage toUser text⟩ h.1)
    (hfirst : copiesOf i h = []) (hnone : told names i h = []) :
    env.system.wp (Known env names) (Conduct env names) i (sendMessage env c toUser text)
      (fun _ h' => Conduct env names h') h := by
  refine wp_aside (.refl hk) hc trivial rfl fun self h1 hself _ hq1 hc1 => ?_
  obtain rfl : self = h.1.clients c := hself
  split
  · next hlog =>
    refine wp_aside hq1 hc1 trivial rfl fun pem h2 hpem _ hq2 hc2 => ?_
    split
    · exact hc2
    · next hne =>
      have hrecord : h.1.server.publicKeyOf toUser = some pem := by
        refine publicKeyOf_of_getPublicKey ?_ hne
        rw [hpem, ← hq1.server]
        rfl
      refine wp_aside hq2 hc2 trivial rfl fun n h3 hn hh3 hq3 hc3 => ?_
      -- the five draws of one message: the fifth is its id, the first its key
      obtain ⟨hle, hown⟩ := hq2.owns_draw hn hh3 (show 4 < 5 by decide)
      obtain ⟨-, hownKey⟩ := hq2.owns_draw hn hh3 (show 0 < 5 by decide)
      refine wp_ofExcept_bind (fun m hm => ?_) fun _ _ => hc3
      obtain ⟨sessionKey, hsealed⟩ := sealed_of_composeMessage hm hrecord
        fun hfw => ((hk.sound.keys hfw).inHand c hlog).2.2
      obtain ⟨⟨key, hgen, hpayload, hwrapped, -⟩, hid, hsender, rfl, hchat, hdirect⟩ :=
        composeMessage_eq_ok hm
      have hname : m.sender = names c := hsender.trans (hk.sound.named c)
      have hcopy : Copy env names h3 i m text :=
        ⟨⟨n + 4, hown, hid⟩, ⟨sessionKey, hsealed.mono hq3.grows⟩,
          .direct c h.1 hname hlog hdirect hchat (hcalled.mono hq3.grows)⟩
      have hkeyed : UsesKey env names h3 i n text key m :=
        ⟨hownKey, hgen, hpayload, ⟨n + 2, pem, hq3.grows.publicKeyOf _ _ hrecord, hwrapped⟩,
          hcopy.origin⟩
      -- nothing has been stored or told by this call yet, so the copy is its only one
      have hcopies : copiesOf i h3 = [] := hq3.copies.trans hfirst
      have htold : told names i h3 = [] := by
        rw [told, hq3.notices]
        exact hnone
      have hkeyed' : ∀ m' ∈ m :: copiesOf i h3, UsesKey env names h3 i n text key m' := by
        intro m' hm'
        rw [hcopies] at hm'
        obtain rfl := List.mem_singleton.mp hm'
        exact hkeyed
      apply wp_bind.mpr
      refine wp_mono (fun r h4 hr => ?_) (wp_deliver_conduct hq3.known hc3
        (hq3.new hk hle hown hid) hcopy hname (by rw [htold]; exact List.not_mem_nil) hkeyed')
      rcases r with x | _
      · exact hr.1
      · exact hr.1
  · exact hc1

/-- The loop over the members: all copies carry one key, and no receiver is told twice. -/
theorem wp_sendCopies_conduct {self : ChatClient} (hself : self.username = names c) {w : World}
    {groupId : Str} {record : GroupRecord} {sessionKey payload : Bytes} {k : Nat}
    (hgen : generateSymmetricKey env.ssl k 32 = .ok sessionKey)
    (hpayload : encrypt env.ssl (k + 1) text sessionKey = .ok payload) (members : List Str)
    (hnodup : members.Nodup) (hmember : ∀ u ∈ members, u ∈ record.members)
    (hs : GroupSend env h i c w groupId text record sessionKey payload)
    (hk : Known env names h) (hc : Conduct env names h) (hown : Owns h i k)
    (hkeyed : ∀ m ∈ copiesOf i h, UsesKey env names h i k text sessionKey m)
    (hreceivers : ∀ u ∈ members, u ∉ (copiesOf i h).map Message.receiver)
    (htold : ∀ u ∈ members, u ∉ told names i h) (anySent : Bool) :
    env.system.wp (Known env names) (Conduct env names) i
      (sendCopies env c self groupId sessionKey payload members anySent)
      (fun _ h' => Conduct env names h') h := by
  induction members generalizing h anySent with
  | nil => exact hc
  | cons member members ih =>
      obtain ⟨hnotin, hnodup'⟩ := List.nodup_cons.mp hnodup
      have hmember' : ∀ u ∈ members, u ∈ record.members :=
        fun u hu => hmember u (List.mem_cons_of_mem _ hu)
      refine wp_aside (.refl hk) hc trivial rfl fun pem h1 hpem _ hq1 hc1 => ?_
      split
      · -- a member that is not registered is passed over
        apply ih hnodup' hmember' (hs.mono hq1.grows) hq1.known hc1 (hown.mono hq1.grows)
        · intro m hm
          rw [hq1.copies] at hm
          exact (hkeyed m hm).mono hq1.grows
        · intro u hu
          rw [hq1.copies]
          exact hreceivers u (List.mem_cons_of_mem _ hu)
        · intro u hu
          rw [told, hq1.notices]
          exact htold u (List.mem_cons_of_mem _ hu)
      · next hne =>
        have hrecord : h.1.server.publicKeyOf member = some pem :=
          publicKeyOf_of_getPublicKey hpem hne
        -- the copy is built from this call's own key, for this member
        refine wp_aside hq1 hc1 trivial rfl fun n h2 hn hh2 hq2 hc2 => ?_
        obtain ⟨hle, hownId⟩ := hq1.owns_draw hn hh2 (show 1 < 2 by decide)
        refine wp_ofExcept_bind (fun m hm => ?_) fun _ _ => hc2
        have hsealed : Sealed env h.1.server m text sessionKey :=
          sealed_of_composeCopy hm hrecord hs.sealed
        obtain ⟨hwrapped, hpay, -, hid, hsender, rfl, rfl, hgroup⟩ := composeCopy_eq_ok hm
        have hname : m.sender = names c := hsender.trans hself
        have hs2 := hs.mono hq2.grows
        have hcopy : Copy env names h2 i m text :=
          ⟨⟨n + 1, hownId, hid⟩, ⟨sessionKey, hsealed.mono hq2.grows⟩,
            .group c w record hname hs2.loggedIn hgroup hs2.called hs2.before hs2.now
              (hmember _ List.mem_cons_self)⟩
        have hown2 : Owns h2 i k := hown.mono hq2.grows
        have hnew2 : UsesKey env names h2 i k text sessionKey m :=
          ⟨hown2, hgen, hpay ▸ hpayload, ⟨n, pem, hq2.grows.publicKeyOf _ _ hrecord, hwrapped⟩,
            hcopy.origin⟩
        -- nothing was stored or told since, so what was known of the copies still holds
        have hkeyed2 : ∀ m' ∈ m :: copiesOf i h2, UsesKey env names h2 i k text sessionKey m' := by
          intro m' hm'
          rcases List.mem_cons.mp hm' with rfl | hm'
          · exact hnew2
          · rw [hq2.copies] at hm'
            exact (hkeyed m' hm').mono hq2.grows
        have hreceiver2 : m.receiver ∉ (copiesOf i h2).map Message.receiver := by
          rw [hq2.copies]
          exact hreceivers _ List.mem_cons_self
        have htold2 : m.receiver ∉ told names i h2 := by
          rw [told, hq2.notices]
          exact htold _ List.mem_cons_self
        have hfresh := hq2.new hk hle hownId hid
        apply wp_bind.mpr
        refine wp_mono (fun r h3 hr => ?_) (wp_and (fun _ => Known.parts)
          (wp_deliver hq2.known hfresh hcopy hname hreceiver2)
          (wp_deliver_conduct hq2.known hc2 hfresh hcopy hname htold2 hkeyed2))
        rcases r with x | _
        · exact hr.2.1
        · obtain ⟨hdelivered, hc3, hsubset⟩ := hr
          obtain ⟨status, hcopies⟩ := hdelivered.copies
          -- the rest of the loop: one more copy is stored, and this member may have been told
          apply ih hnodup' hmember' (hs2.mono hdelivered.grows) hdelivered.known hc3
            (hown2.mono hdelivered.grows)
          · intro m' hm'
            rw [hcopies] at hm'
            rcases List.mem_cons.mp hm' with rfl | hm'
            · exact (hnew2.mono hdelivered.grows).setStatus _
            · exact (hkeyed2 m' (List.mem_cons_of_mem _ hm')).mono hdelivered.grows
          · intro u hu
            rw [hcopies, List.map_cons, List.mem_cons, hq2.copies]
            rintro (rfl | hold)
            · exact hnotin hu
            · exact hreceivers u (List.mem_cons_of_mem _ hu) hold
          · intro u hu hmem
            rcases hsubset () rfl u hmem with rfl | hold
            · exact hnotin hu
            · rw [told, hq2.notices] at hold
              exact htold u (List.mem_cons_of_mem _ hu) hold

theorem wp_sendGroupMessage_conduct (hk : Known env names h) (hc : Conduct env names h)
    {groupId : Str} (hcalled : CalledAt h i ⟨c, .sendGroupMessage groupId text⟩ h.1)
    (hfirst : copiesOf i h = []) (hnone : told names i h = []) :
    env.system.wp (Known env names) (Conduct env names) i (sendGroupMessage env c groupId text)
      (fun _ h' => Conduct env names h') h := by
  refine wp_aside (.refl hk) hc trivial rfl fun self h1 hself _ hq1 hc1 => ?_
  obtain rfl : self = h.1.clients c := hself
  split
  · next hlog =>
    refine wp_aside hq1 hc1 trivial rfl fun members h2 hmembers _ hq2 hc2 => ?_
    have hmembers' : members = h.1.server.getGroupMembers groupId := by
      rw [hmembers, ← hq1.server]
      rfl
    clear hmembers
    subst hmembers'
    split
    · exact hc2
    · next hne =>
      obtain ⟨record, hrecord, hlist⟩ := getGroupMembers_of_ne_nil hne
      refine wp_aside hq2 hc2 trivial rfl fun n h3 hn hh3 hq3 hc3 => ?_
      obtain ⟨-, hown⟩ := hq2.owns_draw hn hh3 (show 0 < 2 by decide)
      refine wp_ofExcept_bind (fun r hr => ?_) fun _ _ => hc3
      obtain ⟨hgen, hpayload⟩ := composePayload_eq_ok hr
      have hs : GroupSend env h i c h.1 groupId text record r.1 r.2 :=
        ⟨hcalled, hlog, hrecord, hrecord, n + 1, hpayload⟩
      rw [hlist]
      apply wp_sendCopies_conduct (hk.sound.named c) hgen hpayload _ (sortedFromSet_nodup _)
        (fun u hu => mem_sortedFromSet.mp hu) (hs.mono hq3.grows) hq3.known hc3 hown
      · intro m hm
        rw [hq3.copies, hfirst] at hm
        cases hm
      · intro u _
        rw [hq3.copies, hfirst]
        exact List.not_mem_nil
      · intro u _
        rw [told, hq3.notices]
        unfold told at hnone
        rw [hnone]
        exact List.not_mem_nil
  · exact hc1

/-- **Conduct**, in every state of every run. -/
theorem conduct_run (env : Env) (names : ClientId → Str) (disk : Str → Option Str)
    (ms : List (Move Exn Call)) : Conduct env names (env.run names disk ms).hist := by
  refine (run_invariant env.system (J := Known env names) (I := Conduct env names)
    (fun ms => ⟨sound_run env names disk ms, sends_run env names disk ms⟩)
    (conduct_initial env names disk) ?_ ms).1
  intro q h i hJ hI hlt
  have hne : ∀ x ∈ h.2, x.inst ≠ i := fun x hx => Nat.ne_of_lt (hlt x hx)
  have hcalled : Known env names (env.system.push h i (.called q)) :=
    ⟨⟨hJ.sound.sessions, hJ.sound.keys, hJ.sound.named⟩, hJ.sends.quiet rfl rfl fun _ _ => hne⟩
  have hconduct : Conduct env names (env.system.push h i (.called q)) := hI.quiet rfl rfl
  have hfirst : copiesOf i (env.system.push h i (.called q)) = [] :=
    (copiesOf_push_of_none rfl).trans (copiesOf_of_lt hlt)
  have hnone : told names i (env.system.push h i (.called q)) = [] := by
    rw [told_push_of_none rfl, told, noticesBy]
    have hown : own i h.2 = [] := List.filter_eq_nil_iff.mpr fun x hx => by simpa using hne x hx
    rw [hown]
    rfl
  have hcall : CalledAt (env.system.push h i (.called q)) i q h.1 :=
    calledAt_push.mpr (Or.inr ⟨rfl, rfl, rfl⟩)
  have hreturn : ∀ {h' : History} (r : Except Exn Value), Conduct env names h' →
      Kept (Conduct env names) env.system i r h' := fun r hc => hc.quiet rfl rfl
  obtain ⟨c, op⟩ := q
  by_cases hop : op.Sends
  · cases op with
    | sendMessage toUser text =>
        exact wp_map (fun r _ hK => hreturn r hK)
          (wp_sendMessage_conduct hcalled hconduct hcall hfirst hnone)
    | sendGroupMessage groupId text =>
        exact wp_map (fun r _ hK => hreturn r hK)
          (wp_sendGroupMessage_conduct hcalled hconduct hcall hfirst hnone)
    | _ => exact hop.elim
  · refine wp_mono (fun r h' hK => hreturn r hK) (wp_of_allActs (K := Conduct env names) ?_ ?_
      (body_allActs env ⟨c, op⟩) hconduct)
    · intro e h' he hK
      exact hK.quiet (storedBy_of_footprint hop he) rfl
    · exact fun n h' hn => absurd hn hop

/-! ### Notices -/

/-- The call `i`, made by the client `c` in the world `w`, is to tell the text to the user the
notice `n` is for. -/
def Meant (names : ClientId → Str) (h : History) (i : Nat) (c : ClientId) (w : World)
    (n : Notice) (text : Str) : Prop :=
  match n.event.isGroupMessage with
  | false => n.event.chatId = [] ∧ CalledAt h i ⟨c, .sendMessage (names n.receiver) text⟩ w
  | true => CalledAt h i ⟨c, .sendGroupMessage n.event.chatId text⟩ w ∧
      ∃ record, w.server.groups.lookup n.event.chatId = some record ∧
        names n.receiver ∈ record.members

theorem Genuine.meant {limit : Nat} {n : Notice} (hn : Genuine names limit h i n m text) :
    ∃ c w, n.event.fromUser = names c ∧ (w.clients c).loggedIn = true ∧
      Meant names h i c w n text := by
  have hfrom : n.event.fromUser = m.sender := by rw [hn.event]
  have hchat : n.event.chatId = m.chatId := by rw [hn.event]
  have hgroup : n.event.isGroupMessage = m.isGroupMessage := by rw [hn.event]
  unfold Meant
  rw [hfrom, hchat, hgroup, hn.receiver]
  cases hn.origin with
  | direct c w sender loggedIn isGroup chatId called =>
      refine ⟨c, w, sender, loggedIn, ?_⟩
      rw [isGroup]
      exact ⟨chatId, called⟩
  | group c w record sender loggedIn isGroup called before now member =>
      refine ⟨c, w, sender, loggedIn, ?_⟩
      rw [isGroup]
      exact ⟨called, record, before, member⟩

/-- **Notices are genuine.**  In every run, whatever observers are notified of, a client that
was logged in as the user it names as its sender had been told to send: a text to the user who
is notified, or to a group that user is a member of, and the notice has this text, if it is
shorter than what encryption can be inverted for.  And the call does not notify that user
again.  Files are to work, each name with key files of its own, and OpenSSL is to do what its
manual says (`Env.Carries`). -/
theorem notices_genuine (names : ClientId → Str) (disk : Str → Option Str)
    (ms : List (Move Exn Call)) {limit : Nat}
    (hcarries : env.Carries (env.run names disk ms).hist.1.server.recorded limit)
    {x : Entry Eff Notice Exn Call Value World} (hx : x ∈ (env.run names disk ms).hist.2)
    {n : Notice} (hn : x.act = .notified n) :
    (∃ c w text, n.event.fromUser = names c ∧ (w.clients c).loggedIn = true ∧
      Meant names (env.run names disk ms).hist x.inst c w n text ∧
      (text.length < limit → n.event.text = text)) ∧
    (noticesBy x.inst (env.run names disk ms).hist).filter
      (fun n' => names n'.receiver = names n.receiver) = [n] := by
  have hc := conduct_run env names disk ms
  have hmem : n ∈ noticesBy x.inst (env.run names disk ms).hist :=
    List.mem_filterMap.mpr ⟨x, mem_own.mpr ⟨hx, rfl⟩, by rw [hn]; rfl⟩
  obtain ⟨m, text, hgenuine⟩ := hc.genuine limit hcarries x.inst n hmem
  obtain ⟨c, w, hfrom, hlog, hmeant⟩ := hgenuine.meant
  exact ⟨⟨c, w, text, hfrom, hlog, hmeant, hgenuine.told⟩,
    filter_eq_singleton (hc.once x.inst) hmem⟩

theorem counting_inverts : OpenSSL.counting.Inverts (2 ^ 31) where
  rsa :=
    have hinv : OpenSSL.reference.Inverts 0 := OpenSSL.reference_inverts
    hinv.rsa
  gcm key iv data c tag hlen hseal :=
    have hinv : OpenSSL.reference.Inverts (2 ^ 31) := OpenSSL.reference_inverts
    hinv.gcm key iv data c tag hlen ((if_pos hlen).symm.trans hseal)
  newCipherCtx _ := rfl

theorem counting_carries {users : Set Str} : Env.counting.Carries users (2 ^ 31) where
  base64 := EvpBase64.reference_documented
  sizes := OpenSSL.counting_intSizes
  files := Env.reference_filesWork.withSsl .counting
  inverts := counting_inverts

/-- What Bob is notified of, somebody has sent to him. -/
theorem notices_genuine_greeting :
    ∃ x ∈ (Env.counting.run Env.names Env.noFiles greeting).hist.2, ∃ n, x.act = .notified n ∧
      ∃ c w text, n.event.fromUser = Env.names c ∧ (w.clients c).loggedIn = true ∧
        Meant Env.names (Env.counting.run Env.names Env.noFiles greeting).hist x.inst c w n text ∧
        (text.length < 2 ^ 31 → n.event.text = text) := by
  have hnotice : ∃ x ∈ (Env.counting.run Env.names Env.noFiles greeting).hist.2,
      (noticeOf x.act).isSome = true := by
    decide +kernel
  obtain ⟨x, hx, hsome⟩ := hnotice
  obtain ⟨n, hn⟩ := Option.isSome_iff_exists.mp hsome
  have hact := notified_of_noticeOf hn
  exact ⟨x, hx, n, hact,
    (notices_genuine Env.names Env.noFiles greeting counting_carries hx hact).1⟩

/-- **Sent means not told.**  In every run, whatever copy was stored with the status sent, no
observer is ever notified of its id: its receiver finds it in the history or not at all. -/
theorem sent_untold (hdoc : env.ssl.base64.Documented) (names : ClientId → Str)
    (disk : Str → Option Str) (ms : List (Move Exn Call))
    (hf : env.FreshIds (env.run names disk ms).hist.1.draws) {q : Call}
    (hq : StoredBy (env.run names disk ms).hist i q m) (hst : m.status = .sent) :
    ∀ n ∈ noticesOf (env.run names disk ms).hist, n.event.messageId ≠ m.messageId := by
  obtain ⟨text, -, hcopy, -⟩ := (sends_run env names disk ms).copyOf hq
  have hfilter := (sends_run env names disk ms).noticesOf_eq hdoc hf hcopy
  have huntold := (conduct_run env names disk ms).untold hdoc hf i m (mem_copiesOf.mpr hq.2) hst
  intro n hn heq
  have hmem : n ∈ (noticesOf (env.run names disk ms).hist).filter
      fun n => n.event.messageId = m.messageId :=
    List.mem_filter.mpr ⟨hn, decide_eq_true heq⟩
  rw [hfilter] at hmem
  exact huntold n (List.mem_filter.mp hmem).1 heq

/-- After a greeting Bob leaves, and Alice writes to him once more before he is back. -/
def missed : List (Move Exn Call) :=
  greeting ++ [.call ⟨1, .logout⟩, .call ⟨0, .sendMessage (str "bob") (str "hey")⟩,
    .call ⟨1, .login (str "pw")⟩]

/-- He has been told of the greeting, and of the second message not even when he is back. -/
theorem sent_untold_missed :
    noticesOf (Env.reference.run Env.names Env.noFiles missed).hist ≠ [] ∧
    ∃ m ∈ copiesOf 6 (Env.reference.run Env.names Env.noFiles missed).hist,
      m.receiver = str "bob" ∧
      ∀ n ∈ noticesOf (Env.reference.run Env.names Env.noFiles missed).hist,
        n.event.messageId ≠ m.messageId := by
  have hcall : ∃ x ∈ (Env.reference.run Env.names Env.noFiles missed).hist.2, x.inst = 6 ∧
      callOf x.act = some ⟨0, .sendMessage (str "bob") (str "hey")⟩ := by decide +kernel
  have hcopy : ∃ m ∈ copiesOf 6 (Env.reference.run Env.names Env.noFiles missed).hist,
      m.receiver = str "bob" ∧ m.status = .sent := by decide +kernel
  obtain ⟨m, hm, hreceiver, hst⟩ := hcopy
  refine ⟨by decide +kernel, m, hm, hreceiver, ?_⟩
  exact sent_untold EvpBase64.reference_documented Env.names Env.noFiles missed
    Env.reference_freshIds ⟨calledAt_of_callOf hcall, mem_copiesOf.mp hm⟩ hst

/-! ### Session keys -/

/-- **Session keys are used once.**  In every run, the copies one call stores have one payload,
which is the text of that call encrypted with one session key; the key comes from a draw of
random bytes, and no other call has stored anything encrypted with a key of that draw. -/
theorem keys_used_once (env : Env) (names : ClientId → Str) (disk : Str → Option Str)
    (ms : List (Move Exn Call)) : ∃ draw : Nat → Nat,
      (∀ i, ∃ text sessionKey, ∀ m ∈ copiesOf i (env.run names disk ms).hist,
        UsesKey env names (env.run names disk ms).hist i (draw i) text sessionKey m) ∧
      (∀ i, ∀ m ∈ copiesOf i (env.run names disk ms).hist,
        ∀ m' ∈ copiesOf i (env.run names disk ms).hist,
          m'.encryptedPayload = m.encryptedPayload) ∧
      ∀ i j, copiesOf i (env.run names disk ms).hist ≠ [] →
        copiesOf j (env.run names disk ms).hist ≠ [] → draw i = draw j → i = j := by
  have hs := sends_run env names disk ms
  choose draw hdraw using (conduct_run env names disk ms).keyed
  refine ⟨draw, hdraw, fun i m hm m' hm' => ?_, fun i j hi hj heq => ?_⟩
  · obtain ⟨text, sessionKey, hall⟩ := hdraw i
    exact Except.ok.inj ((hall m' hm').payload.symm.trans (hall m hm).payload)
  · obtain ⟨m, hm⟩ := List.exists_mem_of_ne_nil _ hi
    obtain ⟨m', hm'⟩ := List.exists_mem_of_ne_nil _ hj
    obtain ⟨_, _, hall⟩ := hdraw i
    obtain ⟨_, _, hall'⟩ := hdraw j
    apply hs.owner i j (draw i) (hall m hm).drawn
    rw [heq]
    exact (hall' m' hm').drawn

end Evlampy
