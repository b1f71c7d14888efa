/-
Evlampy/Copies.lean

What the messages in the histories are.  A send stores one message for each
receiver; `Copy` says what such a message is made of and which call made it,
and `Announced` what the receiver's observers have been told of it.  `Sends` is
the invariant: every message in the histories is the copy of some call, no call
stores two copies for one receiver or under one id, and while observers are
notified of a message its copy is not stored yet.

This module has the invariant and what single acts do to it; that the sending
functions keep it is in `Sending.lean`.
-/
import Evlampy.Codec
import Evlampy.Histories
import Evlampy.Sessions
import Evlampy.Traces

namespace Evlampy

open Cxx Callback System ChatServer MessageProtocol
open AES256GCMStrategy OpenSSLKeyFactory

/-- The first `n` draws generate no message id twice. -/
def Env.FreshIds (env : Env) (n : Nat) : Prop :=
  ∀ i < n, ∀ j < n, env.messageId i = env.messageId j → i = j

theorem Env.FreshIds.mono {env : Env} {n n' : Nat} (hf : env.FreshIds n') (hle : n ≤ n') :
    env.FreshIds n :=
  fun i hi j hj => hf i (Nat.lt_of_lt_of_le hi hle) j (Nat.lt_of_lt_of_le hj hle)

/-- The only element of a list with its value. -/
theorem filter_eq_singleton {α β : Type} [DecidableEq β] {f : α → β} {l : List α}
    (hl : (l.map f).Nodup) {a : α} (ha : a ∈ l) : l.filter (fun b => f b = f a) = [a] := by
  induction l with
  | nil => cases ha
  | cons b l ih =>
      obtain ⟨hnew, hl⟩ := List.nodup_cons.mp hl
      rcases List.mem_cons.mp ha with rfl | hmem
      · have hnone : l.filter (fun b => f b = f a) = [] := by
          refine List.filter_eq_nil_iff.mpr fun b hb => ?_
          rw [decide_eq_true_eq]
          exact fun e => hnew (List.mem_map.mpr ⟨b, hb, e⟩)
        rw [List.filter_cons_of_pos (by simp), hnone]
      · have hne : f b ≠ f a := fun e => hnew (List.mem_map.mpr ⟨a, hmem, e.symm⟩)
        rw [List.filter_cons_of_neg (by rwa [decide_eq_true_eq]), ih hl hmem]

/-! ### Copies -/

/-- `c` is `data` encrypted under the public key on record for `u`. -/
def SealedFor (env : Env) (s : ChatServer) (u : Str) (data c : Bytes) : Prop :=
  ∃ n pem, s.publicKeyOf u = some pem ∧ encryptWithPublicKey env.ssl n pem data = .ok c

/-- The encrypted fields of a message with the given text. -/
structure Sealed (env : Env) (s : ChatServer) (m : Message) (text : Str) (sessionKey : Bytes) :
    Prop where
  payload : ∃ n, encrypt env.ssl n text sessionKey = .ok m.encryptedPayload
  key : SealedFor env s m.receiver sessionKey m.encryptedSessionKey
  selfKey : env.FilesWork s.recorded → m.isGroupMessage = false →
    SealedFor env s m.sender sessionKey m.encryptedSelfSessionKey
  noSelfKey : m.isGroupMessage = true → m.encryptedSelfSessionKey = []

/-- The call that made a message: call `i`, of the client `c`, made in the world
`w` while `c` was logged in. -/
inductive Origin (names : ClientId → Str) (h : History) (i : Nat) (m : Message) (text : Str) : Prop
  | direct (c : ClientId) (w : World) (sender : m.sender = names c)
      (loggedIn : (w.clients c).loggedIn = true) (isGroup : m.isGroupMessage = false)
      (chatId : m.chatId = []) (called : CalledAt h i ⟨c, .sendMessage m.receiver text⟩ w)
  | group (c : ClientId) (w : World) (record : GroupRecord) (sender : m.sender = names c)
      (loggedIn : (w.clients c).loggedIn = true) (isGroup : m.isGroupMessage = true)
      (called : CalledAt h i ⟨c, .sendGroupMessage m.chatId text⟩ w)
      (before : w.server.groups.lookup m.chatId = some record)
      (now : h.1.server.groups.lookup m.chatId = some record)
      (member : m.receiver ∈ record.members)

/-- `m` is a copy call `i` makes of a message with the given text. -/
structure Copy (env : Env) (names : ClientId → Str) (h : History) (i : Nat) (m : Message)
    (text : Str) : Prop where
  id : ∃ k, Owns h i k ∧ m.messageId = env.messageId k
  fields : ∃ sessionKey, Sealed env h.1.server m text sessionKey
  origin : Origin names h i m text

/-- The longest text whose envelope fits the wire. -/
def maxText : Nat := maxBytes - 28

/-- What observers have been told of the copy `m`, if call `i` has stored it: of
a message with a bar in a string nothing; otherwise, if its status is delivered,
its receiver's observers have been told its text, and nobody else has. -/
structure Announced (env : Env) (names : ClientId → Str) (h : History) (i : Nat) (m : Message)
    (text : Str) : Prop where
  nothing : ¬ NoBar m → ∀ n ∈ noticesBy i h, n.event.messageId ≠ m.messageId
  once : env.FilesWork h.1.server.recorded → env.ssl.Inverts (maxText + 1) → env.ssl.Sized →
    m.status = .delivered → NoBar m → text.length ≤ maxText →
    ∃ n, (noticesBy i h).filter (fun n => n.event.messageId = m.messageId) = [n] ∧
      names n.receiver = m.receiver ∧
      n.event = ⟨m.sender, text, m.chatId, m.messageId, m.isGroupMessage⟩

/-- The sends of a run. -/
structure Sends (env : Env) (names : ClientId → Str) (h : History) : Prop where
  drawn : ∀ i k, Owns h i k → k < h.1.draws
  owner : ∀ i j k, Owns h i k → Owns h j k → i = j
  called : ∀ i q q' w w', CalledAt h i q w → CalledAt h i q' w' → q = q'
  log : ∃ L, Logged h.1.server L ∧ ∀ m ∈ L, ∃ i, m ∈ copiesOf i h
  copies : ∀ i, ∀ m ∈ copiesOf i h, ∃ text, Copy env names h i m text ∧
    (env.ssl.base64.Documented → env.FreshIds h.1.draws → Announced env names h i m text)
  receivers : ∀ i, ((copiesOf i h).map Message.receiver).Nodup
  ids : env.FreshIds h.1.draws → ∀ i, ((copiesOf i h).map Message.messageId).Nodup
  notices : env.ssl.base64.Documented → ∀ i, ∀ n ∈ noticesBy i h,
    ∃ k, Owns h i k ∧ n.event.messageId = env.messageId k
  texts : env.ssl.base64.Documented → env.ssl.Sized → ∀ i, ∀ n ∈ noticesBy i h,
    n.event.text.length ≤ maxText
  pending : env.ssl.base64.Documented → env.FreshIds h.1.draws → ∀ i n b,
    (own i h.2).head? = some ⟨i, .notified n, b⟩ →
      ∀ m ∈ copiesOf i h, m.messageId ≠ n.event.messageId

variable {env : Env} {names : ClientId → Str} {h h' : History} {i j : Nat} {m : Message}
  {text : Str}

theorem sends_initial (env : Env) (names : ClientId → Str) (disk : Str → Option Str) :
    Sends env names (World.initial names disk, []) := by
  refine ⟨?_, ?_, ?_, ⟨[], logged_empty, fun m hm => nomatch hm⟩, ?_, fun i => List.nodup_nil,
    fun _ i => List.nodup_nil, ?_, ?_, ?_⟩
  · rintro i k ⟨x, hx, -⟩
    cases hx
  · rintro i j k ⟨x, hx, -⟩
    cases hx
  · rintro i q q' w w' ⟨x, hx, -⟩
    cases hx
  · intro i m hm
    cases hm
  · intro _ i n hn
    cases hn
  · intro _ _ i n hn
    cases hn
  · intro _ _ i n b hb
    cases hb

/-! ### Growth -/

theorem SealedFor.mono (hg : Grows h h') {u : Str} {data c : Bytes}
    (hs : SealedFor env h.1.server u data c) : SealedFor env h'.1.server u data c := by
  obtain ⟨n, pem, hpem, hc⟩ := hs
  exact ⟨n, pem, hg.publicKeyOf u pem hpem, hc⟩

theorem Sealed.mono (hg : Grows h h') {sessionKey : Bytes}
    (hs : Sealed env h.1.server m text sessionKey) :
    Sealed env h'.1.server m text sessionKey where
  payload := hs.payload
  key := hs.key.mono hg
  selfKey hfw hdirect := (hs.selfKey (hfw.mono hg.recorded) hdirect).mono hg
  noSelfKey := hs.noSelfKey

theorem Origin.mono (hg : Grows h h') (ho : Origin names h i m text) :
    Origin names h' i m text := by
  cases ho with
  | direct c w sender loggedIn isGroup chatId called =>
      exact .direct c w sender loggedIn isGroup chatId (called.mono hg)
  | group c w record sender loggedIn isGroup called before now member =>
      exact .group c w record sender loggedIn isGroup (called.mono hg) before
        (hg.groups _ _ now) member

theorem Copy.mono (hg : Grows h h') (hc : Copy env names h i m text) :
    Copy env names h' i m text := by
  obtain ⟨⟨k, hk, hid⟩, ⟨sessionKey, hs⟩, ho⟩ := hc
  exact ⟨⟨k, hk.mono hg, hid⟩, ⟨sessionKey, hs.mono hg⟩, ho.mono hg⟩

/-- The status is no part of what a copy is made of. -/
theorem Copy.setStatus (hc : Copy env names h i m text) (status : MessageStatus) :
    Copy env names h i { m with status := status } text := by
  obtain ⟨hid, ⟨sessionKey, hs⟩, ho⟩ := hc
  refine ⟨hid, ⟨sessionKey, hs.payload, hs.key, hs.selfKey, hs.noSelfKey⟩, ?_⟩
  cases ho with
  | direct c w sender loggedIn isGroup chatId called =>
      exact .direct c w sender loggedIn isGroup chatId called
  | group c w record sender loggedIn isGroup called before now member =>
      exact .group c w record sender loggedIn isGroup called before now member

theorem Announced.of_noticesBy (hg : Grows h h') (heq : noticesBy i h' = noticesBy i h)
    (ha : Announced env names h i m text) : Announced env names h' i m text := by
  refine ⟨?_, fun hfw => ?_⟩
  · rw [heq]
    exact ha.nothing
  · rw [heq]
    exact ha.once (hfw.mono hg.recorded)

/-! ### Single acts -/

variable {a : Act Eff Notice Exn Call Value}

theorem owns_push {k : Nat} : Owns (env.system.push h i a) j k ↔
    Owns h j k ∨ (i = j ∧ ∃ count, a = .did (.draw count) ∧
      h.1.draws ≤ k ∧ k < h.1.draws + count) := by
  constructor
  · rintro ⟨x, hx, hinst, count, hact, hlo, hhi⟩
    rcases List.mem_cons.mp hx with rfl | hx
    · exact Or.inr ⟨hinst, count, hact, hlo, hhi⟩
    · exact Or.inl ⟨x, hx, hinst, count, hact, hlo, hhi⟩
  · rintro (hk | ⟨rfl, count, rfl, hlo, hhi⟩)
    · exact hk.mono (Grows.push env h i a)
    · exact ⟨_, List.mem_cons_self, rfl, count, rfl, hlo, hhi⟩

theorem calledAt_push {q : Call} {w : World} : CalledAt (env.system.push h i a) j q w ↔
    CalledAt h j q w ∨ (i = j ∧ a = .called q ∧ h.1 = w) := by
  constructor
  · rintro ⟨x, hx, hinst, hact, hbefore⟩
    rcases List.mem_cons.mp hx with rfl | hx
    · exact Or.inr ⟨hinst, hact, hbefore⟩
    · exact Or.inl ⟨x, hx, hinst, hact, hbefore⟩
  · rintro (hq | ⟨rfl, rfl, rfl⟩)
    · exact hq.mono (Grows.push env h i a)
    · exact ⟨_, List.mem_cons_self, rfl, rfl, rfl⟩

/-- The histories change by storing and deleting only. -/
theorem ServerCall.Change.logged {q : ServerCall} {s s' : ChatServer} (h : Change s q s')
    (hq : ∀ m, q ≠ .storeMessage m) {L : List Message} (hL : Logged s L) :
    ∃ L', Logged s' L' ∧ ∀ m ∈ L', m ∈ L := by
  cases h with
  | stored m => exact absurd rfl (hq m)
  | deleted requester messageId =>
      exact ⟨_, hL.deleteMessageForAll requester messageId, fun m hm => List.mem_of_mem_filter hm⟩
  | _ => exact ⟨L, hL.congr rfl rfl, fun m hm => hm⟩

theorem logged_after (env : Env) (hstore : storedBy a = none) {w : World} {L : List Message}
    (hL : Logged w.server L) :
    ∃ L', Logged (env.system.after a w).server L' ∧ ∀ m ∈ L', m ∈ L := by
  cases a with
  | did e =>
      cases e with
      | server q =>
          refine (q.exec_change w.server).logged ?_ hL
          rintro m rfl
          cases hstore
      | _ => exact ⟨L, hL.congr rfl rfl, fun m hm => hm⟩
  | _ => exact ⟨L, hL, fun m hm => hm⟩

/-- Numbers are drawn once. -/
structure Drawn (h : History) : Prop where
  drawn : ∀ i k, Owns h i k → k < h.1.draws
  owner : ∀ i j k, Owns h i k → Owns h j k → i = j

theorem Drawn.push (hd : Drawn h) (i : Nat) (a : Act Eff Notice Exn Call Value) :
    Drawn (env.system.push h i a) where
  drawn j k hk := by
    rcases owns_push.mp hk with hk | ⟨-, count, rfl, -, hhi⟩
    · exact Nat.lt_of_lt_of_le (hd.drawn j k hk) (draws_le_after env a h.1)
    · exact hhi
  owner j j' k hk hk' := by
    rcases owns_push.mp hk with hk | ⟨rfl, count, rfl, hlo, -⟩
    · rcases owns_push.mp hk' with hk' | ⟨-, count, -, hlo, -⟩
      · exact hd.owner j j' k hk hk'
      · exact absurd (hd.drawn j k hk) (Nat.not_lt.mpr hlo)
    · rcases owns_push.mp hk' with hk' | ⟨rfl, -⟩
      · exact absurd (hd.drawn j' k hk') (Nat.not_lt.mpr hlo)
      · rfl

/-- What every act does to the fields of `Sends` that are about draws and calls. -/
theorem Sends.draws_push (hs : Sends env names h)
    (hnew : ∀ q, a = .called q → ∀ x ∈ h.2, x.inst ≠ i) :
    (∀ j k, Owns (env.system.push h i a) j k → k < (env.system.push h i a).1.draws) ∧
      (∀ j j' k, Owns (env.system.push h i a) j k → Owns (env.system.push h i a) j' k → j = j') ∧
      ∀ j q q' w w', CalledAt (env.system.push h i a) j q w →
        CalledAt (env.system.push h i a) j q' w' → q = q' := by
  have hdrawn : Drawn (env.system.push h i a) := Drawn.push ⟨hs.drawn, hs.owner⟩ i a
  refine ⟨hdrawn.drawn, hdrawn.owner, ?_⟩
  intro j q q' w w' hpush hpush'
  rcases calledAt_push.mp hpush with hq | ⟨rfl, hact, -⟩
  · rcases calledAt_push.mp hpush' with hq' | ⟨rfl, hact', -⟩
    · exact hs.called j q q' w w' hq hq'
    · obtain ⟨x, hx, hinst, -⟩ := hq
      exact absurd hinst (hnew q' hact' x hx)
  · rcases calledAt_push.mp hpush' with hq' | ⟨-, hact', -⟩
    · obtain ⟨x, hx, hinst, -⟩ := hq'
      exact absurd hinst (hnew q hact x hx)
    · rw [hact] at hact'
      cases hact'
      rfl

/-- The newest own entry after an act that gives no notice. -/
theorem pending_push (hnote : noticeOf a = none) {n : Notice} {b : World}
    (hhead : (own j (env.system.push h i a).2).head? = some ⟨j, .notified n, b⟩) :
    (own j h.2).head? = some ⟨j, .notified n, b⟩ := by
  rcases eq_or_ne i j with rfl | hne
  · rw [System.push, own_cons_self] at hhead
    cases hhead
    cases hnote
  · rw [System.push, own_cons_ne hne] at hhead
    exact hhead

/-- **Quiet acts.**  An act that neither stores nor notifies keeps the invariant. -/
theorem Sends.quiet (hs : Sends env names h) (hstore : storedBy a = none)
    (hnote : noticeOf a = none) (hnew : ∀ q, a = .called q → ∀ x ∈ h.2, x.inst ≠ i) :
    Sends env names (env.system.push h i a) := by
  obtain ⟨hdrawn, howner, hcalled⟩ := hs.draws_push hnew
  have hgrows := Grows.push env h i a
  have hcopies : ∀ j, copiesOf j (env.system.push h i a) = copiesOf j h :=
    fun j => copiesOf_push_of_none hstore
  have hnotices : ∀ j, noticesBy j (env.system.push h i a) = noticesBy j h :=
    fun j => noticesBy_push_of_none hnote
  refine ⟨hdrawn, howner, hcalled, ?_, ?_, ?_, ?_, ?_, ?_, ?_⟩
  · obtain ⟨L, hL, hmem⟩ := hs.log
    obtain ⟨L', hL', hsub⟩ := logged_after env hstore hL
    refine ⟨L', hL', fun m hm => ?_⟩
    obtain ⟨j, hj⟩ := hmem m (hsub m hm)
    exact ⟨j, (hcopies j).symm ▸ hj⟩
  · intro j m hm
    rw [hcopies] at hm
    obtain ⟨text, hcopy, hann⟩ := hs.copies j m hm
    refine ⟨text, hcopy.mono hgrows, fun hd hf => ?_⟩
    exact (hann hd (hf.mono hgrows.draws)).of_noticesBy hgrows (hnotices j)
  · intro j
    rw [hcopies]
    exact hs.receivers j
  · intro hf j
    rw [hcopies]
    exact hs.ids (hf.mono hgrows.draws) j
  · intro hd j n hn
    rw [hnotices] at hn
    obtain ⟨k, hk, hid⟩ := hs.notices hd j n hn
    exact ⟨k, hk.mono hgrows, hid⟩
  · intro hd hsized j n hn
    rw [hnotices] at hn
    exact hs.texts hd hsized j n hn
  · intro hd hf j n b hhead
    rw [hcopies]
    exact hs.pending hd (hf.mono hgrows.draws) j n b (pending_push hnote hhead)

theorem mem_noticesBy_notified {n n' : Notice} :
    n' ∈ noticesBy j (env.system.push h i (.notified n)) ↔
      n' ∈ noticesBy j h ∨ (i = j ∧ n' = n) := by
  rcases eq_or_ne i j with rfl | hne
  · rw [noticesBy_push_self]
    show n' ∈ n :: noticesBy i h ↔ _
    rw [List.mem_cons, or_comm]
    simp
  · rw [noticesBy_push_ne hne]
    simp [hne]

theorem mem_copiesOf_stored {m' : Message} :
    m' ∈ copiesOf j (env.system.push h i (.did (.server (.storeMessage m)))) ↔
      m' ∈ copiesOf j h ∨ (i = j ∧ m' = m) := by
  rcases eq_or_ne i j with rfl | hne
  · rw [copiesOf_push_self]
    show m' ∈ m :: copiesOf i h ↔ _
    rw [List.mem_cons, or_comm]
    simp
  · rw [copiesOf_push_ne hne]
    simp [hne]

/-- A notice of another message says nothing of `m`. -/
theorem Announced.notified {n : Notice} (hother : i = j → n.event.messageId ≠ m.messageId)
    (ha : Announced env names h j m text) :
    Announced env names (env.system.push h i (.notified n)) j m text := by
  rcases eq_or_ne i j with rfl | hne
  · refine ⟨fun hbar n' hn' => ?_, fun hfw hinv hsized hst hbar htext => ?_⟩
    · rcases mem_noticesBy_notified.mp hn' with hn' | ⟨-, rfl⟩
      · exact ha.nothing hbar n' hn'
      · exact hother rfl
    · obtain ⟨n', hn', hrest⟩ := ha.once hfw hinv hsized hst hbar htext
      refine ⟨n', ?_, hrest⟩
      rw [noticesBy_push_self]
      show (n :: noticesBy i h).filter _ = [n']
      rw [List.filter_cons_of_neg (by simpa using hother rfl), hn']
  · exact ha.of_noticesBy (Grows.push env h i _) (noticesBy_push_ne hne _)

/-- **Notices.**  A notice keeps the invariant if its id is the caller's own and
of none of its copies yet, and its text is one the wire can carry. -/
theorem Sends.notified (hs : Sends env names h) {n : Notice}
    (hid : env.ssl.base64.Documented → ∃ k, Owns h i k ∧ n.event.messageId = env.messageId k)
    (hnew : env.ssl.base64.Documented → env.FreshIds h.1.draws →
      ∀ m ∈ copiesOf i h, m.messageId ≠ n.event.messageId)
    (htext : env.ssl.base64.Documented → env.ssl.Sized → n.event.text.length ≤ maxText) :
    Sends env names (env.system.push h i (.notified n)) := by
  obtain ⟨hdrawn, howner, hcalled⟩ := hs.draws_push (i := i) (a := .notified n)
    (fun q hq => by cases hq)
  have hgrows := Grows.push env h i (.notified n)
  have hcopies : ∀ j, copiesOf j (env.system.push h i (.notified n)) = copiesOf j h :=
    fun j => copiesOf_push_of_none rfl
  -- log, copies, receivers, ids, notices, texts, and what is still to be stored
  refine ⟨hdrawn, howner, hcalled, ?_, ?_, ?_, ?_, ?_, ?_, ?_⟩
  · obtain ⟨L, hL, hmem⟩ := hs.log
    refine ⟨L, hL, fun m hm => ?_⟩
    obtain ⟨j, hj⟩ := hmem m hm
    exact ⟨j, (hcopies j).symm ▸ hj⟩
  · intro j m hm
    rw [hcopies] at hm
    obtain ⟨text, hcopy, hann⟩ := hs.copies j m hm
    refine ⟨text, hcopy.mono hgrows, fun hd hf => (hann hd hf).notified ?_⟩
    rintro rfl
    exact (hnew hd hf m hm).symm
  · intro j
    rw [hcopies]
    exact hs.receivers j
  · intro hf j
    rw [hcopies]
    exact hs.ids hf j
  · intro hd j n' hn'
    rcases mem_noticesBy_notified.mp hn' with hn' | ⟨rfl, rfl⟩
    · obtain ⟨k, hk, he⟩ := hs.notices hd j n' hn'
      exact ⟨k, hk.mono hgrows, he⟩
    · obtain ⟨k, hk, he⟩ := hid hd
      exact ⟨k, hk.mono hgrows, he⟩
  · intro hd hsized j n' hn'
    rcases mem_noticesBy_notified.mp hn' with hn' | ⟨-, rfl⟩
    · exact hs.texts hd hsized j n' hn'
    · exact htext hd hsized
  · intro hd hf j n' b hhead
    rw [hcopies]
    rcases eq_or_ne i j with rfl | hne
    · rw [System.push, own_cons_self] at hhead
      cases hhead
      exact hnew hd hf
    · rw [System.push, own_cons_ne hne] at hhead
      exact hs.pending hd hf j n' b hhead

/-- **Stores.**  Storing a new copy keeps the invariant. -/
theorem Sends.stored (hs : Sends env names h) (hcopy : Copy env names h i m text)
    (hreceiver : m.receiver ∉ (copiesOf i h).map Message.receiver)
    (hid : env.FreshIds h.1.draws → m.messageId ∉ (copiesOf i h).map Message.messageId)
    (hann : env.ssl.base64.Documented → env.FreshIds h.1.draws → Announced env names h i m text) :
    Sends env names (env.system.push h i (.did (.server (.storeMessage m)))) := by
  -- one copy more for call `i`, nothing else
  obtain ⟨hdrawn, howner, hcalled⟩ := hs.draws_push (i := i)
    (a := .did (.server (.storeMessage m))) (fun q hq => by cases hq)
  have hgrows := Grows.push env h i (.did (.server (.storeMessage m)))
  have hself : copiesOf i (env.system.push h i (.did (.server (.storeMessage m))))
      = m :: copiesOf i h := copiesOf_push_self _
  have hother : ∀ {j}, i ≠ j → copiesOf j (env.system.push h i (.did (.server (.storeMessage m))))
      = copiesOf j h := fun hne => copiesOf_push_ne hne _
  have hnotices : ∀ j, noticesBy j (env.system.push h i (.did (.server (.storeMessage m))))
      = noticesBy j h := fun j => noticesBy_push_of_none rfl
  -- log, copies, receivers, ids, notices, texts, and what is still to be stored
  refine ⟨hdrawn, howner, hcalled, ?_, ?_, ?_, ?_, ?_, ?_, ?_⟩
  · obtain ⟨L, hL, hmem⟩ := hs.log
    refine ⟨L ++ [m], hL.storeMessage m, fun m' hm' => ?_⟩
    rcases List.mem_append.mp hm' with hm' | hm'
    · obtain ⟨j, hj⟩ := hmem m' hm'
      exact ⟨j, mem_copiesOf_stored.mpr (Or.inl hj)⟩
    · exact ⟨i, mem_copiesOf_stored.mpr (Or.inr ⟨rfl, List.mem_singleton.mp hm'⟩)⟩
  · intro j m' hm'
    rcases mem_copiesOf_stored.mp hm' with hm' | ⟨rfl, rfl⟩
    · obtain ⟨text', hcopy', hann'⟩ := hs.copies j m' hm'
      exact ⟨text', hcopy'.mono hgrows, fun hd hf => (hann' hd hf).of_noticesBy hgrows (hnotices j)⟩
    · exact ⟨text, hcopy.mono hgrows, fun hd hf => (hann hd hf).of_noticesBy hgrows (hnotices i)⟩
  · intro j
    rcases eq_or_ne i j with rfl | hne
    · rw [hself, List.map_cons, List.nodup_cons]
      exact ⟨hreceiver, hs.receivers i⟩
    · rw [hother hne]
      exact hs.receivers j
  · intro hf j
    rcases eq_or_ne i j with rfl | hne
    · rw [hself, List.map_cons, List.nodup_cons]
      exact ⟨hid hf, hs.ids hf i⟩
    · rw [hother hne]
      exact hs.ids hf j
  · intro hd j n hn
    rw [hnotices] at hn
    obtain ⟨k, hk, he⟩ := hs.notices hd j n hn
    exact ⟨k, hk.mono hgrows, he⟩
  · intro hd hsized j n hn
    rw [hnotices] at hn
    exact hs.texts hd hsized j n hn
  · intro hd hf j n b hhead
    have hbefore := pending_push rfl hhead
    rcases eq_or_ne i j with rfl | hne
    · rw [System.push, own_cons_self] at hhead
      cases hhead
    · rw [hother hne]
      exact hs.pending hd hf j n b hbefore

end Evlampy
