/-
Evlampy/Delivery.lean

What a send achieves.  Everything here is read off the invariant `Sends`: a
stored message can be read by its parties (`stored_readable`), nobody finds a
message in the history while observers are being notified of it
(`notified_before_stored`), and a message with the status delivered has reached
its receiver's observers exactly where its wire could be read back
(`delivered_told_iff`).
-/
import Evlampy.Reference
import Evlampy.Sending

namespace Evlampy

open Cxx Callback System ChatServer MessageProtocol ChatClient
open AES256GCMStrategy OpenSSLKeyFactory

/-! ### Stored messages -/

/-- The text a call is given to send. -/
def Op.plaintext : Op → Option Str
  | .sendMessage _ plaintext => some plaintext
  | .sendGroupMessage _ plaintext => some plaintext
  | _ => none

/-- The message is in one of the server's histories. -/
def ChatServer.Stored (s : ChatServer) (m : Message) : Prop :=
  (∃ a b, m ∈ s.getConversation a b) ∨ ∃ g, m ∈ s.getGroupConversation g

/-- Instance `i`, the call `q`, has stored the message. -/
def StoredBy (h : History) (i : Nat) (q : Call) (m : Message) : Prop :=
  (∃ w, CalledAt h i q w) ∧
    ∃ x ∈ h.2, x.inst = i ∧ x.act = .did (.server (.storeMessage m))

variable {env : Env} {names : ClientId → Str} {h : History} {i : Nat} {m : Message} {text : Str}

theorem mem_log_of_stored {s : ChatServer} {L : List Message} (hL : Logged s L)
    (hm : s.Stored m) : m ∈ L := by
  rcases hm with ⟨a, b, hm⟩ | ⟨g, hm⟩
  · exact ((mem_getConversation hL).mp hm).1
  · rw [ChatServer.getGroupConversation, hL.group.mem_bucket] at hm
    exact hm.1

/-- What is in a history was stored by some call. -/
theorem Sends.storedBy (hs : Sends env names h) (hm : h.1.server.Stored m) :
    ∃ i q, StoredBy h i q m := by
  obtain ⟨L, hL, hmem⟩ := hs.log
  obtain ⟨i, hi⟩ := hmem m (mem_log_of_stored hL hm)
  obtain ⟨text, hcopy, -⟩ := hs.copies i m hi
  cases hcopy.origin with
  | direct c w sender loggedIn isGroup chatId called =>
      exact ⟨i, _, ⟨w, called⟩, mem_copiesOf.mp hi⟩
  | group c w record sender loggedIn isGroup called before now member =>
      exact ⟨i, _, ⟨w, called⟩, mem_copiesOf.mp hi⟩

/-- The text of a copy is that of the call that made it. -/
theorem Copy.plaintext_eq (hcopy : Copy env names h i m text) (hs : Sends env names h) {q : Call}
    {w : World} (hq : CalledAt h i q w) : q.op.plaintext = some text := by
  cases hcopy.origin with
  | direct c w' sender loggedIn isGroup chatId called =>
      rw [hs.called i q _ w w' hq called]
      rfl
  | group c w' record sender loggedIn isGroup called before now member =>
      rw [hs.called i q _ w w' hq called]
      rfl

theorem Sends.copyOf (hs : Sends env names h) {q : Call} (hm : StoredBy h i q m) :
    ∃ text, q.op.plaintext = some text ∧ Copy env names h i m text ∧
      (env.ssl.base64.Documented → env.FreshIds h.1.draws → Announced env names h i m text) := by
  obtain ⟨⟨w, hq⟩, hi⟩ := hm
  obtain ⟨text, hcopy, hann⟩ := hs.copies i m (mem_copiesOf.mpr hi)
  exact ⟨text, hcopy.plaintext_eq hs hq, hcopy, hann⟩

/-- A message with an id of call `i` was stored by call `i`. -/
theorem Sends.inst_eq (hs : Sends env names h) (hf : env.FreshIds h.1.draws) {j k : Nat}
    (hm : m ∈ copiesOf j h) (hown : Owns h i k) (hid : m.messageId = env.messageId k) : j = i := by
  obtain ⟨text, ⟨⟨k', hk', hid'⟩, -, -⟩, -⟩ := hs.copies j m hm
  rw [hid'] at hid
  obtain rfl := hf k' (hs.drawn j k' hk') k (hs.drawn i k hown) hid
  exact hs.owner j i k' hk' hown

/-! ### Reading -/

/-- What a reader is shown of the message, if the text is what it decrypts to. -/
def Message.view (m : Message) (text : Str) : MessageView :=
  ⟨m.messageId, m.sender, m.receiver, m.chatId, text, m.timestamp, m.status, m.isGroupMessage,
    m.deletedForAll⟩

theorem decryptToView_eq_ok {self : ChatClient} {n : Nat} {sessionKey : Bytes}
    (hkey : decryptWithPrivateKey env.ssl n self.keyPair.privateKeyPem (keyToUse self m)
      = .ok sessionKey)
    (hdec : decrypt env.ssl n m.encryptedPayload sessionKey = .ok text) :
    decryptToView env self n m = .ok (m.view text) :=
  bind_eq_ok.mpr ⟨sessionKey, hkey, bind_eq_ok.mpr ⟨text, hdec, rfl⟩⟩

/-- **Stored messages stay readable.**  In every state of every run, whoever is
logged in as the receiver of a stored message, or as the sender of a direct one,
decrypts it to the text of the call that stored it, as long a text as encryption
can be inverted for. -/
theorem stored_readable (limit : Nat) (hinv : env.ssl.Inverts limit) (names : ClientId → Str)
    (disk : Str → Option Str) (ms : List (Move Exn Call))
    (hfw : env.FilesWork (env.run names disk ms).hist.1.server.recorded)
    (hm : (env.run names disk ms).hist.1.server.Stored m) :
    (∃ i q, StoredBy (env.run names disk ms).hist i q m) ∧
      ∀ i q, StoredBy (env.run names disk ms).hist i q m →
        ∃ text, q.op.plaintext = some text ∧ (text.length < limit →
          ∀ c, ((env.run names disk ms).hist.1.clients c).loggedIn = true →
            (((env.run names disk ms).hist.1.clients c).username = m.receiver ∨
              ((env.run names disk ms).hist.1.clients c).username = m.sender ∧
                m.isGroupMessage = false) →
            ∀ n, ∃ view, decryptToView env ((env.run names disk ms).hist.1.clients c) n m
                = .ok view ∧ view.text = text) := by
  have hs := sends_run env names disk ms
  have hkeys := keyInv_run names disk ms hfw
  refine ⟨hs.storedBy hm, fun i q hq => ?_⟩
  obtain ⟨text, htext, hcopy, -⟩ := hs.copyOf hq
  refine ⟨text, htext, fun hlen c hlog hparty n => ?_⟩
  obtain ⟨sessionKey, hsealed⟩ := hcopy.fields
  obtain ⟨hkey, hdec⟩ := hsealed.opens hfw hinv hkeys hlog hparty n
  exact ⟨_, decryptToView_eq_ok hkey (hdec hlen), rfl⟩

/-- Alice and Bob register and log in. -/
def opening : List (Move Exn Call) :=
  [.call ⟨0, .registerOnServer (str "pw")⟩, .call ⟨1, .registerOnServer (str "pw")⟩,
    .call ⟨0, .login (str "pw")⟩, .call ⟨1, .login (str "pw")⟩]

/-- And Alice sends to Bob, whose observers return. -/
def greeting : List (Move Exn Call) :=
  opening ++ [.call ⟨0, .sendMessage (str "bob") (str "hi")⟩, .answer (.ok ())]

/-- In the run `greeting` the fifth call stores one message. -/
theorem greeting_storedBy : ∃ m,
    StoredBy (Env.reference.run Env.names Env.noFiles greeting).hist 4
      ⟨0, .sendMessage (str "bob") (str "hi")⟩ m ∧
    (Env.reference.run Env.names Env.noFiles greeting).hist.1.server.Stored m ∧
    m.receiver = str "bob" ∧ m.status = .delivered ∧ m.sender = str "alice" ∧ m.chatId = [] := by
  have hcall : ∃ x ∈ (Env.reference.run Env.names Env.noFiles greeting).hist.2, x.inst = 4 ∧
      callOf x.act = some ⟨0, .sendMessage (str "bob") (str "hi")⟩ := by decide +kernel
  have hcopy : ∃ m ∈ copiesOf 4 (Env.reference.run Env.names Env.noFiles greeting).hist,
      m ∈ (Env.reference.run Env.names Env.noFiles greeting).hist.1.server.getConversation
          (str "alice") (str "bob") ∧
        m.receiver = str "bob" ∧ m.status = .delivered ∧ m.sender = str "alice" ∧
        m.chatId = [] := by decide +kernel
  obtain ⟨m, hm, hconv, hrest⟩ := hcopy
  exact ⟨m, ⟨calledAt_of_callOf hcall, mem_copiesOf.mp hm⟩, Or.inl ⟨_, _, hconv⟩, hrest⟩

/-- Bob, logged in, reads what Alice sent. -/
theorem stored_readable_greeting : ∃ m view,
    decryptToView .reference ((Env.reference.run Env.names Env.noFiles greeting).hist.1.clients 1) 0 m
        = .ok view ∧ view.text = str "hi" := by
  obtain ⟨m, hby, hm, hreceiver, -⟩ := greeting_storedBy
  have hlog : ((Env.reference.run Env.names Env.noFiles greeting).hist.1.clients 1).loggedIn = true := by
    decide +kernel
  have hname : ((Env.reference.run Env.names Env.noFiles greeting).hist.1.clients 1).username
      = str "bob" := by decide +kernel
  obtain ⟨text, htext, hread⟩ := (stored_readable 3 OpenSSL.reference_inverts Env.names
    Env.noFiles greeting Env.reference_filesWork hm).2 4 _ hby
  obtain rfl : str "hi" = text := Option.some.inj htext
  exact ⟨m, hread (by decide) 1 hlog (Or.inl (hname.trans hreceiver.symm)) 0⟩

/-! ### Notices -/

/-- The history a notice is about, as its receiver finds it. -/
def ChatServer.historyOf (s : ChatServer) (names : ClientId → Str) (n : Notice) : List Message :=
  if n.event.isGroupMessage then s.getGroupConversation n.event.chatId
  else s.getConversation n.event.fromUser (names n.receiver)

/-- **A notified message is in no history yet**, neither at the moment observers
are notified of it nor in any later state before they have returned. -/
theorem notified_before_stored (hdoc : env.ssl.base64.Documented) (names : ClientId → Str)
    (disk : Str → Option Str) (ms : List (Move Exn Call))
    (hf : env.FreshIds (env.run names disk ms).hist.1.draws) :
    (∀ x ∈ (env.run names disk ms).hist.2, ∀ n, x.act = .notified n →
      ∀ m, x.before.server.Stored m → m.messageId ≠ n.event.messageId) ∧
    ∀ f ∈ (env.run names disk ms).stack, ∀ m,
      (env.run names disk ms).hist.1.server.Stored m →
        m.messageId ≠ f.notice.event.messageId := by
  have hsuspended : ∀ ms, env.FreshIds (env.run names disk ms).hist.1.draws →
      ∀ f ∈ (env.run names disk ms).stack, ∀ m,
        (env.run names disk ms).hist.1.server.Stored m →
          m.messageId ≠ f.notice.event.messageId := by
    intro ms hf f hfm m hm heq
    have hs := sends_run env names disk ms
    obtain ⟨b, hhead⟩ := newest_of_suspended env.system (World.initial names disk) ms hfm
    -- the notice is the caller's own, so the message would be a copy of the caller
    have hmem : f.notice ∈ noticesBy f.inst (env.run names disk ms).hist :=
      List.mem_filterMap.mpr ⟨_, List.mem_of_head? hhead, rfl⟩
    obtain ⟨k, hown, hid⟩ := hs.notices hdoc f.inst f.notice hmem
    obtain ⟨i, q, -, hi⟩ := hs.storedBy hm
    rw [← mem_copiesOf] at hi
    rw [hid] at heq
    obtain rfl : i = f.inst := hs.inst_eq hf hi hown heq
    exact hs.pending hdoc hf f.inst f.notice b hhead m hi (heq.trans hid.symm)
  refine ⟨fun x hx n hn m hm => ?_, hsuspended ms hf⟩
  obtain ⟨ms', hstate, f, hfm, -, hnotice⟩ :=
    suspended_of_notified env.system (World.initial names disk) ms hn hx
  have hf' := hf.mono (draws_before_le env names disk ms hx)
  rw [← hstate] at hm hf'
  rw [← hnotice]
  exact hsuspended ms' hf' f hfm m hm

/-- While Bob's observers run, the message they are told of is not stored. -/
theorem notified_before_stored_greeting :
    ∃ f ∈ (Env.reference.run Env.names Env.noFiles (greeting.take 5)).stack, ∀ m,
      (Env.reference.run Env.names Env.noFiles (greeting.take 5)).hist.1.server.Stored m →
        m.messageId ≠ f.notice.event.messageId := by
  have hlen : (Env.reference.run Env.names Env.noFiles (greeting.take 5)).stack.length = 1 := by
    decide +kernel
  obtain ⟨f, hstack⟩ := List.length_eq_one_iff.mp hlen
  have hf : f ∈ (Env.reference.run Env.names Env.noFiles (greeting.take 5)).stack := by
    rw [hstack]
    exact List.mem_singleton.mpr rfl
  exact ⟨f, hf, (notified_before_stored EvpBase64.reference_documented Env.names Env.noFiles
    (greeting.take 5) Env.reference_freshIds).2 f hf⟩

/-- The message Bob is notified of is not in his conversation with Alice. -/
theorem notice_without_history : ¬ ∀ ms,
    ∀ f ∈ (Env.reference.run Env.names Env.noFiles ms).stack,
      ∃ m ∈ (Env.reference.run Env.names Env.noFiles ms).hist.1.server.historyOf Env.names f.notice,
        m.messageId = f.notice.event.messageId := by
  intro h
  exact absurd (h (greeting.take 5)) (by decide +kernel)

/-! ### The status -/

/-- The receiver's observers have been notified exactly once with the id of `m`,
and of the given text. -/
def Told (names : ClientId → Str) (h : History) (m : Message) (text : Str) : Prop :=
  ∃ n, (noticesOf h).filter (fun n => n.event.messageId = m.messageId) = [n] ∧
    names n.receiver = m.receiver ∧ n.event.text = text

/-- Message ids hold no bar. -/
theorem bar_notMem_messageId (env : Env) (k : Nat) : bar ∉ env.messageId k := by
  intro hmem
  rcases mem_generateId hmem with h | h | h
  · exact absurd h (by decide)
  · exact absurd h (by decide)
  · exact absurd h (by decide)

/-- Notices with the id of a copy of call `i` were given by call `i`. -/
theorem Sends.noticesOf_eq (hs : Sends env names h) (hdoc : env.ssl.base64.Documented)
    (hf : env.FreshIds h.1.draws) (hcopy : Copy env names h i m text) :
    (noticesOf h).filter (fun n => n.event.messageId = m.messageId)
      = (noticesBy i h).filter fun n => n.event.messageId = m.messageId := by
  obtain ⟨⟨k, hown, hid⟩, -, -⟩ := hcopy
  refine filter_noticesOf fun j n hn heq => ?_
  obtain ⟨k', hown', hid'⟩ := hs.notices hdoc j n hn
  rw [decide_eq_true_eq, hid, hid'] at heq
  obtain rfl := hf k' (hs.drawn j k' hown') k (hs.drawn i k hown) heq
  exact hs.owner j i k' hown' hown

/-- **When the status delivered is true**: a message stored with it has reached
its receiver's observers, exactly once and with its text, if and only if no bar
is in the names of sender, receiver and chat and the text is not too long for
the wire. -/
theorem delivered_told_iff (hdoc : env.ssl.base64.Documented)
    (hinv : env.ssl.Inverts (maxText + 1)) (hsized : env.ssl.Sized) (names : ClientId → Str)
    (disk : Str → Option Str) (ms : List (Move Exn Call))
    (hfw : env.FilesWork (env.run names disk ms).hist.1.server.recorded)
    (hf : env.FreshIds (env.run names disk ms).hist.1.draws) {q : Call}
    (hq : StoredBy (env.run names disk ms).hist i q m) (htext : q.op.plaintext = some text)
    (hst : m.status = .delivered) :
    Told names (env.run names disk ms).hist m text ↔
      bar ∉ m.sender ∧ bar ∉ m.receiver ∧ bar ∉ m.chatId ∧ text.length ≤ maxText := by
  have hs := sends_run env names disk ms
  obtain ⟨text', htext', hcopy, hann⟩ := hs.copyOf hq
  obtain rfl : text = text' := Option.some.inj (htext.symm.trans htext')
  have hfilter := hs.noticesOf_eq hdoc hf hcopy
  constructor
  · -- a notice that was given is of a message the wire could carry
    rintro ⟨n, hn, -, hntext⟩
    have hmem : n ∈ (noticesBy i (env.run names disk ms).hist).filter
        fun n => n.event.messageId = m.messageId := by
      rw [← hfilter, hn]
      exact List.mem_singleton.mpr rfl
    obtain ⟨hown, hid⟩ := List.mem_filter.mp hmem
    have hbar : NoBar m := by
      by_contra hbar
      exact (hann hdoc hf).nothing hbar n hown (of_decide_eq_true hid)
    refine ⟨hbar.2.1, hbar.2.2.1, hbar.2.2.2, ?_⟩
    rw [← hntext]
    exact hs.texts hdoc hsized i n hown
  · -- the id holds no bar either, so the wire was read
    rintro ⟨hsender, hreceiver, hchat, hlen⟩
    obtain ⟨k, -, hid⟩ := hcopy.id
    have hbar : NoBar m := by
      refine ⟨?_, hsender, hreceiver, hchat⟩
      rw [hid]
      exact bar_notMem_messageId env k
    obtain ⟨n, hn, hname, hevent⟩ := (hann hdoc hf).once hfw hinv hsized hst hbar hlen
    refine ⟨n, hfilter.trans hn, hname, ?_⟩
    rw [hevent]

theorem delivered_told_greeting :
    ∃ m, Told Env.names (Env.reference.run Env.names Env.noFiles greeting).hist m (str "hi") := by
  obtain ⟨m, hby, -, hreceiver, hst, hsender, hchat⟩ := greeting_storedBy
  refine ⟨m, (delivered_told_iff EvpBase64.reference_documented OpenSSL.reference_inverts
    OpenSSL.reference_sized Env.names Env.noFiles greeting Env.reference_filesWork
    Env.reference_freshIds hby rfl hst).mpr ⟨?_, ?_, ?_, ?_⟩⟩
  · rw [hsender]
    decide
  · rw [hreceiver]
    decide
  · rw [hchat]
    decide
  · decide

/-- A user with a bar in the name registers and sends to Bob. -/
def barred : List (Move Exn Call) :=
  [.call ⟨3, .registerOnServer (str "pw")⟩, .call ⟨1, .registerOnServer (str "pw")⟩,
    .call ⟨3, .login (str "pw")⟩, .call ⟨1, .login (str "pw")⟩,
    .call ⟨3, .sendMessage (str "bob") (str "hi")⟩]

/-- The message is delivered by its status, but Bob has not been told. -/
theorem delivered_untold : ¬ ∀ ms i q m text,
    StoredBy (Env.reference.run Env.names Env.noFiles ms).hist i q m →
    q.op.plaintext = some text → m.status = .delivered →
      Told Env.names (Env.reference.run Env.names Env.noFiles ms).hist m text := by
  intro h
  have hcall : ∃ x ∈ (Env.reference.run Env.names Env.noFiles barred).hist.2, x.inst = 4 ∧
      callOf x.act = some ⟨3, .sendMessage (str "bob") (str "hi")⟩ := by decide +kernel
  have hcopy : ∃ m ∈ copiesOf 4 (Env.reference.run Env.names Env.noFiles barred).hist,
      m.status = .delivered := by decide +kernel
  have hnone : noticesOf (Env.reference.run Env.names Env.noFiles barred).hist = [] := by
    decide +kernel
  obtain ⟨m, hm, hst⟩ := hcopy
  obtain ⟨n, hn, -⟩ := h barred 4 _ m _ ⟨calledAt_of_callOf hcall, mem_copiesOf.mp hm⟩ rfl hst
  rw [hnone] at hn
  cases hn

end Evlampy
