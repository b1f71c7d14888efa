/-
Evlampy/Reading.lean

Reading a history with messages that cannot be read.  `handleIncoming` drops such
a message and goes on; the loops of `getConversation` and `getGroupConversation`
let its exception through, and the messages that can be read are lost with it.
The views are returned exactly if every message can be decrypted
(`conversations_shown_iff`).
-/
import Evlampy.Guards

namespace Evlampy

open Cxx Callback System ChatServer ChatClient AES256GCMStrategy OpenSSLKeyFactory

variable {env : Env} {cfg : Configuration} {c : ClientId} {self : ChatClient} {n : Nat}
  {m : Message} {messages : List Message}

/-! ### What can be read -/

/-- What a message says to the holder of a client's private key: the key opens the session key
meant for the client, and this opens the payload. -/
def textOf (env : Env) (self : ChatClient) (n : Nat) (m : Message) : Option Str :=
  match decryptWithPrivateKey env.ssl n self.keyPair.privateKeyPem (keyToUse self m) with
  | .error _ => none
  | .ok sessionKey => (decrypt env.ssl n m.encryptedPayload sessionKey).toOption

/-- The views of the messages that the private key of `self` opens, one after the other from
the `n`-th draw on. -/
def readableViews (env : Env) (self : ChatClient) : Nat → List Message → List MessageView
  | _, [] => []
  | n, m :: messages =>
      match textOf env self n m with
      | none => readableViews env self (n + 1) messages
      | some text => m.view text :: readableViews env self (n + 1) messages

/-- The private key of `self` opens every message. -/
def AllReadable (env : Env) (self : ChatClient) (n : Nat) (messages : List Message) : Prop :=
  ∀ k m, messages[k]? = some m → ∃ text, textOf env self (n + k) m = some text

theorem textOf_eq_some {text : Str} : textOf env self n m = some text ↔ ∃ sessionKey,
    decryptWithPrivateKey env.ssl n self.keyPair.privateKeyPem (keyToUse self m) = .ok sessionKey ∧
      decrypt env.ssl n m.encryptedPayload sessionKey = .ok text := by
  unfold textOf
  rcases hkey : decryptWithPrivateKey env.ssl n self.keyPair.privateKeyPem (keyToUse self m)
    with x | sessionKey
  · simp
  · rcases hdec : decrypt env.ssl n m.encryptedPayload sessionKey with x | out
    · simp [hdec, Except.toOption]
    · simp [hdec, Except.toOption]

/-- `decryptToView` opens what the private key opens, and shows what it says. -/
theorem decryptToView_eq_ok_iff {view : MessageView} : decryptToView env self n m = .ok view ↔
    ∃ text, textOf env self n m = some text ∧ view = m.view text := by
  constructor
  · intro h
    obtain ⟨sessionKey, hkey, h⟩ := bind_eq_ok.mp h
    obtain ⟨text, hdec, h⟩ := bind_eq_ok.mp h
    cases h
    exact ⟨text, textOf_eq_some.mpr ⟨sessionKey, hkey, hdec⟩, rfl⟩
  · rintro ⟨text, htext, rfl⟩
    obtain ⟨sessionKey, hkey, hdec⟩ := textOf_eq_some.mp htext
    exact decryptToView_eq_ok hkey hdec

/-- Where the loop gets through, it shows what can be read. -/
theorem readableViews_of_readAll {views : List MessageView}
    (h : readAll env self n messages = .ok views) : readableViews env self n messages = views := by
  induction messages generalizing n views with
  | nil =>
      cases h
      rfl
  | cons message messages ih =>
      rw [readAll] at h
      rcases hview : decryptToView env self n message with x | view
      · simp only [hview] at h
        cases h
      · rcases hrest : readAll env self (n + 1) messages with x | rest
        · simp only [hview, hrest] at h
          cases h
        · simp only [hview, hrest] at h
          cases h
          obtain ⟨text, htext, rfl⟩ := decryptToView_eq_ok_iff.mp hview
          rw [readableViews, htext]
          exact congrArg (message.view text :: ·) (ih hrest)

/-- Where the loop gets through, every message can be read. -/
theorem allReadable_of_readAll {views : List MessageView}
    (h : readAll env self n messages = .ok views) : AllReadable env self n messages := by
  intro k m hm
  obtain ⟨view, hview⟩ := (readAll_eq_ok h).2 k m hm
  obtain ⟨text, htext, -⟩ := decryptToView_eq_ok_iff.mp hview
  exact ⟨text, htext⟩

/-- And where it does not, some message cannot. -/
theorem not_allReadable_of_readAll {x : Exn} (h : readAll env self n messages = .error x) :
    ¬ AllReadable env self n messages := by
  intro hall
  obtain ⟨k, m, hm, hfail⟩ := readAll_eq_error h
  obtain ⟨text, htext⟩ := hall k m hm
  exact hfail _ (decryptToView_eq_ok_iff.mpr ⟨text, htext, rfl⟩)

/-- The call has returned, and shows every message that can be read, in order, with what it
says. -/
def ShowsReadable (env : Env) (self : ChatClient) (n : Nat) (messages : List Message)
    (cfg' : Configuration) : Prop :=
  ∃ views, resultOf cfg'.hist = some (.views views) ∧
    (readableViews env self n messages).Sublist views

/-- Calls that end in reading. -/
theorem showsReadable_iff_of_viewsOf {op : Op} {h : History}
    (hstep : (env.system.step cfg (.call ⟨c, op⟩)).hist = (env.system.advance cfg.next cfg.stack
      (viewsOf env self messages [] >>= fun v => pure (.views v)) h).1)
    (hdraws : h.1.draws = cfg.hist.1.draws) :
    ShowsReadable env self cfg.hist.1.draws messages (env.system.step cfg (.call ⟨c, op⟩)) ↔
      AllReadable env self cfg.hist.1.draws messages := by
  have hwp : env.system.wp (fun _ => True) (fun _ => False) cfg.next
      (viewsOf env self messages [] >>= fun v => pure (Value.views v))
      (fun r _ => r = (readAll env self h.1.draws messages).map .views) h := by
    refine wp_bind_pure.mpr (wp_mono (fun r h' hr => ?_) (wp_viewsOf messages []))
    rw [hr.2]
    rcases readAll env self h.1.draws messages with x | views <;> rfl
  obtain ⟨r, h', hr, hadvance⟩ := advance_of_wp hwp cfg.stack
  rw [hadvance] at hstep
  rw [ShowsReadable, hstep]
  rw [hdraws] at hr
  rcases hread : readAll env self cfg.hist.1.draws messages with x | views
  · rw [hread] at hr
    subst hr
    refine iff_of_false ?_ (not_allReadable_of_readAll hread)
    rintro ⟨views, hviews, -⟩
    cases hviews
  · rw [hread] at hr
    subst hr
    refine iff_of_true ⟨views, rfl, ?_⟩ (allReadable_of_readAll hread)
    rw [readableViews_of_readAll hread]

/-! ### Both histories -/

/-- **One message that cannot be read hides a conversation.**  In whatever state,
`getConversation` returns a view with the right text for every message that the
client's private key opens if and only if it opens every message of the
conversation, and `getGroupConversation` if and only if it opens every message
for the client. -/
theorem conversations_shown_iff (env : Env) (cfg : Configuration) (c : ClientId)
    (peer groupId : Str) :
    (ShowsReadable env (cfg.hist.1.clients c) cfg.hist.1.draws
        (cfg.hist.1.server.getConversation (cfg.hist.1.clients c).username peer)
        (env.system.step cfg (.call ⟨c, .getConversation peer⟩)) ↔
      AllReadable env (cfg.hist.1.clients c) cfg.hist.1.draws
        (cfg.hist.1.server.getConversation (cfg.hist.1.clients c).username peer)) ∧
    (ShowsReadable env (cfg.hist.1.clients c) cfg.hist.1.draws
        ((cfg.hist.1.server.getGroupConversation groupId).filter
          fun m => m.receiver = (cfg.hist.1.clients c).username)
        (env.system.step cfg (.call ⟨c, .getGroupConversation groupId⟩)) ↔
      AllReadable env (cfg.hist.1.clients c) cfg.hist.1.draws
        ((cfg.hist.1.server.getGroupConversation groupId).filter
          fun m => m.receiver = (cfg.hist.1.clients c).username)) := by
  constructor
  · exact showsReadable_iff_of_viewsOf rfl rfl
  · exact showsReadable_iff_of_viewsOf rfl rfl

/-- A message from Alice to Bob that is empty throughout. -/
def blankMessage : Message :=
  .build (str "id") 0 (str "alice") (str "bob") [] [] [] [] false

/-- Alice has greeted Bob, and the empty message was stored after that. -/
def afterBlank : Configuration :=
  let cfg := Env.reference.run Env.names Env.noFiles greeting
  { cfg with hist := ({ cfg.hist.1 with server := cfg.hist.1.server.storeMessage blankMessage },
      cfg.hist.2) }

/-- Bob is shown nothing, although he can read the greeting. -/
theorem conversation_hidden : ¬ ∀ cfg c peer,
    ShowsReadable Env.reference (cfg.hist.1.clients c) cfg.hist.1.draws
      (cfg.hist.1.server.getConversation (cfg.hist.1.clients c).username peer)
      (Env.reference.system.step cfg (.call ⟨c, .getConversation peer⟩)) := by
  intro h
  obtain ⟨views, hviews, -⟩ := h afterBlank 1 (str "alice")
  have hnone : (resultOf (Env.reference.system.step afterBlank
      (.call ⟨1, .getConversation (str "alice")⟩)).hist).isSome = false := by decide +kernel
  rw [hviews] at hnone
  cases hnone

/-- The greeting is there to be read. -/
example : (readableViews Env.reference (afterBlank.hist.1.clients 1) afterBlank.hist.1.draws
    (afterBlank.hist.1.server.getConversation (str "bob") (str "alice"))).map MessageView.text
      = [str "hi"] := by decide +kernel

end Evlampy
