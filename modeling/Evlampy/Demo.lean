/-
Evlampy/Demo.lean

The program of `chat/main.cpp`, from its arguments to its exit code and to what it has
printed.  Two clients register and log in, the first sends one message through
`SendMessageCommand`, and the second reads it; both have an observer on the console.

`Main` is code of `main`: it calls the clients, which run for the console as their
listener, and it prints.  `holds` is its weakest precondition.

The lines of the logger, which stand between the others, are left out.
-/
import Evlampy.Arguments
import Evlampy.Refresh
import Evlampy.Echoes
import Evlampy.Registration
import Evlampy.Interleavings
import Evlampy.Exceptions
import Evlampy.Delivery
import Evlampy.Symbols

namespace Evlampy

open Cxx Callback Prog System ChatServer ChatClient MessageProtocol
open AES256GCMStrategy OpenSSLKeyFactory

/-! ### Commands -/

/-- A command that sends a message. -/
structure SendMessageCommand where
  client : ClientId
  toUser : Str
  text : Str

namespace Demo

/-! ### The program -/

/-- The client of the first name. -/
def alice : ClientId := 0

/-- The client of the second name, which may be the same. -/
def bob : ClientId := 1

variable (env : Env) (config : DemoConfig)

/-- The names of the clients. -/
def names (c : ClientId) : Str := if c = alice then config.aliceName else config.bobName

/-- The line `ConsoleMessageObserver::onNotify` prints. -/
def notice (owner : Str) (event : DecryptedMessageEvent) : Str :=
  str "[" ++ owner ++ str "] new message from " ++ event.fromUser ++ str ": " ++ event.text ++
    str "\n"

/-- Either client has an observer. -/
def react (n : Notice) (_ : World) (console : Console) : Console :=
  if n.receiver = alice then console.print (notice config.aliceName n.event)
  else if n.receiver = bob then console.print (notice config.bobName n.event)
  else console

/-- Code of `main`, which acts on the clients and the server, and on the console. -/
abbrev Main (α : Type) := ExceptT Exn (StateM (Configuration × Console)) α

/-- Write to the console. -/
def write (f : Console → Console) : Main Unit :=
  ExceptT.mk fun s => (.ok (), s.1, f s.2)

/-- Call a function of a client; its observers print. -/
def call (c : ClientId) (op : Op) : Main Value :=
  ExceptT.mk fun s => env.system.callFor (react config) ⟨c, op⟩ s

/-- Call a function that returns a `bool`. -/
def test (c : ClientId) (op : Op) : Main Bool := do
  let v ← call env config c op
  return v.isTrue

/-- `first && second`. -/
def both (first second : Main Bool) : Main Bool := do
  if ← first then second else return false

/-- `SendMessageCommand::execute`. -/
def execute (command : SendMessageCommand) : Main Bool :=
  test env config command.client (.sendMessage command.toUser command.text)

/-- Give the reason, and end with the exit code 1. -/
def fail (text : String) : Main Int := do
  write (·.printError (str text ++ str "\n"))
  return 1

/-- The line over the conversation. -/
def heading : Str :=
  config.bobName ++ str " conversation with " ++ config.aliceName ++ str ":\n"

/-- The loop over the conversation. -/
def printAll (views : List MessageView) (console : Console) : Console :=
  views.foldl (fun console message => console.print (str "- " ++ message.text ++ str "\n")) console

/-- The end of the body of `main`: the second user reads, and both log out. -/
def showConversation : Main Int := do
  write (·.print (heading config))
  let conversation ← call env config bob (.getConversation config.aliceName)
  write (printAll conversation.messages)
  let _ ← call env config alice .logout
  let _ ← call env config bob .logout
  return 0

/-- The body of `main`, after the arguments have been parsed. -/
def session : Main Int := do
  if ← both (test env config alice (.registerOnServer config.alicePassword))
      (test env config bob (.registerOnServer config.bobPassword)) then
    if ← both (test env config alice (.login config.alicePassword))
        (test env config bob (.login config.bobPassword)) then
      let send : SendMessageCommand := ⟨alice, config.bobName, config.message⟩
      if ← execute env config send then showConversation env config
      else fail "Send failed"
    else fail "Login failed"
  else fail "Registration failed"

/-- The handler of `main`.  What it does not catch ends the program without an exit code of
its own. -/
def handle (x : Exn) (console : Console) : Option Int × Console :=
  match x with
  | .std e => (some 2, console.printError (str "Fatal error: " ++ str e.what ++ str "\n"))
  | _ => (none, console)

/-- A new server and two clients, on a machine with the given files. -/
def start (disk : Str → Option Str) (console : Console) : Configuration × Console :=
  (env.run (names config) disk [], console)

/-- The exit code of the program, and what it has printed. -/
def main (disk : Str → Option Str) (args : List Str) : Option Int × Console :=
  match parseArguments args ⟨[], []⟩ with
  | (.error (.exit code), console) => (some code, console)
  | (.error (.threw x), console) => handle x console
  | (.ok config, console) =>
      match (session env config).run (start env config disk console) with
      | (.ok code, s) => (some code, s.2)
      | (.error x, s) => handle x s.2

/-! ### Weakest preconditions -/

variable {env config} {α β : Type} {s : Configuration × Console}

/-- The weakest precondition of code of `main`. -/
def holds (p : Main α) (post : Except Exn α → Configuration × Console → Prop)
    (s : Configuration × Console) : Prop :=
  post (p.run s).1 (p.run s).2

theorem holds_mono {p : Main α} {post post' : Except Exn α → Configuration × Console → Prop}
    (hpost : ∀ r s, post r s → post' r s) (hp : holds p post s) : holds p post' s :=
  hpost _ _ hp

theorem holds_and {p : Main α} {post post' : Except Exn α → Configuration × Console → Prop}
    (hp : holds p post s) (hp' : holds p post' s) : holds p (fun r s => post r s ∧ post' r s) s :=
  ⟨hp, hp'⟩

theorem holds_bind {p : Main α} {f : α → Main β}
    {post : Except Exn β → Configuration × Console → Prop} :
    holds (p >>= f) post s ↔ holds p (fun r s => match r with
      | .ok a => holds (f a) post s
      | .error x => post (.error x) s) s := by
  show post (ExceptT.bindCont f (p s).1 (p s).2).1 (ExceptT.bindCont f (p s).1 (p s).2).2
    ↔ holds p _ s
  unfold holds
  show _ ↔ (match (p s).1 with
      | .ok a => holds (f a) post (p s).2
      | .error x => post (.error x) (p s).2)
  rcases (p s).1 with x | a
  · exact Iff.rfl
  · exact Iff.rfl

/-- Printing, and then the rest. -/
theorem holds_write {f : Console → Console} {g : Main β}
    {post : Except Exn β → Configuration × Console → Prop} (hg : holds g post (s.1, f s.2)) :
    holds (write f >>= fun _ => g) post s :=
  holds_bind.mpr hg

/-- A call, and what is known of the world and of the console after it. -/
theorem holds_call {disk : Str → Option Str} {ms : List (Move Exn Call)}
    (hs : s.1 = env.run (names config) disk ms) {c : ClientId} {op : Op}
    {I : Except Exn Value → World → Console → Prop}
    {post : Except Exn Value → Configuration × Console → Prop}
    (hp : env.system.attended (react config) s.1.next (Call.body env ⟨c, op⟩)
      (fun r h console => I r h.1 console)
      (env.system.push s.1.hist s.1.next (.called ⟨c, op⟩)) s.2)
    (hpost : ∀ r ms' (s' : Configuration × Console),
      s'.1 = env.run (names config) disk (ms ++ ms') → I r s'.1.hist.1 s'.2 → post r s') :
    holds (call env config c op) post s := by
  obtain ⟨ms', hms'⟩ := exists_run_callFor (react config) (⟨c, op⟩ : Call) hs
  obtain ⟨h', hI, hworld⟩ := callFor_spec hp
  rw [← hworld] at hI
  exact hpost _ ms' _ hms' hI

/-! ### What the clients throw -/

/-- A standard exception. -/
def IsStd (x : Exn) : Prop := ∃ e, x = .std e

theorem throws_of_throwsStd {x : Except Exn α} (hx : ThrowsStd x) :
    (Prog.ofExcept x : Code α).Throws IsStd :=
  throws_ofExcept hx

theorem throwsStd_generateRsaKeyPair (ssl : OpenSSL) (n : Nat) (bits : Int) :
    ThrowsStd (generateRsaKeyPair ssl n bits) := by
  unfold generateRsaKeyPair
  split
  · exact throwsStd_std _
  · split
    · exact throwsStd_std _
    · exact throwsStd_ok _

theorem throwsStd_hashPassword (env : Env) (n : Nat) (rawPassword : Str) :
    ThrowsStd (hashPassword env n rawPassword) := by
  unfold hashPassword
  split
  · exact throwsStd_std _
  · exact throwsStd_ok _

theorem throwsStd_composeMessage (env : Env) (self : ChatClient) (n : Nat)
    (toUser receiverPublicKey plaintext : Str) :
    ThrowsStd (composeMessage env self n toUser receiverPublicKey plaintext) := by
  have hrsa : ∀ n pem data, ThrowsStd (encryptWithPublicKey env.ssl n pem data) := by
    intro n pem data
    unfold encryptWithPublicKey
    split
    · exact throwsStd_std _
    · exact throwsStd_ok _
  have haes : ∀ n data key, ThrowsStd (encrypt env.ssl n data key) := by
    intro n data key
    unfold encrypt
    repeat' split
    all_goals first | exact throwsStd_std _ | exact throwsStd_ok _
  have hkey : ThrowsStd (generateSymmetricKey env.ssl n 32) := by
    unfold generateSymmetricKey
    split
    · exact throwsStd_std _
    · exact throwsStd_ok _
  exact hkey.bind fun _ => (haes _ _ _).bind fun _ => (hrsa _ _ _).bind fun _ =>
    (hrsa _ _ _).bind fun _ => throwsStd_ok _

theorem saveKeyPairToDisk_throws (c : ClientId) :
    (saveKeyPairToDisk env c).Throws IsStd := by
  unfold saveKeyPairToDisk
  split
  · trivial
  · intro created
    cases created with
    | false => trivial
    | true => exact fun _ _ _ => trivial

theorem loadKeyPairFromDisk_throws (c : ClientId) :
    (loadKeyPairFromDisk env c).Throws IsStd := by
  unfold loadKeyPairFromDisk
  split
  · trivial
  · intro self priv
    cases priv with
    | none => trivial
    | some privateKeyPem =>
        intro _ pub
        cases pub with
        | none => trivial
        | some publicKeyPem => exact fun _ => trivial

theorem connect_throws (c : ClientId) (username : Str) :
    (ChatClient.connect c username).Throws IsStd := by
  refine .act_bind fun self => ?_
  split
  · trivial
  · refine .act_bind fun ok => ?_
    cases ok with
    | false => trivial
    | true => exact fun _ => trivial

theorem registerOnServer_throws (c : ClientId) (rawPassword : Str) :
    (registerOnServer env c rawPassword).Throws IsStd := by
  refine .act_bind fun self => ?_
  split
  · trivial
  · refine .act_bind fun n =>
      (throws_of_throwsStd (throwsStd_generateRsaKeyPair _ _ _)).bind fun keyPair =>
      .act_bind fun _ => (throws_of_throwsStd (throwsStd_hashPassword _ _ _)).bind fun passwordHash =>
      .act_bind fun registered => .act_bind fun _ => ?_
    cases registered with
    | false => trivial
    | true => exact (saveKeyPairToDisk_throws c).bind fun _ => trivial

theorem login_throws (c : ClientId) (rawPassword : Str) :
    (login env c rawPassword).Throws IsStd := by
  refine .act_bind fun self => ?_
  split
  · trivial
  · refine .act_bind fun n =>
      (throws_of_throwsStd (throwsStd_hashPassword _ _ _)).bind fun passwordHash =>
      .act_bind fun authenticated => ?_
    cases authenticated with
    | false => trivial
    | true =>
        refine (loadKeyPairFromDisk_throws c).bind fun loaded => ?_
        cases loaded with
        | false => trivial
        | true =>
            refine (connect_throws c _).bind fun connected => .act_bind fun _ => ?_
            cases connected with
            | false => trivial
            | true => exact fun _ => trivial

/-! ### Before anything is sent -/

/-- The machine has come to a state of a run in which the histories are empty, and the
console is as given. -/
structure Stage (env : Env) (config : DemoConfig) (disk : Str → Option Str) (console : Console)
    (ms : List (Move Exn Call)) (s : Configuration × Console) : Prop where
  run : s.1 = env.run (names config) disk ms
  blank : Logged s.1.hist.1.server []
  console : s.2 = console

variable {disk : Str → Option Str} {console : Console} {ms : List (Move Exn Call)} {c : ClientId}
  {op : Op} {h : History} {i : Nat} {ω : Type} {react' : Notice → World → ω → ω} {x y : ω}

/-- The functions that let a client in. -/
inductive Admits : Op → Prop
  | registerOnServer (rawPassword : Str) : Admits (.registerOnServer rawPassword)
  | login (rawPassword : Str) : Admits (.login rawPassword)

theorem Admits.throws (hop : Admits op) (c : ClientId) :
    (Call.body env ⟨c, op⟩).Throws IsStd := by
  cases hop with
  | registerOnServer rawPassword => exact (registerOnServer_throws c rawPassword).bind fun _ => trivial
  | login rawPassword => exact (login_throws c rawPassword).bind fun _ => trivial

/-- What a function that lets a client in leaves as it was. -/
theorem Admits.exec (hop : Admits op) {e : Eff} (he : Footprint c op e) {w w' : World}
    (hw : Logged w.server [] ∧ ∀ d, d ≠ c → w.clients d = w'.clients d) :
    Logged (e.exec env w).2.server [] ∧ ∀ d, d ≠ c → (e.exec env w).2.clients d = w'.clients d := by
  refine ⟨?_, fun d hd => (exec_clients_of_footprint hd he).trans (hw.2 d hd)⟩
  have hnone : storedBy (.did e) = none ∧ erasedBy (.did e) = none := by
    cases e with
    | server q =>
        cases hop with
        | registerOnServer p =>
            cases q with
            | registerUser _ _ _ => exact ⟨rfl, rfl⟩
            | _ => exact he.elim
        | login p =>
            cases q with
            | authenticate _ _ => exact ⟨rfl, rfl⟩
            | _ => exact he.elim
    | _ => exact ⟨rfl, rfl⟩
  exact logged_after_of_none (a := .did e) hw.1 hnone.1 hnone.2

/-- Letting a client in.  The histories stay empty, the console and the other clients stay
as they are, and what is thrown is a standard exception. -/
theorem holds_enter (hop : Admits op) (hs : Stage env config disk console ms s)
    {I : Except Exn Value → World → Prop}
    (hI : env.system.wp (fun _ => True) (fun _ => False) s.1.next (Call.body env ⟨c, op⟩)
      (fun r h => I r h.1) (env.system.push s.1.hist s.1.next (.called ⟨c, op⟩))) :
    holds (test env config c op) (fun r s' => ∃ ms', Stage env config disk console (ms ++ ms') s' ∧
      (∀ d, d ≠ c → s'.1.hist.1.clients d = s.1.hist.1.clients d) ∧
      match r with
      | .ok b => ∃ v, I (.ok v) s'.1.hist.1 ∧ b = v.isTrue
      | .error x => IsStd x ∧ I (.error x) s'.1.hist.1) s := by
  have hquiet : ¬ op.Sends := by
    cases hop
    · exact id
    · exact id
  -- neither the histories nor other clients are touched, and nobody is notified
  have hkeeps : env.system.wp (fun _ => True) (fun _ => False) s.1.next (Call.body env ⟨c, op⟩)
      (fun _ h => Logged h.1.server [] ∧ ∀ d, d ≠ c → h.1.clients d = s.1.hist.1.clients d)
      (env.system.push s.1.hist s.1.next (.called ⟨c, op⟩)) :=
    wp_of_allActs (fun e h he hK => hop.exec he hK) (fun n h hn => absurd hn hquiet)
      (body_allActs env ⟨c, op⟩) ⟨hs.blank, fun d _ => rfl⟩
  refine holds_bind.mpr (holds_call hs.run
    (I := fun r w y => ((I r w ∧ y = s.2) ∧ (Logged w.server [] ∧
      ∀ d, d ≠ c → w.clients d = s.1.hist.1.clients d) ∧ y = s.2) ∧ ∀ x, r = .error x → IsStd x)
    (attended_and (attended_and (attended_of_wp hI) (attended_of_wp hkeeps))
      (attended_of_throws (hop.throws c))) ?_)
  rintro r ms' s' hrun ⟨⟨⟨hr, -⟩, ⟨hblank, hothers⟩, hconsole⟩, hstd⟩
  have hstage : Stage env config disk console (ms ++ ms') s' :=
    ⟨hrun, hblank, hconsole.trans hs.console⟩
  cases r with
  | error x => exact ⟨ms', hstage, hothers, hstd x rfl, hr⟩
  | ok v => exact ⟨ms', hstage, hothers, v, hr, rfl⟩

/-! ### The message -/

/-- What a client that is online makes of the wire of a message to it, whoever has sent it. -/
theorem eventsOf_wire {text : Str} {w : World} {m : Message} (ha : Assumed env text)
    (ho : Online env c w) {sessionKey : Bytes} (hm : Sealed env w.server m text sessionKey)
    (hreceiver : m.receiver = (w.clients c).username) {wire : Str}
    (hwire : serialize env.ssl.base64 m = .ok wire) (n : Nat) (fromUser : Str) :
    eventsOf fromUser (readIncoming env (w.clients c) n wire)
      = if NoBar m then [⟨fromUser, text, m.chatId, m.messageId, m.isGroupMessage⟩] else [] := by
  have hself := eventsOf_readIncoming ha ho hm hreceiver hwire n
  rw [ownEvents, hreceiver] at hself
  simp only [true_and] at hself
  rcases hread : readIncoming env (w.clients c) n wire with x | r
  · rw [hread] at hself
    split
    · next hbar =>
      rw [if_pos hbar] at hself
      cases hself
    · rfl
  · rw [hread] at hself
    split
    · next hbar =>
      rw [if_pos hbar] at hself
      simp only [eventsOf, List.cons.injEq, DecryptedMessageEvent.mk.injEq, true_and] at hself ⊢
      exact hself
    · next hbar =>
      rw [if_neg hbar] at hself
      cases hself

/-- What the send of a direct message comes to, for any listener: who is online under the
receiver's name hears of it before it is stored, and nobody else does. -/
structure SendsTo (env : Env) (react' : Notice → World → ω → ω) (c : ClientId) (toUser text : Str)
    (w : World) (x : ω) (r : Except Exn Bool) (w' : World) (y : ω) : Prop where
  std : ∀ e, r = .error e → IsStd e
  silent : r ≠ .ok true → y = x
  sent : r = .ok true → Alike w w' ∧ ∃ m status,
    Composed env w.server (w.clients c).username toUser [] false text m ∧
    w'.server = w.server.storeMessage { m with status := status } ∧
    ∀ d, w.server.transport.findHandler toUser = some d → Online env d w →
      Hears react' d w.clients
        (if NoBar m then [⟨(w.clients c).username, text, [], m.messageId, false⟩] else []) x y
  goes : ∀ pem, w.server.publicKeyOf toUser = some pem → pem ≠ [] →
    (∀ n, ∃ m, composeMessage env (w.clients c) n toUser pem text = .ok m) → r = .ok true

theorem attended_sendMessage_to {text : Str} (ha : Assumed env text) (ho : Online env c h.1)
    (toUser : Str) :
    env.system.attended react' i (sendMessage env c toUser text)
      (fun r h' y => SendsTo env react' c toUser text h.1 x r h'.1 y) h x := by
  refine attended_step fun self h1 hself hh1 => ?_
  obtain rfl : self = h.1.clients c := hself
  rw [if_pos ho.loggedIn]
  refine attended_step fun pem h2 hpem hh2 => ?_
  replace hpem : pem = h.1.server.getPublicKey toUser := by
    rw [hpem, hh1]
    rfl
  have hrecord : ∀ pem', h.1.server.publicKeyOf toUser = some pem' → pem = pem' := by
    intro pem' hpem'
    obtain ⟨record, hlookup, rfl⟩ := Option.map_eq_some_iff.mp hpem'
    rw [hpem, ChatServer.getPublicKey, hlookup]
  split
  · next hnil =>
    refine ⟨fun x hx => (by cases hx), fun _ => rfl, fun hr => (by cases hr), ?_⟩
    intro pem' hpem' hne _
    exact absurd ((hrecord pem' hpem').symm.trans hnil) hne
  · next hne =>
    refine attended_step fun n h3 _ hh3 => ?_
    have hl3 : Alike h.1 h3.1 ∧ h3.1.server = h.1.server := by
      rw [hh3, hh2, hh1]
      exact ⟨⟨rfl, rfl, rfl, rfl⟩, rfl⟩
    refine attended_ofExcept_bind (fun m hm => ?_) fun e he =>
      ⟨fun x hx => ?_, fun _ => rfl, fun hr => (by cases hr), fun pem' hpem' _ hok => ?_⟩
    · obtain ⟨-, hid, hsender, hreceiver, hchat, hdirect⟩ := composeMessage_eq_ok hm
      have hmade : Composed env h.1.server (h.1.clients c).username toUser [] false text m :=
        ⟨hsender, hreceiver, hchat, hdirect, ⟨_, hid⟩, sealed_of_composeMessage hm
          (publicKeyOf_of_getPublicKey hpem hne) fun _ => (ho.keys.inHand c ho.loggedIn).2.2⟩
      obtain ⟨sessionKey, hsealed⟩ := hmade.sealed
      -- what has been composed can be put on the wire
      have hwire := serialize_eq ha.base64 (hsealed.fits ho.files ha.sized ho.keys ha.fits)
      refine attended_bind.mpr (attended_ofExcept_bind (fun wire hw => ?_) fun e he => ?_)
      · refine attended_bind.mpr (attended_mono (fun r h4 y hr => ?_)
          (attended_send (ho.alike hl3.1) toUser wire))
        obtain ⟨⟨delivered, rfl⟩, halike, hserver, hheard⟩ := hr
        rw [hl3.1.clients, hl3.2] at hheard
        refine ⟨fun x hx => (by cases hx), fun hne => absurd rfl hne, fun _ =>
          ⟨(hl3.1.trans halike).trans ⟨rfl, rfl, storeMessage_users _ _, storeMessage_transport _ _⟩,
            m, if delivered then .delivered else .sent, hmade, ?_, fun d hd hod => ?_⟩,
          fun _ _ _ _ => rfl⟩
        · rw [← hl3.2, ← hserver]
          rfl
        · have hname := (ho.findHandler_eq hd).1
          rcases hheard with ⟨hoff, rfl⟩ | ⟨d', n, hd', hheard⟩
          · rw [hd] at hoff
            cases hoff
          · rw [hd] at hd'
            cases hd'
            rwa [eventsOf_wire ha hod hsealed (hreceiver.trans hname.symm) hw, hchat, hdirect]
              at hheard
      · rw [hwire] at he
        cases he
    · cases hx
      exact throwsStd_composeMessage _ _ _ _ _ _ e he
    · obtain ⟨m, hm⟩ := hok n
      rw [← hrecord pem' hpem', he] at hm
      cases hm

/-- Reading a conversation. -/
theorem attended_getConversation (peer : Str) :
    env.system.attended react' i (Call.body env ⟨c, .getConversation peer⟩)
      (fun r h' y => (∃ n, r = (readAll env (h.1.clients c) n
          (h.1.server.getConversation (h.1.clients c).username peer)).map .views) ∧
        h'.1.clients = h.1.clients ∧ y = x) h x := by
  refine attended_step fun self h1 hself hh1 =>
    attended_step fun messages h2 hmessages hh2 => ?_
  obtain rfl : self = h.1.clients c := hself
  obtain rfl : messages = h.1.server.getConversation (h.1.clients c).username peer := by
    rw [hmessages, hh1]
    rfl
  have h2world : h2.1 = h.1 := by
    rw [hh2, hh1]
    rfl
  refine attended_mono (fun r h' y hr => ?_) (attended_viewsOf _ _)
  exact ⟨⟨_, hr.1⟩, hr.2.2.1.trans (congrArg World.clients h2world), hr.2.2.2⟩

/-- The only message between two users is their conversation. -/
theorem getConversation_storeMessage {server : ChatServer} (hblank : Logged server []) {m : Message}
    (hdirect : m.isGroupMessage = false) :
    (server.storeMessage m).getConversation m.receiver m.sender = [m] := by
  have hlogged := (hblank.storeMessage m).direct (makeConversationKey m.receiver m.sender)
  rw [ChatServer.getConversation]
  refine hlogged.trans ?_
  have hkey : directKey m = some (makeConversationKey m.receiver m.sender) := by
    rw [directKey, hdirect, makeConversationKey_comm]
    rfl
  simp [hkey]

/-- Its receiver reads its text. -/
theorem readAll_composed {text u toUser : Str} {w : World} {m : Message} (ha : Assumed env text)
    (ho : Online env c w) (hm : Composed env w.server u toUser [] false text m)
    (hname : (w.clients c).username = toUser) (n : Nat) :
    ∃ view, readAll env (w.clients c) n [m] = .ok [view] ∧ view.text = text := by
  obtain ⟨sessionKey, hsealed⟩ := hm.sealed
  obtain ⟨hkey, hdec⟩ := hsealed.opens ho.files ha.inverts ho.keys ho.loggedIn
    (Or.inl (hname.trans hm.receiver.symm)) n
  obtain ⟨view, hview, htext⟩ : ∃ view, decryptToView env (w.clients c) n m = .ok view ∧
      view.text = text := ⟨_, decryptToView_eq_ok hkey (hdec (Nat.lt_succ_of_le ha.fits)), rfl⟩
  refine ⟨view, ?_, htext⟩
  rw [readAll, hview, readAll]
  rfl

/-! ### What the program prints -/

/-- What the console shows of the message while it is sent: nothing, if a name has a bar
in it. -/
def told (config : DemoConfig) : Str :=
  if bar ∉ config.aliceName ∧ bar ∉ config.bobName then
    str "[" ++ config.bobName ++ str "] new message from " ++ config.aliceName ++ str ": " ++
      config.message ++ str "\n"
  else []

/-- The lines of a run in which the message goes through. -/
def transcript (config : DemoConfig) : Str :=
  told config ++ heading config ++ (str "- " ++ config.message ++ str "\n")

/-- What the program gives as its reason if a call of a client returns false. -/
def reasons : List String := ["Registration failed", "Login failed", "Send failed"]

/-- How the body of `main` can end: the message has gone through, a call has returned false,
or a standard exception was thrown. -/
inductive Ends (config : DemoConfig) (console : Console) : Except Exn Int → Console → Prop
  | sent : Ends config console (.ok 0) (console.print (transcript config))
  | failed (reason : String) (mem : reason ∈ reasons) :
      Ends config console (.ok 1) (console.printError (str reason ++ str "\n"))
  | threw (e : StdException) : Ends config console (.error (.std e)) console

theorem ends_threw {x : Exn} (hx : IsStd x) {console' : Console} (hconsole : console' = console) :
    Ends config console (.error x) console' := by
  obtain ⟨e, rfl⟩ := hx
  subst hconsole
  exact .threw e

theorem holds_fail {reason : String} (hmem : reason ∈ reasons) (hconsole : s.2 = console) :
    holds (fail reason) (fun r s' => Ends config console r s'.2) s := by
  subst hconsole
  exact .failed reason hmem

theorem holds_both {p q : Main Bool} {post : Except Exn Bool → Configuration × Console → Prop} :
    holds (both p q) post s ↔ holds p (fun r s => match r with
      | .ok true => holds q post s
      | .ok false => post (.ok false) s
      | .error x => post (.error x) s) s := by
  refine holds_bind.trans ?_
  unfold holds
  rcases (p.run s).1 with x | b
  · exact Iff.rfl
  · cases b <;> exact Iff.rfl

/-- Letting both clients in.  If that has worked, what is known of the first client is known
of it still. -/
theorem holds_enter_both {op op' : Op} (hop : Admits op) (hop' : Admits op')
    (hs : Stage env config disk console ms s) {I : ClientId → ChatClient → Prop}
    (hI : ∀ s : Configuration × Console, env.system.wp (fun _ => True) (fun _ => False) s.1.next
      (Call.body env ⟨alice, op⟩) (fun r h => r = .ok (.bool true) → I alice (h.1.clients alice))
      (env.system.push s.1.hist s.1.next (.called ⟨alice, op⟩)))
    (hI' : ∀ s : Configuration × Console, env.system.wp (fun _ => True) (fun _ => False) s.1.next
      (Call.body env ⟨bob, op'⟩) (fun r h => r = .ok (.bool true) → I bob (h.1.clients bob))
      (env.system.push s.1.hist s.1.next (.called ⟨bob, op'⟩))) :
    holds (both (test env config alice op) (test env config bob op'))
      (fun r s' => ∃ ms', Stage env config disk console (ms ++ ms') s' ∧ match r with
        | .ok b => b = true → I alice (s'.1.hist.1.clients alice) ∧ I bob (s'.1.hist.1.clients bob)
        | .error x => IsStd x) s := by
  have htrue : ∀ v : Value, true = v.isTrue → v = .bool true := by
    intro v hv
    cases v <;> cases hv
    rfl
  refine holds_both.mpr (holds_mono (fun r s1 hr => ?_) (holds_enter hop hs
    (I := fun r w => r = .ok (.bool true) → I alice (w.clients alice)) (hI s)))
  obtain ⟨ms1, hs1, -, hr⟩ := hr
  rcases r with x | b
  · exact ⟨ms1, hs1, hr.1⟩
  cases b with
  | false => exact ⟨ms1, hs1, fun e => by cases e⟩
  | true =>
      obtain ⟨v, hv, hb⟩ := hr
      refine holds_mono (fun r' s2 hr' => ?_) (holds_enter hop' hs1
        (I := fun r w => r = .ok (.bool true) → I bob (w.clients bob)) (hI' s1))
      obtain ⟨ms2, hs2, hothers, hr'⟩ := hr'
      rw [List.append_assoc] at hs2
      refine ⟨_, hs2, ?_⟩
      rcases r' with x | b'
      · exact hr'.1
      · obtain ⟨v', hv', hb'⟩ := hr'
        rintro rfl
        rw [hothers alice (by decide)]
        exact ⟨hv (by rw [htrue v hb]), hv' (by rw [htrue v' hb'])⟩

/-- The users of the program. -/
def users (config : DemoConfig) : Set Str := {config.aliceName, config.bobName}

/-- Nobody else is on record. -/
theorem recorded_subset (env : Env) (config : DemoConfig) (disk : Str → Option Str)
    (ms : List (Move Exn Call)) :
    (env.run (names config) disk ms).hist.1.server.recorded ⊆ users config := by
  refine (recorded_subset_names env (names config) disk ms).trans ?_
  rintro u ⟨c, rfl⟩
  unfold names
  split
  · exact Or.inl rfl
  · exact Or.inr rfl

/-- The clients are online in a state of a run. -/
theorem online_run (hfw : env.FilesWork (users config))
    (hs : s.1 = env.run (names config) disk ms)
    (hlog : (s.1.hist.1.clients c).loggedIn = true) : Online env c s.1.hist.1 := by
  rw [hs] at hlog ⊢
  have hfiles := hfw.mono (recorded_subset env config disk ms)
  exact ⟨sessionInv_run env _ disk ms, hfiles, keyInv_run _ disk ms hfiles, hlog⟩

/-- Logging out prints nothing and does not throw. -/
theorem holds_logout (hs : s.1 = env.run (names config) disk ms) :
    holds (call env config c .logout) (fun r s' => (∃ v, r = .ok v) ∧ s'.2 = s.2 ∧
      ∃ ms', s'.1 = env.run (names config) disk ms') s := by
  have hthrows : (Call.body env ⟨c, .logout⟩).Throws (fun _ => False) := by
    refine Throws.bind (Throws.bind (.act_bind fun self => ?_) fun _ _ => trivial) fun _ => trivial
    split
    · exact fun _ _ => trivial
    · trivial
  refine holds_call hs (I := fun r w y => (True ∧ y = s.2) ∧ ∀ x, r = .error x → False)
    (attended_and (attended_of_wp (J := fun _ => True) (wp_of_allActs (K := fun _ => True)
      (fun _ _ _ _ => trivial) (fun _ _ hn => hn.elim) (body_allActs env ⟨c, .logout⟩) trivial))
      (attended_of_throws hthrows)) ?_
  rintro r ms' s' hrun ⟨⟨-, hconsole⟩, hr⟩
  refine ⟨?_, hconsole, _, hrun⟩
  cases r with
  | error x => exact (hr x rfl).elim
  | ok v => exact ⟨v, rfl⟩

/-- Printing the only message of a conversation. -/
theorem printAll_singleton (view : MessageView) (console : Console) :
    printAll [view] console = console.print (str "- " ++ view.text ++ str "\n") := rfl

theorem print_append (console : Console) (text text' : Str) :
    (console.print text).print text' = console.print (text ++ text') := by
  rw [Console.print, Console.print, Console.print, List.append_assoc]

theorem wp_quiet (hop : ¬ op.Sends) : env.system.wp (fun _ => True) (fun _ => False) i
    (Call.body env ⟨c, op⟩) (fun _ _ => True) h :=
  wp_of_allActs (K := fun _ => True) (fun _ _ _ _ => trivial) (fun _ _ hn => absurd hn hop)
    (body_allActs env ⟨c, op⟩) trivial

theorem alike_symm {w w' : World} (ha : Alike w w') : Alike w' w :=
  ⟨ha.clients.symm, ha.disk.symm, ha.users.symm, ha.transport.symm⟩

/-- Only the names of the two can bring a bar into a direct message. -/
theorem noBar_iff {server : ChatServer} {u toUser text : Str} {m : Message}
    (hm : Composed env server u toUser [] false text m) : NoBar m ↔ bar ∉ u ∧ bar ∉ toUser := by
  obtain ⟨k, hid⟩ := hm.id
  rw [NoBar, hid, hm.sender, hm.receiver, hm.chatId]
  constructor
  · exact fun h => ⟨h.2.1, h.2.2.1⟩
  · exact fun h => ⟨bar_notMem_messageId env k, h.1, h.2, List.not_mem_nil⟩

/-- What the observer of the second user prints of the message. -/
theorem hears_told {server : ChatServer} {m : Message} {clients : ClientId → ChatClient}
    {y y' : Console}
    (hm : Composed env server config.aliceName config.bobName [] false config.message m)
    (hheard : Hears (react config) bob clients
      (if NoBar m then [⟨config.aliceName, config.message, [], m.messageId, false⟩] else []) y y') :
    y' = y.print (told config) := by
  have hbars : NoBar m ↔ bar ∉ config.aliceName ∧ bar ∉ config.bobName := noBar_iff hm
  rw [told]
  split at hheard
  · next hbar =>
    rw [if_pos (hbars.mp hbar)]
    cases hheard with
    | cons w _ rest =>
        cases rest
        rfl
  · next hbar =>
    rw [if_neg fun h => hbar (hbars.mpr h)]
    cases hheard
    rw [Console.print, List.append_nil]

/-- The message goes through, or nothing is printed. -/
theorem holds_execute (hfw : env.FilesWork (users config)) (ha : Assumed env config.message)
    (hs : Stage env config disk console ms s)
    (hlog : (s.1.hist.1.clients alice).loggedIn = true)
    (hlog' : (s.1.hist.1.clients bob).loggedIn = true) :
    holds (execute env config ⟨alice, config.bobName, config.message⟩) (fun r s' =>
      (∃ ms', s'.1 = env.run (names config) disk ms') ∧ match r with
        | .error x => IsStd x ∧ s'.2 = console
        | .ok false => s'.2 = console
        | .ok true => s'.2 = console.print (told config) ∧
            (s'.1.hist.1.clients bob).loggedIn = true ∧ ∃ m,
              Composed env s'.1.hist.1.server config.aliceName config.bobName [] false
                config.message m ∧
              s'.1.hist.1.server.getConversation config.bobName config.aliceName = [m]) s := by
  have ho := online_run hfw hs.run hlog
  have ho' := online_run hfw hs.run hlog'
  have hname : ∀ c, (s.1.hist.1.clients c).username = names config c := by
    rw [hs.run]
    exact named_run env (names config) disk ms
  refine holds_bind.mpr (holds_call hs.run (I := fun r w' y => ∃ r' : Except Exn Bool,
      r = r'.map .bool ∧ SendsTo env (react config) alice config.bobName config.message
        s.1.hist.1 s.2 r' w' y)
    (attended_bind.mpr (attended_mono (fun r' h' y hr => ?_)
      (attended_sendMessage_to (h := env.system.push s.1.hist s.1.next
        (.called ⟨alice, .sendMessage config.bobName config.message⟩)) ha ho config.bobName))) ?_)
  -- whatever ends the call before the message is stored prints nothing
  · rcases r' with x | b
    · exact ⟨_, rfl, hr⟩
    · exact ⟨.ok b, rfl, hr⟩
  rintro r ms' s' hrun ⟨r', rfl, hsend⟩
  rcases r' with x | b
  · exact ⟨⟨_, hrun⟩, hsend.std x rfl, (hsend.silent fun e => by cases e).trans hs.console⟩
  cases b with
  | false => exact ⟨⟨_, hrun⟩, (hsend.silent fun e => by cases e).trans hs.console⟩
  | true =>
      obtain ⟨halike, m, status, hm, hserver, hheard⟩ := hsend.sent rfl
      rw [hname] at hm hheard
      refine ⟨⟨_, hrun⟩, ?_, ?_, { m with status := status }, ?_, ?_⟩
      · -- the receiver is the second client, which is online
        have hfound : s.1.hist.1.server.transport.findHandler config.bobName = some bob := by
          have hself := ho'.findHandler_self
          rwa [hname] at hself
        show s'.2 = _
        rw [← hs.console]
        exact hears_told hm (hheard bob hfound ho')
      · show (s'.1.hist.1.clients bob).loggedIn = true
        rw [halike.clients]
        exact hlog'
      · exact (hm.setStatus status).alike (alike_symm halike)
      · show s'.1.hist.1.server.getConversation config.bobName config.aliceName = _
        have hreceiver : m.receiver = config.bobName := hm.receiver
        have hsender : m.sender = config.aliceName := hm.sender
        rw [hserver, ← hreceiver, ← hsender]
        exact getConversation_storeMessage hs.blank (m := { m with status := status })
          hm.isGroupMessage

/-- The second user reads the message that has gone through. -/
theorem holds_showConversation (hfw : env.FilesWork (users config))
    (ha : Assumed env config.message)
    (hrun : s.1 = env.run (names config) disk ms) (hlog : (s.1.hist.1.clients bob).loggedIn = true)
    {m : Message} (hm : Composed env s.1.hist.1.server config.aliceName config.bobName [] false
      config.message m)
    (hconversation : s.1.hist.1.server.getConversation config.bobName config.aliceName = [m]) :
    holds (showConversation env config) (fun r s' => r = .ok 0 ∧
      s'.2 = s.2.print (heading config ++ (str "- " ++ config.message ++ str "\n"))) s := by
  -- the message is the conversation, and the second client reads it
  have hname : (s.1.hist.1.clients bob).username = config.bobName := by
    rw [hrun]
    exact named_run env (names config) disk ms bob
  have hread := fun n => readAll_composed ha (online_run hfw hrun hlog) hm hname n
  refine holds_write (holds_bind.mpr (holds_call
    (s := (s.1, s.2.print (heading config))) hrun
    (I := fun r _ y => (∃ view, r = .ok (.views [view]) ∧ view.text = config.message) ∧
      y = s.2.print (heading config))
    (attended_mono (fun r h y hr => ?_) (attended_getConversation _)) ?_))
  · obtain ⟨⟨n, rfl⟩, -, rfl⟩ := hr
    obtain ⟨view, hview, htext⟩ := hread n
    refine ⟨⟨view, ?_, htext⟩, rfl⟩
    show ((readAll env (s.1.hist.1.clients bob) n (s.1.hist.1.server.getConversation
      (s.1.hist.1.clients bob).username config.aliceName)).map Value.views) = _
    rw [hname, hconversation, hview]
    rfl
  rintro r ms4 s4 hrun4 ⟨⟨view, rfl, htext⟩, hconsole4⟩
  refine holds_write (holds_bind.mpr (holds_mono (fun r s5 hr => ?_)
    (holds_logout (s := (s4.1, _)) hrun4)))
  obtain ⟨⟨v, rfl⟩, hconsole5, ms5, hrun5⟩ := hr
  refine holds_bind.mpr (holds_mono (fun r s6 hr => ?_) (holds_logout hrun5))
  obtain ⟨⟨v', rfl⟩, hconsole6, -⟩ := hr
  refine ⟨rfl, ?_⟩
  show s6.2 = _
  rw [hconsole6, hconsole5]
  show printAll [view] s4.2 = _
  rw [printAll_singleton, hconsole4, htext, print_append]

theorem holds_session (hfw : env.FilesWork (users config)) (ha : Assumed env config.message) :
    holds (session env config) (fun r s' => Ends config console r s'.2)
      (start env config disk console) := by
  have hstart : Stage env config disk console [] (start env config disk console) :=
    ⟨rfl, logged_empty, rfl⟩
  -- nothing is needed of a registration but that it is quiet
  have hregister : ∀ c p (s : Configuration × Console), env.system.wp (fun _ => True)
      (fun _ => False) s.1.next (Call.body env ⟨c, .registerOnServer p⟩)
      (fun r _ => r = .ok (.bool true) → True)
      (env.system.push s.1.hist s.1.next (.called ⟨c, .registerOnServer p⟩)) := by
    intro c p s
    have hquiet : env.system.wp (fun _ => True) (fun _ => False) s.1.next
        (Call.body env ⟨c, .registerOnServer p⟩) (fun _ _ => True)
        (env.system.push s.1.hist s.1.next (.called ⟨c, .registerOnServer p⟩)) :=
      wp_quiet fun h => h
    refine wp_mono (fun r h _ => ?_) hquiet
    exact fun _ => trivial
  refine holds_bind.mpr (holds_mono (fun r s1 hr => ?_) (holds_enter_both (.registerOnServer _)
    (.registerOnServer _) hstart (I := fun _ _ => True) (hregister alice _) (hregister bob _)))
  obtain ⟨ms1, hs1, hr⟩ := hr
  rcases r with x | b
  · exact ends_threw hr hs1.console
  cases b with
  | false => exact holds_fail (by decide) hs1.console
  | true =>
  -- a login that has returned true leaves the client logged in
  have hlogin : ∀ c p (s : Configuration × Console), env.system.wp (fun _ => True)
      (fun _ => False) s.1.next (Call.body env ⟨c, .login p⟩)
      (fun r h => r = .ok (.bool true) → (h.1.clients c).loggedIn = true)
      (env.system.push s.1.hist s.1.next (.called ⟨c, .login p⟩)) := by
    refine fun c p s => wp_bind_pure.mpr (wp_mono (fun r h hr hv => ?_) (wp_login_answer p))
    rcases r with x | b
    · cases hv
    · cases hv
      exact hr true rfl
  refine holds_bind.mpr (holds_mono (fun r s2 hr => ?_) (holds_enter_both (.login _) (.login _) hs1
    (I := fun _ client => client.loggedIn = true) (hlogin alice _) (hlogin bob _)))
  obtain ⟨ms2, hs2, hr⟩ := hr
  rcases r with x | b
  · exact ends_threw hr hs2.console
  cases b with
  | false => exact holds_fail (by decide) hs2.console
  | true =>
  -- both are logged in
  obtain ⟨hlog, hlog'⟩ := hr rfl
  refine holds_bind.mpr (holds_mono (fun r s3 hr => ?_) (holds_execute hfw ha hs2 hlog hlog'))
  obtain ⟨⟨ms3, hrun3⟩, hr⟩ := hr
  rcases r with x | b
  · exact ends_threw hr.1 hr.2
  cases b with
  | false => exact holds_fail (by decide) hr
  | true =>
  -- the message is stored
  obtain ⟨hconsole, hlog3, m, hm, hconversation⟩ := hr
  refine holds_mono (fun r s4 hr => ?_) (holds_showConversation hfw ha hrun3 hlog3
    hm hconversation)
  obtain ⟨rfl, hprinted⟩ := hr
  rw [hprinted, hconsole, print_append, ← List.append_assoc]
  exact .sent

/-! ### The program -/

/-- The line about an exception. -/
def fatal (what : String) : Str := str "Fatal error: " ++ str what ++ str "\n"

/-- How a run of the program can end, with its exit code and with what it has printed, the
reports of its command line first. -/
inductive Printed (line : CommandLine) : Option Int × Console → Prop
  | help (long : Bool) (rest : List Str) (ending : line.ending = .help long rest) :
      Printed line (some 0, ⟨usage, line.reports⟩)
  | dangling (s : Setting) (ending : line.ending = .dangling s) :
      Printed line (some 2, ⟨[], line.reports ++ fatal (s.option ++ " requires a value")⟩)
  | sent (ending : line.ending = .complete) :
      Printed line (some 0, ⟨transcript line.config, line.reports⟩)
  | failed (reason : String) (ending : line.ending = .complete) (mem : reason ∈ reasons) :
      Printed line (some 1, ⟨[], line.reports ++ (str reason ++ str "\n")⟩)
  | threw (e : StdException) (ending : line.ending = .complete) :
      Printed line (some 2, ⟨[], line.reports ++ fatal e.what⟩)

/-- What is known of the body of `main` is known of the program. -/
theorem main_of_holds {disk : Str → Option Str} {line : CommandLine}
    (hcomplete : line.ending = .complete)
    {post : Except Exn Int → Configuration × Console → Prop}
    (hp : holds (session env line.config) post (start env line.config disk ⟨[], line.reports⟩)) :
    ∃ r s, post r s ∧ main env disk line.args
      = match r with
        | .ok code => (some code, s.2)
        | .error x => handle x s.2 := by
  have hparse := parseArguments_line line ⟨[], []⟩
  rw [hcomplete] at hparse
  refine ⟨_, _, hp, ?_⟩
  unfold main
  rw [hparse]
  show (match (session env line.config).run (start env line.config disk ⟨[], line.reports⟩) with
    | (.ok code, s) => (some code, s.2)
    | (.error x, s) => handle x s.2) = _
  rcases (session env line.config).run (start env line.config disk ⟨[], line.reports⟩)
    with ⟨_ | code, s⟩
  · rfl
  · rfl

/-- **What the program prints.**  Let file operations succeed (without a home directory there
are none), with different key files for different users, and let the library decrypt what it
has encrypted, within its documented sizes.  Key generation, random bytes, hashing and
encryption may fail.  Then the program ends with one of the exit codes 0, 1 and 2.  It prints
the message as it was typed, if the wire can carry it, in the order of the transcript, exactly
where it exits with 0 and was not asked for help; otherwise it gives one reason and prints
nothing else. -/
theorem main_prints (env : Env) (disk : Str → Option Str) (line : CommandLine)
    (hfw : env.FilesWork (users line.config)) (ha : Assumed env line.config.message) :
    Printed line (main env disk line.args) := by
  cases hending : line.ending with
  | help long rest =>
      have hparse := parseArguments_line line ⟨[], []⟩
      rw [hending] at hparse
      unfold main
      rw [hparse]
      exact .help long rest hending
  | dangling s =>
      have hparse := parseArguments_line line ⟨[], []⟩
      rw [hending] at hparse
      unfold main
      rw [hparse]
      exact .dangling s hending
  | complete =>
      obtain ⟨r, ⟨cfg, console⟩, hends, hmain⟩ := main_of_holds hending (holds_session hfw ha)
      rw [hmain]
      replace hends : Ends line.config ⟨[], line.reports⟩ r console := hends
      cases hends with
      | sent => exact .sent hending
      | failed reason hmem => exact .failed reason hending hmem
      | threw e => exact .threw e hending

/-- Without a home directory. -/
theorem main_prints_homeless : Printed ⟨[.joined .message (str "hi")], .complete⟩
    (main Env.homeless Env.noFiles [str "--message=hi"]) :=
  main_prints Env.homeless Env.noFiles ⟨[.joined .message (str "hi")], .complete⟩
    ⟨fun _ _ => rfl, fun _ _ _ => rfl, fun _ _ _ => rfl, fun _ hhome => by cases hhome⟩
    ⟨EvpBase64.reference_documented, OpenSSL.reference_inverts, OpenSSL.reference_sized, by decide⟩

/-- The keys are not saved, and nobody can log in. -/
example : main Env.homeless Env.noFiles [str "--message=hi"]
    = (some 1, ⟨[], str "Login failed\n"⟩) := by
  decide +kernel

end Demo

end Evlampy
