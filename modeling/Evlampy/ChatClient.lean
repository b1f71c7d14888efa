/-
Evlampy/ChatClient.lean

The clients and the world they act on.  A world holds one server, all the
`ChatClient` objects that share it, and the files.  Each public function of a
client is a program over atomic actions: one locked section of the server or of
its transport, one access to a member, one file operation, or one use of a
library that draws randomness or may fail.

Messages arrive by a synchronous call chain.  `sendTo` runs the receiver's
`handleIncoming`, which ends in `notify`; there the program yields, since
observers may call any client before they return or throw.

Logging is left out, and `Subject::notify` is one yield for all observers of the
client together.
-/
import Evlampy.ChatServer
import Evlampy.Encryption
import Evlampy.Machine

namespace Evlampy

open Cxx Callback

/-! ### Objects -/

/-- The end of a connection at the client: the name it was opened under, and whether it stands. -/
structure TcpClient where
  username : Str
  connected : Bool

/-- The members of a client that its functions read.  Its observers are not among them: whom
`notify` reaches is left to the environment. -/
structure ChatClient where
  username : Str
  transport : TcpClient
  keyPair : KeyPair
  registered : Bool
  loggedIn : Bool

/-- A newly constructed client. -/
def ChatClient.new (username : Str) : ChatClient :=
  ⟨username, ⟨[], false⟩, ⟨[], []⟩, false, false⟩

/-- What a reader is given of a message. -/
structure MessageView where
  messageId : Str
  fromUser : Str
  toUser : Str
  chatId : Str
  text : Str
  timestamp : Int64
  status : MessageStatus
  isGroupMessage : Bool
  deletedForAll : Bool
  deriving DecidableEq

/-- What observers are given of a message. -/
structure DecryptedMessageEvent where
  fromUser : Str
  text : Str
  chatId : Str
  messageId : Str
  isGroupMessage : Bool
  deriving DecidableEq

/-- An event for the observers of the client `receiver`. -/
structure Notice where
  receiver : ClientId
  event : DecryptedMessageEvent
  deriving DecidableEq

/-- What the program runs in.  Library calls and file operations take a number
that is different for every use. -/
structure Env where
  ssl : OpenSSL
  /-- `std::getenv("HOME")`. -/
  home : Option Str
  /-- The file a path leads to. -/
  locate : Str → Str
  /-- `create_directories` returns, that is, does not throw. -/
  createDirectories : Nat → Str → Bool
  /-- Writing a text to a file: its contents afterwards, if it could be opened. -/
  write : Nat → Str → Str → Option Str
  /-- Reading a file with the given contents: the text read, if it could be opened. -/
  read : Nat → Str → Option Str → Option Str
  steadyClock : Nat → Nat
  generator : Nat → Nat
  systemClock : Nat → Int64

/-- The message id made with the `n`-th draw. -/
def Env.messageId (env : Env) (n : Nat) : Str :=
  generateId (env.steadyClock n) (env.generator n)

/-- Everything that calls can change: a server, its clients, the files, and how many numbers
have been given to library calls. -/
structure World where
  server : ChatServer
  clients : ClientId → ChatClient
  disk : Str → Option Str
  draws : Nat

/-- A new server, new clients with the given names, and any files. -/
def World.initial (names : ClientId → Str) (disk : Str → Option Str) : World :=
  ⟨.empty, fun c => .new (names c), disk, 0⟩

/-! ### Actions -/

/-- The locked sections of `ChatServer`. -/
inductive ServerCall
  | registerUser (username passwordHash publicKeyPem : Str)
  | authenticate (username passwordHash : Str)
  | getPublicKey (username : Str)
  | listUsers
  | addContact (owner contact : Str)
  | removeContact (owner contact : Str)
  | listContacts (owner : Str)
  | createGroup (owner groupName : Str) (members : List Str)
  | listGroups (username : Str)
  | getGroupMembers (groupId : Str)
  | storeMessage (message : Message)
  | getConversation (userA userB : Str)
  | getGroupConversation (groupId : Str)
  | deleteMessageForAll (requester messageId : Str)

namespace ServerCall

/-- What each section returns. -/
abbrev Res : ServerCall → Type
  | registerUser .. => Bool
  | authenticate .. => Bool
  | getPublicKey _ => Str
  | listUsers => List Str
  | addContact .. => Bool
  | removeContact .. => Bool
  | listContacts _ => List Str
  | createGroup .. => Option Str
  | listGroups _ => List Str
  | getGroupMembers _ => List Str
  | storeMessage _ => Unit
  | getConversation .. => List Message
  | getGroupConversation _ => List Message
  | deleteMessageForAll .. => Bool

/-- Each section does what the function of its name does. -/
def exec : (q : ServerCall) → ChatServer → q.Res × ChatServer
  | registerUser u h k, s => s.registerUser u h k
  | authenticate u h, s => (s.authenticate u h, s)
  | getPublicKey u, s => (s.getPublicKey u, s)
  | listUsers, s => (s.listUsers, s)
  | addContact o c, s => s.addContact o c
  | removeContact o c, s => s.removeContact o c
  | listContacts o, s => (s.listContacts o, s)
  | createGroup o g ms, s => s.createGroup o g ms
  | listGroups u, s => (s.listGroups u, s)
  | getGroupMembers g, s => (s.getGroupMembers g, s)
  | storeMessage m, s => ((), s.storeMessage m)
  | getConversation a b, s => (s.getConversation a b, s)
  | getGroupConversation g, s => (s.getGroupConversation g, s)
  | deleteMessageForAll r i, s => s.deleteMessageForAll r i

end ServerCall

/-- The locked sections of `TcpServer`. -/
inductive TcpCall
  | connectClient (username : Str) (handler : ClientId)
  | disconnectClient (username : Str)
  | findHandler (toUser : Str)

namespace TcpCall

/-- What each section returns. -/
abbrev Res : TcpCall → Type
  | connectClient .. => Bool
  | disconnectClient _ => Unit
  | findHandler _ => Option ClientId

/-- Each section does what the function of its name does. -/
def exec : (q : TcpCall) → TcpServer → q.Res × TcpServer
  | connectClient u c, s => s.connectClient u c
  | disconnectClient u, s => ((), s.disconnectClient u)
  | findHandler u, s => (s.findHandler u, s)

end TcpCall

/-- File operations. -/
inductive FileCall
  | createDirectories (path : Str)
  | write (path text : Str)
  | read (path : Str)

/-- What a file operation returns.  Nobody looks at the stream after a write. -/
abbrev FileCall.Res : FileCall → Type
  | createDirectories _ => Bool
  | write .. => Unit
  | read _ => Option Str

/-- A file that cannot be opened for writing stays as it is. -/
def FileCall.exec (env : Env) (n : Nat) :
    (q : FileCall) → (Str → Option Str) → q.Res × (Str → Option Str)
  | createDirectories path, disk => (env.createDirectories n path, disk)
  | write path text, disk =>
      match env.write n path text with
      | none => ((), disk)
      | some contents =>
          ((), fun file => if file = env.locate path then some contents else disk file)
  | read path, disk => (env.read n path (disk (env.locate path)), disk)

/-- Assignments to the members of a client. -/
inductive Update
  | keyPair (k : KeyPair)
  | privateKeyPem (pem : Str)
  | publicKeyPem (pem : Str)
  | registered (b : Bool)
  | loggedIn (b : Bool)
  | transport (t : TcpClient)

/-- The client after the assignment. -/
def Update.apply : Update → ChatClient → ChatClient
  | keyPair k, c => { c with keyPair := k }
  | privateKeyPem pem, c => { c with keyPair := { c.keyPair with privateKeyPem := pem } }
  | publicKeyPem pem, c => { c with keyPair := { c.keyPair with publicKeyPem := pem } }
  | registered b, c => { c with registered := b }
  | loggedIn b, c => { c with loggedIn := b }
  | transport t, c => { c with transport := t }

/-- What code can do to the world, one atomic step at a time. -/
inductive Eff
  | server (q : ServerCall)
  | tcp (q : TcpCall)
  | file (q : FileCall)
  /-- Read the members of a client. -/
  | get (c : ClientId)
  | assign (c : ClientId) (u : Update)
  /-- Reserve numbers for library calls. -/
  | draw (count : Nat)
  /-- The transport calls the receive handler of a client. -/
  | invoke (c : ClientId) (fromUser payload : Str)

/-- What a step gives back to the code. -/
abbrev Eff.Res : Eff → Type
  | server q => q.Res
  | tcp q => q.Res
  | file q => q.Res
  | get _ => ChatClient
  | assign .. => Unit
  | draw _ => Nat
  | invoke .. => Unit

/-- Assign to a member of one client; the others stay as they are. -/
def World.assign (w : World) (c : ClientId) (u : Update) : World :=
  { w with clients := fun d => if d = c then u.apply (w.clients c) else w.clients d }

@[simp] theorem World.assign_self (w : World) (c : ClientId) (u : Update) :
    (w.assign c u).clients c = u.apply (w.clients c) := if_pos rfl

theorem World.assign_ne (w : World) {c d : ClientId} (hne : d ≠ c) (u : Update) :
    (w.assign c u).clients d = w.clients d := if_neg hne

/-- A step on the world.  Invoking a handler changes nothing by itself: what the handler does
are steps of its own. -/
def Eff.exec (env : Env) : (e : Eff) → World → e.Res × World
  | server q, w =>
      let r := q.exec w.server
      (r.1, { w with server := r.2 })
  | tcp q, w =>
      let r := q.exec w.server.transport
      (r.1, { w with server := { w.server with transport := r.2 } })
  | file q, w =>
      let r := q.exec env w.draws w.disk
      (r.1, { w with disk := r.2, draws := w.draws + 1 })
  | get c, w => (w.clients c, w)
  | assign c u, w => ((), w.assign c u)
  | draw count, w => (w.draws, { w with draws := w.draws + count })
  | invoke .., w => ((), w)

/-! ### Programs -/

/-- Code of the repository: it acts on the world, may notify observers and may
throw. -/
abbrev Code (α : Type) := Prog Eff Eff.Res Notice Exn α

namespace Code

/-- A section of the server. -/
def server (q : ServerCall) : Code q.Res := Prog.act (Eff.server q)

/-- A section of the transport. -/
def tcp (q : TcpCall) : Code q.Res := Prog.act (Eff.tcp q)

/-- A file operation. -/
def file (q : FileCall) : Code q.Res := Prog.act (Eff.file q)

/-- The members of a client. -/
def get (c : ClientId) : Code ChatClient := Prog.act (Eff.get c)

/-- An assignment. -/
def assign (c : ClientId) (u : Update) : Code Unit := Prog.act (Eff.assign c u)

/-- The first of `count` new numbers. -/
def draw (count : Nat) : Code Nat := Prog.act (Eff.draw count)

/-- The handler of a client is invoked. -/
def invoke (c : ClientId) (fromUser payload : Str) : Code Unit :=
  Prog.act (Eff.invoke c fromUser payload)

end Code

namespace ChatClient

open AES256GCMStrategy OpenSSLKeyFactory Code

variable (env : Env) (c : ClientId)

/-! ### Passwords and key files -/

/-- The digits of `std::hex`. -/
def hexDigits : Str := str "0123456789abcdef"

/-- Two hexadecimal digits for each byte of the digest. -/
def hashPassword (n : Nat) (rawPassword : Str) : Except Exn Str :=
  match env.ssl.sha256 n rawPassword with
  | none => .error (.std (.runtimeError "Failed to hash password"))
  | some digest => .ok (digest.flatMap fun b =>
      [hexDigits.getD (b.toNat / 16) 0, hexDigits.getD (b.toNat % 16) 0])

/-- The directory of all key files. -/
def keysDir (homeDir : Str) : Str := homeDir ++ str "/.evlampy/keys"

/-- The name is pasted in as it is, slashes and all. -/
def privKeyPath (homeDir username : Str) : Str :=
  keysDir homeDir ++ str "/" ++ username ++ str ".priv.pem"

/-- As for the private key. -/
def pubKeyPath (homeDir username : Str) : Str :=
  keysDir homeDir ++ str "/" ++ username ++ str ".pub.pem"

/-- Neither a missing home directory nor a failing file operation is reported. -/
def saveKeyPairToDisk : Code Unit := do
  match env.home with
  | none => pure ()
  | some homeDir => do
      let created ← file (.createDirectories (keysDir homeDir))
      if created then do
        let self ← get c
        file (.write (privKeyPath homeDir self.username) self.keyPair.privateKeyPem)
        file (.write (pubKeyPath homeDir self.username) self.keyPair.publicKeyPem)
      else pure ()

/-- The private key is assigned before the public key file is opened. -/
def loadKeyPairFromDisk : Code Bool := do
  match env.home with
  | none => pure false
  | some homeDir => do
      let self ← get c
      let priv ← file (.read (privKeyPath homeDir self.username))
      match priv with
      | none => pure false
      | some privateKeyPem => do
          assign c (.privateKeyPem privateKeyPem)
          let pub ← file (.read (pubKeyPath homeDir self.username))
          match pub with
          | none => pure false
          | some publicKeyPem => do
              assign c (.publicKeyPem publicKeyPem)
              pure true

/-! ### Transport -/

/-- `TcpClient::connect` of the client's transport. -/
def connect (username : Str) : Code Bool := do
  let self ← get c
  if self.transport.connected then pure false
  else do
    -- a name that is taken keeps its handler
    let ok ← tcp (.connectClient username c)
    if ok then do
      assign c (.transport ⟨username, true⟩)
      pure true
    else pure false

/-- `TcpClient::disconnect` of the client's transport. -/
def disconnect : Code Unit := do
  let self ← get c
  if self.transport.connected then do
    tcp (.disconnectClient self.transport.username)
    assign c (.transport ⟨[], false⟩)
  else pure ()

/-! ### Receiving -/

/-- What `handleIncoming` does up to the notification. -/
def readIncoming (self : ChatClient) (n : Nat) (payload : Str) : Except Exn (Message × Bytes) := do
  let message ← MessageProtocol.deserialize env.ssl.base64 payload
  let keyToUse :=
    if message.sender = self.username ∧ message.encryptedSelfSessionKey ≠ [] then
      message.encryptedSelfSessionKey
    else message.encryptedSessionKey
  let sessionKey ← decryptWithPrivateKey env.ssl n self.keyPair.privateKeyPem keyToUse
  let plaintext ← decrypt env.ssl n message.encryptedPayload sessionKey
  return (message, plaintext)

/-- Failures are logged only where they are standard exceptions. -/
def handleIncoming (fromUser payload : Str) : Code Unit :=
  Prog.tryCatch
    (do
      let self ← get c
      let n ← draw 1
      let r ← Prog.ofExcept (readIncoming env self n payload)
      -- this is inside the `try`: an exception of an observer is swallowed too
      Prog.notify ⟨c, ⟨fromUser, r.2, r.1.chatId, r.1.messageId, r.1.isGroupMessage⟩⟩)
    fun x => match x with
      | .std _ => pure ()
      | x => .throw x

/-- `TcpServer::sendTo`: the handler runs after the lock is released. -/
def sendTo (fromUser toUser payload : Str) : Code Bool := do
  let handler ← tcp (.findHandler toUser)
  match handler with
  | none => pure false
  | some receiver => do
      invoke receiver fromUser payload
      handleIncoming env receiver fromUser payload
      pure true

/-- `TcpClient::send` of the client's transport. -/
def send (toUser payload : Str) : Code Bool := do
  let self ← get c
  if self.transport.connected then sendTo env self.transport.username toUser payload
  else pure false

/-! ### Accounts -/

/-- A client that has registered returns false without asking the server. -/
def registerOnServer (rawPassword : Str) : Code Bool := do
  let self ← get c
  if self.registered then pure false
  else do
    let n ← draw 2
    let keyPair ← Prog.ofExcept (generateRsaKeyPair env.ssl n 2048)
    -- the old pair is gone before the server is asked
    assign c (.keyPair keyPair)
    let passwordHash ← Prog.ofExcept (hashPassword env (n + 1) rawPassword)
    let registered ← server (.registerUser self.username passwordHash keyPair.publicKeyPem)
    assign c (.registered registered)
    if registered then do
      saveKeyPairToDisk env c
      pure true
    else pure false

/-- A client that is logged in is not asked for its password again. -/
def login (rawPassword : Str) : Code Bool := do
  let self ← get c
  if self.loggedIn then pure true
  else do
    let n ← draw 1
    let passwordHash ← Prog.ofExcept (hashPassword env n rawPassword)
    let authenticated ← server (.authenticate self.username passwordHash)
    if authenticated then do
      -- the files are read before the name is claimed at the server
      let loaded ← loadKeyPairFromDisk env c
      if loaded then do
        let connected ← connect c self.username
        assign c (.loggedIn connected)
        if connected then do
          assign c (.registered true)
          pure true
        else pure false
      else pure false
    else pure false

/-- The transport is told first. -/
def logout : Code Unit := do
  disconnect c
  assign c (.loggedIn false)

/-! ### Sending -/

/-- The message `sendMessage` builds: a new session key, the payload, the key for
the receiver and the key for the sender. -/
def composeMessage (self : ChatClient) (n : Nat) (toUser receiverPublicKey plaintext : Str) :
    Except Exn Message := do
  let sessionKey ← generateSymmetricKey env.ssl n 32
  let encryptedPayload ← encrypt env.ssl (n + 1) plaintext sessionKey
  let encryptedSessionKey ← encryptWithPublicKey env.ssl (n + 2) receiverPublicKey sessionKey
  let encryptedSelfSessionKey ←
    encryptWithPublicKey env.ssl (n + 3) self.keyPair.publicKeyPem sessionKey
  return .build (env.messageId (n + 4)) (env.systemClock (n + 4)) self.username toUser
    encryptedSessionKey encryptedPayload encryptedSelfSessionKey [] false

/-- Send a message and store it with the status the transport reports. -/
def deliver (toUser : Str) (message : Message) : Code Unit := do
  let wire ← Prog.ofExcept (MessageProtocol.serialize env.ssl.base64 message)
  -- the receiver's observers run in here, before the message is stored
  let delivered ← send env c toUser wire
  server (.storeMessage
    { message with status := if delivered then MessageStatus.delivered else MessageStatus.sent })

/-- To somebody the server has a public key for. -/
def sendMessage (toUser plaintext : Str) : Code Bool := do
  let self ← get c
  if self.loggedIn then do
    let receiverPublicKey ← server (.getPublicKey toUser)
    if receiverPublicKey = [] then pure false
    else do
      let n ← draw 5
      let message ← Prog.ofExcept (composeMessage env self n toUser receiverPublicKey plaintext)
      deliver env c toUser message
      pure true
  else pure false

/-- The session key and the payload all copies of a group message share. -/
def composePayload (n : Nat) (plaintext : Str) : Except Exn (Bytes × Bytes) := do
  let sessionKey ← generateSymmetricKey env.ssl n 32
  let encryptedPayload ← encrypt env.ssl (n + 1) plaintext sessionKey
  return (sessionKey, encryptedPayload)

/-- One member's copy of a group message. -/
def composeCopy (self : ChatClient) (n : Nat) (member receiverPublicKey groupId : Str)
    (sessionKey encryptedPayload : Bytes) : Except Exn Message := do
  let encryptedSessionKey ← encryptWithPublicKey env.ssl n receiverPublicKey sessionKey
  return .build (env.messageId (n + 1)) (env.systemClock (n + 1)) self.username member
    encryptedSessionKey encryptedPayload [] groupId true

/-- The loop over the members; `anySent` is its flag. -/
def sendCopies (self : ChatClient) (groupId : Str) (sessionKey encryptedPayload : Bytes) :
    List Str → Bool → Code Bool
  | [], anySent => pure anySent
  | member :: members, anySent => do
      let receiverPublicKey ← server (.getPublicKey member)
      if receiverPublicKey = [] then
        sendCopies self groupId sessionKey encryptedPayload members anySent
      else do
        let n ← draw 2
        let message ← Prog.ofExcept
          (composeCopy env self n member receiverPublicKey groupId sessionKey encryptedPayload)
        deliver env c member message
        sendCopies self groupId sessionKey encryptedPayload members true

/-- The group must have members; whether the sender is one is not asked. -/
def sendGroupMessage (groupId plaintext : Str) : Code Bool := do
  let self ← get c
  if self.loggedIn then do
    let members ← server (.getGroupMembers groupId)
    if members = [] then pure false
    else do
      let n ← draw 2
      let r ← Prog.ofExcept (composePayload env n plaintext)
      sendCopies env c self groupId r.1 r.2 members false
  else pure false

/-- The server compares the name with the sender of the message. -/
def deleteMessageForAll (messageId : Str) : Code Bool := do
  let self ← get c
  if self.loggedIn = false ∨ messageId = [] then pure false
  else server (.deleteMessageForAll self.username messageId)

/-! ### Contacts and groups -/

/-- Whoever asks; the session is not looked at here, nor in the functions that follow. -/
def listUsers : Code (List Str) := server .listUsers

/-- The contacts of the client's user. -/
def listContacts : Code (List Str) := do
  let self ← get c
  server (.listContacts self.username)

/-- Both must be registered. -/
def addContact (contact : Str) : Code Bool := do
  let self ← get c
  server (.addContact self.username contact)

/-- False if there is no such contact. -/
def removeContact (contact : Str) : Code Bool := do
  let self ← get c
  server (.removeContact self.username contact)

/-- The id of the new group, or none if its owner is not registered. -/
def createGroup (groupName : Str) (members : List Str) : Code (Option Str) := do
  let self ← get c
  server (.createGroup self.username groupName members)

/-- The groups the client's user is a member of. -/
def listGroups : Code (List Str) := do
  let self ← get c
  server (.listGroups self.username)

/-! ### Reading -/

/-- Messages one has sent carry a key for the sender. -/
def decryptToView (self : ChatClient) (n : Nat) (message : Message) : Except Exn MessageView := do
  let keyToUse :=
    if message.sender = self.username ∧ message.encryptedSelfSessionKey ≠ [] then
      message.encryptedSelfSessionKey
    else message.encryptedSessionKey
  let sessionKey ← decryptWithPrivateKey env.ssl n self.keyPair.privateKeyPem keyToUse
  let plaintext ← decrypt env.ssl n message.encryptedPayload sessionKey
  return ⟨message.messageId, message.sender, message.receiver, message.chatId, plaintext,
    message.timestamp, message.status, message.isGroupMessage, message.deletedForAll⟩

/-- The loop that decrypts one message after another; `out` is its result so far. -/
def viewsOf (self : ChatClient) : List Message → List MessageView → Code (List MessageView)
  | [], out => pure out
  | message :: messages, out => do
      let n ← draw 1
      -- one message that cannot be decrypted ends the whole call
      let view ← Prog.ofExcept (decryptToView env self n message)
      viewsOf self messages (out ++ [view])

/-- The direct messages between the client's user and a peer, decrypted. -/
def getConversation (peer : Str) : Code (List MessageView) := do
  let self ← get c
  let messages ← server (.getConversation self.username peer)
  viewsOf env self messages []

/-- The copies for the client's user, decrypted. -/
def getGroupConversation (groupId : Str) : Code (List MessageView) := do
  let self ← get c
  let messages ← server (.getGroupConversation groupId)
  -- the copies of other members are skipped, not decrypted
  viewsOf env self (messages.filter fun message => message.receiver = self.username) []

end ChatClient

/-! ### The system -/

/-- The public functions of a client. -/
inductive Op
  | registerOnServer (rawPassword : Str)
  | login (rawPassword : Str)
  | logout
  | sendMessage (toUser plaintext : Str)
  | sendGroupMessage (groupId plaintext : Str)
  | deleteMessageForAll (messageId : Str)
  | listUsers
  | listContacts
  | addContact (contact : Str)
  | removeContact (contact : Str)
  | createGroup (groupName : Str) (members : List Str)
  | listGroups
  | getConversation (peer : Str)
  | getGroupConversation (groupId : Str)
  | username
  | isLoggedIn
  deriving DecidableEq

/-- A public function of one client, with its arguments. -/
structure Call where
  client : ClientId
  op : Op
  deriving DecidableEq

/-- What the functions return. -/
inductive Value
  | unit
  | bool (b : Bool)
  | name (username : Str)
  | names (list : List Str)
  | groupId (id : Option Str)
  | views (list : List MessageView)
  deriving DecidableEq

open ChatClient Code in
/-- The program of a call. -/
def Call.body (env : Env) (q : Call) : Code Value :=
  match q.op with
  | .registerOnServer rawPassword => return .bool (← registerOnServer env q.client rawPassword)
  | .login rawPassword => return .bool (← login env q.client rawPassword)
  | .logout => do logout q.client; return .unit
  | .sendMessage toUser plaintext => return .bool (← sendMessage env q.client toUser plaintext)
  | .sendGroupMessage groupId plaintext =>
      return .bool (← sendGroupMessage env q.client groupId plaintext)
  | .deleteMessageForAll messageId => return .bool (← deleteMessageForAll q.client messageId)
  | .listUsers => return .names (← listUsers)
  | .listContacts => return .names (← listContacts q.client)
  | .addContact contact => return .bool (← addContact q.client contact)
  | .removeContact contact => return .bool (← removeContact q.client contact)
  | .createGroup groupName members => return .groupId (← createGroup q.client groupName members)
  | .listGroups => return .names (← listGroups q.client)
  | .getConversation peer => return .views (← getConversation env q.client peer)
  | .getGroupConversation groupId => return .views (← getGroupConversation env q.client groupId)
  | .username => return .name (← get q.client).username
  | .isLoggedIn => return .bool (← get q.client).loggedIn

/-- All clients of one server. -/
def Env.system (env : Env) : System Eff Eff.Res Notice Exn Call Value World where
  exec := Eff.exec env
  body := Call.body env

/-- The state and the trace of a run. -/
abbrev History := Hist Eff Notice Exn Call Value World

/-- With the suspended sends. -/
abbrev Configuration := Config Eff Eff.Res Notice Exn Call Value World

/-- The runs of the system: any calls of any clients, nested in any way. -/
abbrev Env.run (env : Env) (names : ClientId → Str) (disk : Str → Option Str)
    (ms : List (Move Exn Call)) : Configuration :=
  env.system.run (World.initial names disk) ms

theorem Env.run_append_singleton (env : Env) (names : ClientId → Str) (disk : Str → Option Str)
    (ms : List (Move Exn Call)) (m : Move Exn Call) :
    env.run names disk (ms ++ [m]) = env.system.step (env.run names disk ms) m :=
  System.run_append_singleton env.system _ ms m

end Evlampy
