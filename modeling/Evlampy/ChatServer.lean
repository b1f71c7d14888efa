/-
Evlampy/ChatServer.lean

The server: users, contacts, groups and the two histories.  Every member
function holds the server's lock from its first to its last statement, so each
is one step from state to state; those that only read have no state in their
result.
-/
import Evlampy.Message
import Evlampy.TcpServer

namespace Evlampy

open Cxx UnorderedMap

/-- An account.  Its contacts are names, kept in a `std::set`. -/
structure UserRecord where
  passwordHash : Str
  publicKeyPem : Str
  contacts : Finset Str

/-- A group.  The owner has no rights of its own. -/
structure GroupRecord where
  groupName : Str
  owner : Str
  members : Finset Str

/-- The members of the server, its lock apart: accounts, the buckets of the two histories,
groups and the number of the next one. -/
structure ChatServer where
  users : UnorderedMap Str UserRecord
  history : UnorderedMap Str (List Message)
  groupHistory : UnorderedMap Str (List Message)
  groups : UnorderedMap Str GroupRecord
  nextGroupId : UInt64
  transport : TcpServer

namespace ChatServer

/-- A new server. -/
def empty : ChatServer := ⟨∅, ∅, ∅, ∅, 1, .empty⟩

variable (s : ChatServer)

/-! ### Users -/

/-- A name is given once, and every text is a name. -/
def registerUser (username passwordHash publicKeyPem : Str) : Bool × ChatServer :=
  if username ∈ s.users then (false, s)
  else (true, { s with users := s.users.insert username ⟨passwordHash, publicKeyPem, ∅⟩ })

/-- The hash is compared with the one on record. -/
def authenticate (username passwordHash : Str) : Bool :=
  match s.users.lookup username with
  | none => false
  | some record => record.passwordHash = passwordHash

/-- Empty for a name that is not registered. -/
def getPublicKey (username : Str) : Str :=
  match s.users.lookup username with
  | none => []
  | some record => record.publicKeyPem

/-- All names, sorted. -/
def listUsers : List Str := sort s.users.keys

/-! ### Contacts -/

/-- False if one of them is not registered, and also if the contact is there already. -/
def addContact (owner contact : Str) : Bool × ChatServer :=
  match s.users.lookup owner, s.users.lookup contact with
  | some record, some _ =>
      if contact ∈ record.contacts then (false, s)
      else
        let record' := { record with contacts := insert contact record.contacts }
        (true, { s with users := s.users.insert owner record' })
  | _, _ => (false, s)

/-- False if there is nothing to remove. -/
def removeContact (owner contact : Str) : Bool × ChatServer :=
  match s.users.lookup owner with
  | none => (false, s)
  | some record =>
      if contact ∈ record.contacts then
        let record' := { record with contacts := record.contacts.erase contact }
        (true, { s with users := s.users.insert owner record' })
      else (false, s)

/-- Empty for a name that is not registered. -/
def listContacts (owner : Str) : List Str :=
  match s.users.lookup owner with
  | none => []
  | some record => sortedFromSet record.contacts

/-! ### Groups -/

/-- The id of a group: the number counts the groups, the name is appended. -/
def makeGroupId (n : UInt64) (groupName : Str) : Str :=
  str "group-" ++ Digits.text 10 n.toNat ++ str "-" ++ groupName

/-- Members that are not registered are left out; the owner is always one. -/
def createGroup (owner groupName : Str) (members : List Str) : Option Str × ChatServer :=
  if owner ∈ s.users then
    let record : GroupRecord :=
      ⟨groupName, owner, insert owner (members.filter (· ∈ s.users)).toFinset⟩
    let groupId := makeGroupId s.nextGroupId groupName
    -- `emplace` keeps the group that has the id, if one has
    (some groupId, { s with
      groups := (emplace groupId record s.groups).2
      nextGroupId := s.nextGroupId + 1 })
  else (none, s)

/-- The ids of the groups of a member, sorted. -/
def listGroups (username : Str) : List Str :=
  sort ((s.groups.entries.filter fun e => username ∈ e.2.members).map Sigma.fst)

/-- Empty for an id no group has. -/
def getGroupMembers (groupId : Str) : List Str :=
  match s.groups.lookup groupId with
  | none => []
  | some group => sortedFromSet group.members

/-! ### Histories -/

/-- What stands between the two names of a conversation key. -/
def separator : Str := str "::"

/-- The smaller name comes first, so that both ends have one key. -/
def makeConversationKey (a b : Str) : Str :=
  if a ≤ b then a ++ separator ++ b else b ++ separator ++ a

/-- Behind the others of its bucket. -/
def storeMessage (message : Message) : ChatServer :=
  if message.isGroupMessage then
    { s with groupHistory := pushBack message.chatId message s.groupHistory }
  else
    { s with history :=
        pushBack (makeConversationKey message.sender message.receiver) message s.history }

/-- The bucket of the pair, in the order in which it was filled. -/
def getConversation (userA userB : Str) : List Message :=
  bucket s.history (makeConversationKey userA userB)

/-- The bucket of the group, with the copies of all members. -/
def getGroupConversation (groupId : Str) : List Message :=
  bucket s.groupHistory groupId

/-- The messages `deleteMessageForAll` erases. -/
def isTarget (requester messageId : Str) (m : Message) : Bool :=
  m.messageId = messageId && m.sender = requester

/-- From every bucket of both histories; true if there was something to erase. -/
def deleteMessageForAll (requester messageId : Str) : Bool × ChatServer :=
  -- the flag `removed` goes from the first loop to the second
  let direct := eraseIf (isTarget requester messageId) false s.history
  let group := eraseIf (isTarget requester messageId) direct.1 s.groupHistory
  (group.1, { s with history := direct.2, groupHistory := group.2 })

/-! ### What the functions leave alone -/

@[simp] theorem storeMessage_users (m : Message) : (s.storeMessage m).users = s.users := by
  unfold storeMessage
  split <;> rfl

@[simp] theorem storeMessage_groups (m : Message) : (s.storeMessage m).groups = s.groups := by
  unfold storeMessage
  split <;> rfl

@[simp] theorem storeMessage_transport (m : Message) :
    (s.storeMessage m).transport = s.transport := by
  unfold storeMessage
  split <;> rfl

end ChatServer

end Evlampy
