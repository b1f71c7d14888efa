/-
Evlampy/Chat.lean

What the server is for.  `Chat` is the abstract server: who has an account, who is whose
contact, the groups in the order of their creation, and one log of messages; no tables,
no keys of conversations, no buckets.  `Chat.Right` says which answer to a call is right,
and `Chat.next` what a call does.

`ChatServer` answers every call as the abstract server would, in every run in which
conversations are read under separated names and fewer than `2^64` groups are created
(`chatServer_refines`).  It is the same for clients: whatever they do, nested or side by
side, the server answers each of their calls rightly (`served_right`).
-/
import Evlampy.Directory
import Evlampy.Interleavings
import Evlampy.Refinement
import Evlampy.Transcripts

namespace Evlampy

open Cxx Callback System UnorderedMap ChatServer

/-! ### The abstract server -/

/-- A group; who created it is among its members. -/
structure Chat.Group where
  name : Str
  owner : Str
  members : Set Str

/-- What a server is there for, without its tables, keys and buckets. -/
structure Chat where
  /-- The password hash and the public key of an account. -/
  account : Str → Option (Str × Str)
  /-- The pairs of users of whom the first has the second as a contact. -/
  contact : Set (Str × Str)
  /-- In the order of their creation. -/
  groups : List Chat.Group
  log : List Message

/-- The list has the elements of the set, in ascending order. -/
def Lists (l : List Str) (S : Set Str) : Prop := l.Pairwise (· < ·) ∧ ∀ u, u ∈ l ↔ u ∈ S

namespace Chat

/-- Nobody has registered yet. -/
def empty : Chat := ⟨fun _ => none, ∅, [], []⟩

variable (a : Chat)

/-- The users. -/
def users : Set Str := {u | (a.account u).isSome}

/-- The id of the group that is created after `n` others. -/
def groupId (n : Nat) (groupName : Str) : Str := makeGroupId (UInt64.ofNat (n + 1)) groupName

/-- The group with the given id. -/
def HasGroup (g : Str) (group : Group) : Prop :=
  ∃ n, a.groups[n]? = some group ∧ g = groupId n group.name

/-- Accounts are never replaced. -/
noncomputable def register (u passwordHash pem : Str) : Chat :=
  open Classical in
  if u ∈ a.users then a
  else { a with account := Function.update a.account u (some (passwordHash, pem)) }

/-- Users have users as contacts. -/
noncomputable def befriend (owner contact : Str) : Chat :=
  open Classical in
  if owner ∈ a.users ∧ contact ∈ a.users then
    { a with contact := insert (owner, contact) a.contact }
  else a

/-- The members are the owner and whoever of the requested ones is a user. -/
noncomputable def found (owner groupName : Str) (members : List Str) : Chat :=
  open Classical in
  if owner ∈ a.users then
    { a with groups := a.groups ++
        [⟨groupName, owner, {u | u = owner ∨ (u ∈ members ∧ u ∈ a.users)}⟩] }
  else a

/-- What a call does. -/
noncomputable def next : ServerCall → Chat
  | .registerUser u passwordHash pem => a.register u passwordHash pem
  | .addContact owner contact => a.befriend owner contact
  | .removeContact owner contact => { a with contact := a.contact \ {(owner, contact)} }
  | .createGroup owner groupName members => a.found owner groupName members
  | .storeMessage m => { a with log := a.log ++ [m] }
  | .deleteMessageForAll requester messageId =>
      { a with log := a.log.filter fun m => ¬ (m.messageId = messageId ∧ m.sender = requester) }
  | _ => a

/-- The right answers to a call. -/
def Right : (q : ServerCall) → q.Res → Prop
  | .registerUser u _ _, r => r = true ↔ u ∉ a.users
  | .authenticate u passwordHash, r => r = true ↔ ∃ pem, a.account u = some (passwordHash, pem)
  | .getPublicKey u, r =>
      (∀ passwordHash pem, a.account u = some (passwordHash, pem) → r = pem) ∧
        (u ∉ a.users → r = [])
  | .listUsers, r => Lists r a.users
  | .addContact owner contact, r =>
      r = true ↔ owner ∈ a.users ∧ contact ∈ a.users ∧ (owner, contact) ∉ a.contact
  | .removeContact owner contact, r => r = true ↔ (owner, contact) ∈ a.contact
  | .listContacts owner, r => Lists r {u | (owner, u) ∈ a.contact}
  | .createGroup owner groupName _, r =>
      (owner ∈ a.users → r = some (groupId a.groups.length groupName)) ∧
        (owner ∉ a.users → r = none)
  | .listGroups u, r => Lists r {g | ∃ group, a.HasGroup g group ∧ u ∈ group.members}
  | .getGroupMembers g, r => Lists r {u | ∃ group, a.HasGroup g group ∧ u ∈ group.members}
  | .storeMessage _, _ => True
  | .getConversation x y, r => r = a.log.filter fun m => Between x y m
  | .getGroupConversation g, r => r = a.log.filter fun m => m.isGroupMessage ∧ m.chatId = g
  | .deleteMessageForAll requester messageId, r =>
      r = true ↔ ∃ m ∈ a.log, m.messageId = messageId ∧ m.sender = requester

/-- Conversations are read under separated names, and there is a number for the next group. -/
def Guard : ServerCall → Prop
  | .getConversation x y => Separated x y
  | .createGroup .. => a.groups.length + 1 < 2 ^ 64
  | _ => True

end Chat

/-- The abstract server. -/
noncomputable def Chat.spec : Refinement.Spec ServerCall ServerCall.Res Chat :=
  ⟨.empty, Chat.Right, Chat.next⟩

/-- The server. -/
def ChatServer.machine : Refinement.Machine ServerCall ServerCall.Res ChatServer :=
  ⟨.empty, ServerCall.exec⟩

/-! ### The relation -/

/-- The record is the one of the group. -/
structure Chat.Group.Shows (group : Chat.Group) (record : GroupRecord) : Prop where
  name : record.groupName = group.name
  owner : record.owner = group.owner
  members : ∀ u, u ∈ record.members ↔ u ∈ group.members

/-- The server stands for the abstract one. -/
structure Represents (s : ChatServer) (a : Chat) : Prop where
  account : ∀ u, a.account u
    = (s.users.lookup u).map fun record => (record.passwordHash, record.publicKeyPem)
  contact : ∀ owner u, (owner, u) ∈ a.contact ↔
    ∃ record, s.users.lookup owner = some record ∧ u ∈ record.contacts
  counter : s.nextGroupId = UInt64.ofNat (a.groups.length + 1)
  few : a.groups.length < 2 ^ 64
  groups : ∀ g group, a.HasGroup g group → ∃ record, s.groups.lookup g = some record ∧
    group.Shows record
  created : ∀ g record, s.groups.lookup g = some record →
    ∃ group, a.HasGroup g group ∧ group.Shows record
  log : Logged s a.log

variable {s s' : ChatServer} {a a' : Chat} {u v g passwordHash pem groupName : Str}

theorem represents_empty : Represents .empty .empty where
  account _ := rfl
  contact owner u := by
    constructor
    · intro h
      exact h.elim
    · rintro ⟨record, hlookup, -⟩
      cases hlookup
  counter := rfl
  few := Nat.two_pow_pos 64
  groups g group hgroup := by
    obtain ⟨n, hn, -⟩ := hgroup
    cases hn
  created g record hlookup := by cases hlookup
  log := logged_empty

theorem Represents.mem_users (hr : Represents s a) : u ∈ a.users ↔ u ∈ s.users := by
  show (a.account u).isSome ↔ u ∈ s.users
  rw [hr.account, Option.isSome_map, AList.lookup_isSome]

/-- A user's record, from the abstract side. -/
theorem Represents.contact_iff (hr : Represents s a) {record : UserRecord}
    (hlookup : s.users.lookup u = some record) : (u, v) ∈ a.contact ↔ v ∈ record.contacts := by
  rw [hr.contact, hlookup]
  simp

/-- Only users have contacts. -/
theorem Represents.notMem_contact (hr : Represents s a) (hu : s.users.lookup u = none) :
    (u, v) ∉ a.contact := by
  rw [hr.contact, hu]
  simp

/-- A change that leaves the counter and the groups. -/
theorem Represents.congr (hr : Represents s a)
    (haccount : ∀ u, a'.account u
      = (s'.users.lookup u).map fun record => (record.passwordHash, record.publicKeyPem))
    (hcontact : ∀ owner u, (owner, u) ∈ a'.contact ↔
      ∃ record, s'.users.lookup owner = some record ∧ u ∈ record.contacts)
    (hcounter : s'.nextGroupId = s.nextGroupId) (hgroups : s'.groups = s.groups)
    (hgroups' : a'.groups = a.groups) (hlog : Logged s' a'.log) : Represents s' a' := by
  have hsame : ∀ g group, a'.HasGroup g group ↔ a.HasGroup g group := by
    intro g group
    unfold Chat.HasGroup
    rw [hgroups']
  refine ⟨haccount, hcontact, ?_, ?_, fun g group hgroup => ?_, fun g record hlookup => ?_, hlog⟩
  · rw [hcounter, hgroups']
    exact hr.counter
  · rw [hgroups']
    exact hr.few
  · rw [hgroups]
    exact hr.groups g group ((hsame g group).mp hgroup)
  · rw [hgroups] at hlookup
    obtain ⟨group, hgroup, hshows⟩ := hr.created g record hlookup
    exact ⟨group, (hsame g group).mpr hgroup, hshows⟩

/-! ### Accounts and contacts -/

theorem Represents.registerUser (hr : Represents s a) (u passwordHash pem : Str) :
    Represents (s.registerUser u passwordHash pem).2 (a.register u passwordHash pem) := by
  unfold ChatServer.registerUser Chat.register
  by_cases hu : u ∈ s.users
  · rw [if_pos hu, if_pos (hr.mem_users.mpr hu)]
    exact hr
  · rw [if_neg hu, if_neg fun h => hu (hr.mem_users.mp h)]
    refine hr.congr (fun v => ?_) (fun owner v => ?_) rfl rfl rfl (hr.log.congr rfl rfl)
    · show Function.update a.account u _ v = ((s.users.insert u _).lookup v).map _
      rcases eq_or_ne v u with rfl | hne
      · rw [Function.update_self, AList.lookup_insert]
        rfl
      · rw [Function.update_of_ne hne, AList.lookup_insert_ne hne]
        exact hr.account v
    · show (owner, v) ∈ a.contact ↔ ∃ record, (s.users.insert u _).lookup owner = _ ∧ _
      rcases eq_or_ne owner u with rfl | hne
      · -- nobody had contacts before the account
        have hnone := hr.notMem_contact (v := v) (AList.lookup_eq_none.mpr hu)
        rw [AList.lookup_insert]
        simp [hnone]
      · rw [AList.lookup_insert_ne hne, hr.contact]

/-- Replacing the contacts of a user. -/
theorem Represents.setContacts (hr : Represents s a) {record : UserRecord}
    (hlookup : s.users.lookup u = some record) {contacts : Finset Str} {contact : Set (Str × Str)}
    (hsame : ∀ owner v, owner ≠ u → ((owner, v) ∈ contact ↔ (owner, v) ∈ a.contact))
    (hnew : ∀ v, (u, v) ∈ contact ↔ v ∈ contacts) :
    Represents { s with users := s.users.insert u { record with contacts := contacts } }
      { a with contact := contact } := by
  refine hr.congr (fun v => ?_) (fun owner v => ?_) rfl rfl rfl (hr.log.congr rfl rfl)
  · show a.account v = ((s.users.insert u _).lookup v).map _
    rw [hr.account]
    rcases eq_or_ne v u with rfl | hne
    · rw [hlookup, AList.lookup_insert]
      rfl
    · rw [AList.lookup_insert_ne hne]
  · show (owner, v) ∈ contact ↔ ∃ record, (s.users.insert u _).lookup owner = _ ∧ _
    rcases eq_or_ne owner u with rfl | hne
    · rw [hnew, AList.lookup_insert]
      simp
    · rw [hsame owner v hne, hr.contact, AList.lookup_insert_ne hne]

theorem Represents.addContact (hr : Represents s a) (u v : Str) :
    Represents (s.addContact u v).2 (a.befriend u v) := by
  unfold ChatServer.addContact Chat.befriend
  split
  · next record other hu hv =>
    have hmem : u ∈ a.users ∧ v ∈ a.users := by
      rw [hr.mem_users, hr.mem_users, ← AList.lookup_isSome, ← AList.lookup_isSome, hu, hv]
      exact ⟨rfl, rfl⟩
    rw [if_pos hmem]
    split
    · next hold =>
      have hsame : insert (u, v) a.contact = a.contact :=
        Set.insert_eq_of_mem ((hr.contact_iff hu).mpr hold)
      rw [hsame]
      exact hr
    · refine hr.setContacts hu (fun owner w hne => ?_) fun w => ?_
      · simp [hne]
      · simp [hr.contact_iff hu]
  · next hnone =>
    have hmem : ¬ (u ∈ a.users ∧ v ∈ a.users) := by
      rw [hr.mem_users, hr.mem_users, ← AList.lookup_isSome, ← AList.lookup_isSome]
      rintro ⟨hu, hv⟩
      obtain ⟨record, hu⟩ := Option.isSome_iff_exists.mp hu
      obtain ⟨other, hv⟩ := Option.isSome_iff_exists.mp hv
      exact hnone record other hu hv
    rw [if_neg hmem]
    exact hr

theorem Represents.removeContact (hr : Represents s a) (u v : Str) :
    Represents (s.removeContact u v).2 { a with contact := a.contact \ {(u, v)} } := by
  have hsame : (u, v) ∉ a.contact → a.contact \ {(u, v)} = a.contact :=
    Set.sdiff_singleton_eq_self
  unfold ChatServer.removeContact
  split
  · next hnone =>
    rw [hsame (hr.notMem_contact hnone)]
    exact hr
  · next record hu =>
    split
    · refine hr.setContacts hu (fun owner w hne => ?_) fun w => ?_
      · simp [hne]
      · rw [Finset.mem_erase, ← hr.contact_iff hu, Set.mem_sdiff, Set.mem_singleton_iff,
          Prod.mk.injEq]
        tauto
    · next hnone =>
      rw [hsame fun h => hnone ((hr.contact_iff hu).mp h)]
      exact hr

/-! ### Groups -/

/-- The groups after another one has been created. -/
theorem hasGroup_append {group group' : Chat.Group} (hgroups : a'.groups = a.groups ++ [group]) :
    a'.HasGroup g group' ↔
      a.HasGroup g group' ∨ group' = group ∧ g = Chat.groupId a.groups.length group.name := by
  unfold Chat.HasGroup
  rw [hgroups]
  constructor
  · rintro ⟨n, hn, rfl⟩
    rcases Nat.lt_trichotomy n a.groups.length with hlt | rfl | hgt
    · rw [List.getElem?_append_left hlt] at hn
      exact Or.inl ⟨n, hn, rfl⟩
    · rw [List.getElem?_concat_length] at hn
      cases hn
      exact Or.inr ⟨rfl, rfl⟩
    · rw [List.getElem?_eq_none (by simp; omega)] at hn
      cases hn
  · rintro (⟨n, hn, rfl⟩ | ⟨rfl, rfl⟩)
    · obtain ⟨hlt, -⟩ := List.getElem?_eq_some_iff.mp hn
      exact ⟨n, by rw [List.getElem?_append_left hlt, hn], rfl⟩
    · exact ⟨a.groups.length, List.getElem?_concat_length, rfl⟩

/-- The id of the next group is free: the numbers of the others are smaller. -/
theorem Represents.groupId_free (hr : Represents s a) (hguard : a.groups.length + 1 < 2 ^ 64)
    (groupName : Str) : Chat.groupId a.groups.length groupName ∉ s.groups := by
  intro hmem
  obtain ⟨record, hlookup⟩ := Option.isSome_iff_exists.mp (AList.lookup_isSome.mpr hmem)
  obtain ⟨group, ⟨n, hn, hid⟩, -⟩ := hr.created _ record hlookup
  obtain ⟨hlt, -⟩ := List.getElem?_eq_some_iff.mp hn
  have hnumbers := congrArg UInt64.toNat (makeGroupId_number hid)
  have hsize : UInt64.size = 2 ^ 64 := rfl
  rw [UInt64.toNat_ofNat_of_lt' (by omega), UInt64.toNat_ofNat_of_lt' (by omega)] at hnumbers
  omega

theorem Represents.createGroup (hr : Represents s a) (hguard : a.groups.length + 1 < 2 ^ 64)
    (owner groupName : Str) (members : List Str) :
    Represents (s.createGroup owner groupName members).2 (a.found owner groupName members) := by
  have hfree := hr.groupId_free hguard groupName
  have hrecorded := recorded_createGroup s owner groupName members
  unfold ChatServer.createGroup Chat.found
  by_cases ho : owner ∈ s.users
  · rw [if_pos ho, if_pos (hr.mem_users.mpr ho)]
    have hid : makeGroupId s.nextGroupId groupName = Chat.groupId a.groups.length groupName := by
      rw [hr.counter]
      rfl
    have hshows : Chat.Group.Shows ⟨groupName, owner, {u | u = owner ∨ (u ∈ members ∧ u ∈ a.users)}⟩
        ⟨groupName, owner, insert owner (members.filter (· ∈ s.users)).toFinset⟩ := by
      refine ⟨rfl, rfl, fun u => ?_⟩
      rw [hrecorded.member, ← hr.mem_users]
      rfl
    simp only [hid, emplace_of_notMem _ hfree]
    refine ⟨hr.account, hr.contact, ?_, ?_, fun g group hgroup => ?_, fun g record hlookup => ?_,
      hr.log.congr rfl rfl⟩
    · show s.nextGroupId + 1 = UInt64.ofNat ((a.groups ++ [_]).length + 1)
      rw [hr.counter, List.length_append, List.length_singleton,
        UInt64.ofNat_add (a.groups.length + 1) 1]
      rfl
    · show (a.groups ++ [_]).length < 2 ^ 64
      rw [List.length_append, List.length_singleton]
      exact hguard
    · rcases (hasGroup_append rfl).mp hgroup with hold | ⟨rfl, rfl⟩
      · obtain ⟨record, hlookup, hshows⟩ := hr.groups g group hold
        refine ⟨record, ?_, hshows⟩
        show (s.groups.insert _ _).lookup g = some record
        rw [AList.lookup_insert_ne, hlookup]
        rintro rfl
        exact hfree (AList.lookup_isSome.mp (by rw [hlookup]; rfl))
      · exact ⟨_, AList.lookup_insert s.groups, hshows⟩
    · rcases lookup_insert_cases hlookup with ⟨rfl, rfl⟩ | ⟨-, hold⟩
      · exact ⟨_, (hasGroup_append rfl).mpr (Or.inr ⟨rfl, rfl⟩), hshows⟩
      · obtain ⟨group, hgroup, hshows⟩ := hr.created g record hold
        exact ⟨group, (hasGroup_append rfl).mpr (Or.inl hgroup), hshows⟩
  · rw [if_neg ho, if_neg fun h => ho (hr.mem_users.mp h)]
    exact hr

/-! ### Calls -/

/-- Every call does what it should. -/
theorem Represents.exec (hr : Represents s a) (q : ServerCall) (hguard : a.Guard q) :
    Represents (q.exec s).2 (a.next q) := by
  cases q with
  | registerUser u passwordHash pem => exact hr.registerUser u passwordHash pem
  | addContact owner contact => exact hr.addContact owner contact
  | removeContact owner contact => exact hr.removeContact owner contact
  | createGroup owner groupName members => exact hr.createGroup hguard owner groupName members
  | storeMessage m =>
      refine hr.congr (fun u => ?_) (fun owner u => ?_) ?_ (s.storeMessage_groups m) rfl
        (hr.log.storeMessage m)
      · show a.account u = ((s.storeMessage m).users.lookup u).map _
        rw [s.storeMessage_users, hr.account]
      · show (owner, u) ∈ a.contact ↔ ∃ record, (s.storeMessage m).users.lookup owner = _ ∧ _
        rw [s.storeMessage_users, hr.contact]
      · show (s.storeMessage m).nextGroupId = s.nextGroupId
        unfold ChatServer.storeMessage
        split <;> rfl
  | deleteMessageForAll requester messageId =>
      exact hr.congr hr.account hr.contact rfl rfl rfl
        (hr.log.deleteMessageForAll requester messageId)
  | _ => exact hr

theorem Represents.mem_members (hr : Represents s a) :
    u ∈ s.getGroupMembers g ↔ ∃ group, a.HasGroup g group ∧ u ∈ group.members := by
  rw [mem_getGroupMembers_iff]
  constructor
  · rintro ⟨record, hlookup, hu⟩
    obtain ⟨group, hgroup, hshows⟩ := hr.created g record hlookup
    exact ⟨group, hgroup, (hshows.members u).mp hu⟩
  · rintro ⟨group, hgroup, hu⟩
    obtain ⟨record, hlookup, hshows⟩ := hr.groups g group hgroup
    exact ⟨record, hlookup, (hshows.members u).mpr hu⟩

theorem Represents.mem_contacts (hr : Represents s a) :
    v ∈ s.listContacts u ↔ (u, v) ∈ a.contact := by
  rw [hr.contact]
  unfold ChatServer.listContacts
  rcases s.users.lookup u with - | record
  · simp
  · simp

theorem Represents.addContact_fst (hr : Represents s a) :
    (s.addContact u v).1 = true ↔ u ∈ a.users ∧ v ∈ a.users ∧ (u, v) ∉ a.contact := by
  rw [hr.mem_users, hr.mem_users, ← AList.lookup_isSome, ← AList.lookup_isSome]
  unfold ChatServer.addContact
  rcases hu : s.users.lookup u with - | record
  · simp
  · rcases hv : s.users.lookup v with - | other
    · simp
    · rw [hr.contact_iff hu]
      by_cases hmem : v ∈ record.contacts
      · simp [hmem]
      · simp [hmem]

theorem Represents.removeContact_fst (hr : Represents s a) :
    (s.removeContact u v).1 = true ↔ (u, v) ∈ a.contact := by
  unfold ChatServer.removeContact
  rcases hu : s.users.lookup u with - | record
  · simp [hr.notMem_contact hu]
  · rw [hr.contact_iff hu]
    by_cases hmem : v ∈ record.contacts
    · simp [hmem]
    · simp [hmem]

theorem Represents.registerUser_fst (hr : Represents s a) :
    (s.registerUser u passwordHash pem).1 = true ↔ u ∉ a.users := by
  rw [hr.mem_users]
  unfold ChatServer.registerUser
  by_cases hu : u ∈ s.users
  · simp [hu]
  · simp [hu]

theorem Represents.authenticate (hr : Represents s a) :
    s.authenticate u passwordHash = true ↔ ∃ pem, a.account u = some (passwordHash, pem) := by
  rw [hr.account]
  unfold ChatServer.authenticate
  rcases s.users.lookup u with - | record
  · simp
  · simp [eq_comm]

theorem Represents.getPublicKey (hr : Represents s a) :
    (∀ passwordHash pem, a.account u = some (passwordHash, pem) → s.getPublicKey u = pem) ∧
      (u ∉ a.users → s.getPublicKey u = []) := by
  rw [hr.mem_users, hr.account, ← AList.lookup_isSome]
  unfold ChatServer.getPublicKey
  rcases s.users.lookup u with - | record
  · simp
  · simp

theorem Represents.createGroup_fst (hr : Represents s a) {owner : Str} {members : List Str} :
    (owner ∈ a.users →
        (s.createGroup owner groupName members).1
          = some (Chat.groupId a.groups.length groupName)) ∧
      (owner ∉ a.users → (s.createGroup owner groupName members).1 = none) := by
  rw [hr.mem_users]
  unfold ChatServer.createGroup
  constructor
  · intro howner
    rw [if_pos howner, hr.counter]
    rfl
  · intro howner
    rw [if_neg howner]

/-- Every call is answered rightly. -/
theorem Represents.right (hr : Represents s a) (q : ServerCall) (hguard : a.Guard q) :
    a.Right q (q.exec s).1 := by
  cases q with
  | registerUser u passwordHash pem => exact hr.registerUser_fst
  | authenticate u passwordHash => exact hr.authenticate
  | getPublicKey u => exact hr.getPublicKey
  | listUsers =>
      refine ⟨listUsers_strict, fun u => ?_⟩
      rw [hr.mem_users]
      exact mem_sort
  | addContact owner contact => exact hr.addContact_fst
  | removeContact owner contact => exact hr.removeContact_fst
  | listContacts owner => exact ⟨listContacts_strict, fun u => hr.mem_contacts⟩
  | createGroup owner groupName members => exact hr.createGroup_fst
  | listGroups u => exact ⟨listGroups_strict, fun g => mem_listGroups.trans hr.mem_members⟩
  | getGroupMembers g => exact ⟨getGroupMembers_strict, fun u => hr.mem_members⟩
  | storeMessage m => trivial
  | getConversation x y =>
      show s.getConversation x y = a.log.filter fun m => Between x y m
      rw [ChatServer.getConversation, hr.log.direct]
      simp only [directKey_iff hguard]
  | getGroupConversation g =>
      show s.getGroupConversation g = a.log.filter fun m => m.isGroupMessage ∧ m.chatId = g
      rw [ChatServer.getGroupConversation, hr.log.group]
      apply List.filter_congr
      intro m _
      cases hm : m.isGroupMessage <;> simp [groupKey, hm]
  | deleteMessageForAll requester messageId =>
      exact hr.log.deleteMessageForAll_fst requester messageId

/-! ### Runs -/

/-- The server does what the abstract one does. -/
theorem simulation :
    Refinement.Simulation ChatServer.machine Chat.spec Represents Chat.Guard where
  start := represents_empty
  right _ _ q hr hguard := hr.right q hguard
  next _ _ q hr hguard := hr.exec q hguard

/-- Groups are created by calls. -/
theorem groups_length_le (calls : List ServerCall) :
    (Chat.spec.reached calls).groups.length ≤ calls.countP ServerCall.createsGroup := by
  refine Chat.spec.reached_induct (K := fun calls a =>
    a.groups.length ≤ calls.countP ServerCall.createsGroup) (Nat.le_refl 0) ?_ calls
  intro calls a q hle
  rw [List.countP_append, List.countP_singleton]
  show (a.next q).groups.length ≤ _
  cases q with
  | registerUser u passwordHash pem =>
      show (a.register u passwordHash pem).groups.length ≤ _
      unfold Chat.register
      split <;> exact Nat.le_add_right_of_le hle
  | addContact owner contact =>
      show (a.befriend owner contact).groups.length ≤ _
      unfold Chat.befriend
      split <;> exact Nat.le_add_right_of_le hle
  | createGroup owner groupName members =>
      show (a.found owner groupName members).groups.length ≤ _
      unfold Chat.found
      split
      · show (a.groups ++ [_]).length ≤ _
        rw [List.length_append]
        exact Nat.add_le_add_right hle 1
      · exact Nat.le_add_right_of_le hle
  | _ => exact Nat.le_add_right_of_le hle

/-- When the calls of a run meet their guards. -/
theorem guarded {calls : List ServerCall}
    (hfew : calls.countP ServerCall.createsGroup < 2 ^ 64)
    (hsep : ∀ x y, .getConversation x y ∈ calls → Separated x y) :
    Refinement.Guarded Chat.spec Chat.Guard calls := by
  rintro before q after rfl
  cases q with
  | getConversation x y => exact hsep x y (by simp)
  | createGroup owner groupName members =>
      have hle := groups_length_le before
      show (Chat.spec.reached before).groups.length + 1 < 2 ^ 64
      rw [List.countP_append, List.countP_cons_of_pos (by rfl)] at hfew
      omega
  | _ => trivial

/-- **The server is the abstract one.**  In every run the server answers every call as the
abstract server does, if conversations are read under separated names and there are numbers
for the groups.  The calls are those of `ServerCall`; `getGroupName`, which only the window
uses, is not among them. -/
theorem chatServer_refines (calls : List ServerCall)
    (hfew : calls.countP ServerCall.createsGroup < 2 ^ 64)
    (hsep : ∀ x y, .getConversation x y ∈ calls → Separated x y) :
    Refinement.KeepsTo ChatServer.machine Chat.spec calls :=
  simulation.keepsTo (guarded hfew hsep)

/-- Alice has Bob as a contact, and a group with him. -/
theorem chatServer_refines_alice : Refinement.KeepsTo ChatServer.machine Chat.spec
    [.registerUser (str "alice") (str "hash") (str "pem"),
      .registerUser (str "bob") (str "hash") (str "pem"),
      .addContact (str "alice") (str "bob"),
      .createGroup (str "alice") (str "walks") [str "bob"],
      .getConversation (str "alice") (str "bob")] := by
  refine chatServer_refines _ (by decide) fun x y hmem => ?_
  obtain ⟨rfl, rfl⟩ : x = str "alice" ∧ y = str "bob" := by simpa using hmem
  exact separated_of_notMem (by decide) (by decide)

/-! ### Clients -/

/-- The calls of the server in a trace, in their order. -/
def callsIn : List Step → List ServerCall
  | [] => []
  | x :: earlier =>
      match x.act with
      | .did (.server q) => callsIn earlier ++ [q]
      | _ => callsIn earlier

/-- Every call of the server has been answered rightly. -/
def Answered (h : History) : Prop :=
  ∀ later x q earlier, h.2 = later ++ x :: earlier → x.act = .did (.server q) →
    (Chat.spec.reached (callsIn earlier)).Right q (q.exec x.before.server).1

/-- The server stands for the abstract one, if the calls meet their guards. -/
def Served (h : History) : Prop :=
  Refinement.Guarded Chat.spec Chat.Guard (callsIn h.2) →
    Represents h.1.server (Chat.spec.reached (callsIn h.2)) ∧ Answered h

variable {env : Env} {names : ClientId → Str} {disk : Str → Option Str} {h : History} {i : Nat}
  {act : Act Eff Notice Exn Call Value}

theorem served_initial (names : ClientId → Str) (disk : Str → Option Str) :
    Served (World.initial names disk, []) := by
  intro _
  refine ⟨represents_empty, fun later x q earlier heq => ?_⟩
  cases later <;> cases heq

/-- Acts that are no calls of the server. -/
theorem Served.quiet (hs : Served h) (hact : ∀ q, act ≠ .did (.server q))
    (hcalls : callsIn (env.system.push h i act).2 = callsIn h.2)
    (hserver : Represents h.1.server (Chat.spec.reached (callsIn h.2)) →
      Represents (env.system.push h i act).1.server (Chat.spec.reached (callsIn h.2))) :
    Served (env.system.push h i act) := by
  intro hg
  rw [hcalls] at hg ⊢
  obtain ⟨hr, hanswered⟩ := hs hg
  refine ⟨hserver hr, fun later x q earlier heq hx => ?_⟩
  rcases later with - | ⟨y, later⟩
  · obtain ⟨rfl, -⟩ := List.cons.inj heq
    exact absurd hx (hact q)
  · exact hanswered later x q earlier (List.cons.inj heq).2 hx

/-- Whatever is done, the server goes on to stand for the abstract one. -/
theorem Served.push (hs : Served h) (i : Nat) (act : Act Eff Notice Exn Call Value) :
    Served (env.system.push h i act) := by
  cases act with
  | did e =>
      cases e with
      | server q =>
          intro hg
          obtain ⟨hr, hanswered⟩ := hs hg.of_append
          have hguard : (Chat.spec.reached (callsIn h.2)).Guard q := hg (callsIn h.2) q [] rfl
          refine ⟨?_, fun later x q' earlier heq hx => ?_⟩
          · show Represents (q.exec h.1.server).2 (Chat.spec.reached (callsIn h.2 ++ [q]))
            rw [Chat.spec.reached_append_singleton]
            exact hr.exec q hguard
          · rcases later with - | ⟨y, later⟩
            · obtain ⟨rfl, rfl⟩ := List.cons.inj heq
              cases hx
              exact hr.right q hguard
            · exact hanswered later x q' earlier (List.cons.inj heq).2 hx
      | tcp q =>
          exact hs.quiet (fun _ e => by cases e) rfl fun hr =>
            hr.congr hr.account hr.contact rfl rfl rfl (hr.log.congr rfl rfl)
      | _ => exact hs.quiet (fun _ e => by cases e) rfl id
  | _ => exact hs.quiet (fun _ e => by cases e) rfl id

/-- What clients can do: call each other from their observers, or each run on a thread of
its own. -/
inductive Occurs (env : Env) (names : ClientId → Str) (disk : Str → Option Str) : History → Prop
  | nested (ms : List (Move Exn Call)) : Occurs env names disk (env.run names disk ms).hist
  | interleaved (ms : List (PoolMove Exn Call ClientId)) :
      Occurs env names disk (env.interleave (World.initial names disk) ms)

theorem Occurs.served (ho : Occurs env names disk h) : Served h := by
  cases ho with
  | nested ms =>
      exact run_keeps env.system (I := Served) (served_initial names disk)
        (fun _ => .of_push (fun i act _ hs => hs.push i act) _)
        (fun i act _ _ hs => hs.push i act) ms
  | interleaved ms =>
      refine pool_keeps (P := fun _ _ => True) env.system Call.client (I := Served) (fun q => ?_)
        (served_initial names disk) (fun _ _ i act hs _ => hs.push i act) ms
      exact .of_forall (fun _ => trivial) (fun _ => trivial) _

/-- **Clients see the abstract server.**  Whatever clients do, from their observers or side
by side, the calls they make of the server take effect one after the other, and each is
answered as the abstract server answers it after the ones before, if conversations are read
under separated names and there are numbers for the groups. -/
theorem served_right (ho : Occurs env names disk h)
    (hfew : (callsIn h.2).countP ServerCall.createsGroup < 2 ^ 64)
    (hsep : ∀ x y, .getConversation x y ∈ callsIn h.2 → Separated x y) : Answered h :=
  (ho.served (guarded hfew hsep)).2

/-- Alice has greeted Bob, and Bob reads it. -/
theorem served_right_greeting : Answered (Env.reference.run Env.names Env.noFiles
    (greeting ++ [.call ⟨1, .getConversation (str "alice")⟩])).hist := by
  refine served_right (.nested _) (by decide +kernel) fun x y hmem => ?_
  have hread : ((callsIn (Env.reference.run Env.names Env.noFiles
      (greeting ++ [.call ⟨1, .getConversation (str "alice")⟩])).hist.2).all fun q =>
        match q with
        | .getConversation x y => decide (58 ∉ x) && decide (58 ∉ y)
        | _ => true) = true := by decide +kernel
  have hcolons := List.all_eq_true.mp hread _ hmem
  rw [Bool.and_eq_true, decide_eq_true_eq, decide_eq_true_eq] at hcolons
  exact separated_of_notMem hcolons.1 hcolons.2

end Evlampy
