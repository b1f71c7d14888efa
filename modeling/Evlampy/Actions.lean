/-
Evlampy/Actions.lean

What each public function of a client may do: `Footprint c op e` says that the
program of `op`, called on the client `c`, may perform the action `e`.  The
programs stay inside their footprints whatever the answers are
(`body_allActs`), and only the two sending functions notify anyone.

An invariant that all actions of a footprint preserve is preserved by the
function, and a whole run changes a member of a client only by that client's
own calls (`step_other_client`).

`ServerCall.Change` says what each call of the server may do to its state; what
the calls leave alone is read off there.
-/
import Evlampy.ChatClient

namespace Evlampy

open Cxx Callback Prog

/-! ### What the server does -/

namespace ServerCall

/-- What a call of the server does to its state, with the conditions it has
checked. -/
inductive Change (s : ChatServer) : ServerCall → ChatServer → Prop
  | nothing (q : ServerCall) : Change s q s
  | user (u hash pem : Str) (free : u ∉ s.users) :
      Change s (.registerUser u hash pem) { s with users := s.users.insert u ⟨hash, pem, ∅⟩ }
  | contactAdded (owner contact : Str) (record : UserRecord)
      (old : s.users.lookup owner = some record) (known : contact ∈ s.users)
      (new : contact ∉ record.contacts) :
      Change s (.addContact owner contact) { s with
        users := s.users.insert owner
          { record with contacts := insert contact record.contacts } }
  | contactRemoved (owner contact : Str) (record : UserRecord)
      (old : s.users.lookup owner = some record) (mem : contact ∈ record.contacts) :
      Change s (.removeContact owner contact) { s with
        users := s.users.insert owner
          { record with contacts := record.contacts.erase contact } }
  | group (owner groupName : Str) (members : List Str) (record : GroupRecord)
      (known : owner ∈ s.users) (owned : record.owner = owner)
      (member : ∀ u, u ∈ record.members ↔ u = owner ∨ (u ∈ members ∧ u ∈ s.users)) :
      Change s (.createGroup owner groupName members) { s with
        groups := (UnorderedMap.emplace
          (ChatServer.makeGroupId s.nextGroupId groupName) record s.groups).2
        nextGroupId := s.nextGroupId + 1 }
  | stored (m : Message) : Change s (.storeMessage m) (s.storeMessage m)
  | deleted (requester messageId : Str) :
      Change s (.deleteMessageForAll requester messageId)
        (s.deleteMessageForAll requester messageId).2

/-- Every call of the server makes one of these changes. -/
theorem exec_change (q : ServerCall) (s : ChatServer) : Change s q (q.exec s).2 := by
  cases q with
  | registerUser u hash pem =>
      show Change s _ (s.registerUser u hash pem).2
      unfold ChatServer.registerUser
      split
      · exact .nothing _
      · next hu => exact .user u hash pem hu
  | addContact owner contact =>
      show Change s _ (s.addContact owner contact).2
      unfold ChatServer.addContact
      split
      · next record _ ho hc =>
        split
        · exact .nothing _
        · next hnew =>
          have hknown : contact ∈ s.users := AList.lookup_isSome.mp (by rw [hc]; rfl)
          exact .contactAdded owner contact record ho hknown hnew
      · exact .nothing _
  | removeContact owner contact =>
      show Change s _ (s.removeContact owner contact).2
      unfold ChatServer.removeContact
      split
      · exact .nothing _
      · next record ho =>
        split
        · next hmem => exact .contactRemoved owner contact record ho hmem
        · exact .nothing _
  | createGroup owner groupName members =>
      show Change s _ (s.createGroup owner groupName members).2
      unfold ChatServer.createGroup
      split
      · next ho =>
        refine .group owner groupName members _ ho rfl fun u => ?_
        simp only [Finset.mem_insert, List.mem_toFinset, List.mem_filter, decide_eq_true_eq]
      · exact .nothing _
  | storeMessage m => exact .stored m
  | deleteMessageForAll requester messageId => exact .deleted requester messageId
  | _ => exact .nothing _

variable {q : ServerCall} {s s' : ChatServer}

/-- No call of the server touches the table of online users. -/
theorem Change.transport (h : Change s q s') : s'.transport = s.transport := by
  cases h with
  | stored m => exact s.storeMessage_transport m
  | _ => rfl

/-- An account is never removed, and only its contacts change. -/
theorem Change.users_of_some (h : Change s q s') {u : Str} {record : UserRecord}
    (hu : s.users.lookup u = some record) :
    ∃ contacts, s'.users.lookup u = some { record with contacts := contacts } := by
  cases h with
  | user v hash pem free =>
      have hne : u ≠ v := by
        rintro rfl
        rw [AList.lookup_eq_none.mpr free] at hu
        cases hu
      exact ⟨record.contacts, (AList.lookup_insert_ne hne).trans hu⟩
  | contactAdded owner contact record' old known new =>
      rcases eq_or_ne u owner with rfl | hne
      · cases old.symm.trans hu
        exact ⟨_, AList.lookup_insert _⟩
      · exact ⟨record.contacts, (AList.lookup_insert_ne hne).trans hu⟩
  | contactRemoved owner contact record' old mem =>
      rcases eq_or_ne u owner with rfl | hne
      · cases old.symm.trans hu
        exact ⟨_, AList.lookup_insert _⟩
      · exact ⟨record.contacts, (AList.lookup_insert_ne hne).trans hu⟩
  | stored m =>
      rw [ChatServer.storeMessage_users]
      exact ⟨record.contacts, hu⟩
  | _ => exact ⟨record.contacts, hu⟩

/-- Groups are never changed or removed. -/
theorem Change.groups_of_some (h : Change s q s') {g : Str} {record : GroupRecord}
    (hg : s.groups.lookup g = some record) : s'.groups.lookup g = some record := by
  cases h with
  | group owner groupName members record' known owned member =>
      exact UnorderedMap.lookup_emplace_of_some hg
  | stored m =>
      rw [ChatServer.storeMessage_groups]
      exact hg
  | _ => exact hg

end ServerCall

/-! ### Footprints -/

/-- Actions of `registerOnServer`. -/
def RegisterActs (c : ClientId) : Eff → Prop
  | .get _ => True
  | .draw _ => True
  | .server (.registerUser ..) => True
  | .file (.createDirectories _) => True
  | .file (.write ..) => True
  | .assign d (.keyPair _) => d = c
  | .assign d (.registered _) => d = c
  | _ => False

/-- Actions of `login`. -/
def LoginActs (c : ClientId) : Eff → Prop
  | .get _ => True
  | .draw _ => True
  | .server (.authenticate ..) => True
  | .file (.read _) => True
  | .tcp (.connectClient _ d) => d = c
  | .assign d (.privateKeyPem _) => d = c
  | .assign d (.publicKeyPem _) => d = c
  | .assign d (.transport _) => d = c
  | .assign d (.loggedIn _) => d = c
  | .assign d (.registered _) => d = c
  | _ => False

/-- Actions of `logout`. -/
def LogoutActs (c : ClientId) : Eff → Prop
  | .get _ => True
  | .tcp (.disconnectClient _) => True
  | .assign d (.transport _) => d = c
  | .assign d (.loggedIn _) => d = c
  | _ => False

/-- Actions of a send, in the sender and in the receivers it calls. -/
def SendActs : Eff → Prop
  | .get _ => True
  | .draw _ => True
  | .server (.getPublicKey _) => True
  | .server (.getGroupMembers _) => True
  | .server (.storeMessage _) => True
  | .tcp (.findHandler _) => True
  | .invoke .. => True
  | _ => False

/-- Actions of the transport of a message, in the sender and in the receiver. -/
def TransportActs : Eff → Prop
  | .get _ => True
  | .draw _ => True
  | .tcp (.findHandler _) => True
  | .invoke .. => True
  | _ => False

/-- Actions of the remaining functions: at most one call of the server. -/
def DirectoryActs : Eff → Prop
  | .get _ => True
  | .draw _ => True
  | .server (.deleteMessageForAll ..) => True
  | .server .listUsers => True
  | .server (.listContacts _) => True
  | .server (.addContact ..) => True
  | .server (.removeContact ..) => True
  | .server (.createGroup ..) => True
  | .server (.listGroups _) => True
  | .server (.getConversation ..) => True
  | .server (.getGroupConversation _) => True
  | _ => False

/-- The actions an operation may perform. -/
def Footprint (c : ClientId) : Op → Eff → Prop
  | .registerOnServer _ => RegisterActs c
  | .login _ => LoginActs c
  | .logout => LogoutActs c
  | .sendMessage .. => SendActs
  | .sendGroupMessage .. => SendActs
  | _ => DirectoryActs

/-- The operations that notify observers. -/
def Op.Sends : Op → Prop
  | .sendMessage .. => True
  | .sendGroupMessage .. => True
  | _ => False

/-! ### The programs stay inside -/

namespace ChatClient

variable (env : Env) (c : ClientId) {V : Notice → Prop}

/-- `saveKeyPairToDisk` reads the members of the client and writes files. -/
theorem saveKeyPairToDisk_allActs {P : Eff → Prop} (hget : P (.get c))
    (hcreate : ∀ path, P (.file (.createDirectories path)))
    (hwrite : ∀ path text, P (.file (.write path text))) :
    (saveKeyPairToDisk env c).AllActs P V := by
  unfold saveKeyPairToDisk
  cases env.home with
  | none => trivial
  | some homeDir =>
      refine .act_bind (hcreate _) fun created => ?_
      cases created with
      | false => trivial
      | true =>
          exact .act_bind hget fun self => .act_bind (hwrite _ _) fun _ =>
            allActs_act.mpr (hwrite _ _)

theorem registerOnServer_allActs (rawPassword : Str) :
    (registerOnServer env c rawPassword).AllActs (RegisterActs c) V := by
  refine .act_bind trivial fun self => ?_
  split
  · trivial
  · refine .act_bind trivial fun n => (allActs_ofExcept _).bind fun keyPair =>
      .act_bind rfl fun _ => (allActs_ofExcept _).bind fun passwordHash =>
      .act_bind trivial fun registered => .act_bind rfl fun _ => ?_
    split
    · exact (saveKeyPairToDisk_allActs env c trivial (fun _ => trivial)
        (fun _ _ => trivial)).bind fun _ => trivial
    · trivial

theorem loadKeyPairFromDisk_allActs : (loadKeyPairFromDisk env c).AllActs (LoginActs c) V := by
  unfold loadKeyPairFromDisk
  cases env.home with
  | none => trivial
  | some homeDir =>
      refine .act_bind trivial fun self => .act_bind trivial fun priv => ?_
      rcases priv with - | privateKeyPem
      · trivial
      · refine .act_bind rfl fun _ => .act_bind trivial fun pub => ?_
        rcases pub with - | publicKeyPem
        · trivial
        · exact .act_bind rfl fun _ => trivial

theorem connect_allActs (username : Str) : (connect c username).AllActs (LoginActs c) V := by
  refine .act_bind trivial fun self => ?_
  split
  · trivial
  · refine .act_bind rfl fun ok => ?_
    cases ok with
    | false => trivial
    | true => exact .act_bind rfl fun _ => trivial

theorem login_allActs (rawPassword : Str) :
    (login env c rawPassword).AllActs (LoginActs c) V := by
  refine .act_bind trivial fun self => ?_
  split
  · trivial
  · refine .act_bind trivial fun n => (allActs_ofExcept _).bind fun passwordHash =>
      .act_bind trivial fun authenticated => ?_
    cases authenticated with
    | false => trivial
    | true =>
        refine (loadKeyPairFromDisk_allActs env c).bind fun loaded => ?_
        cases loaded with
        | false => trivial
        | true =>
            refine (connect_allActs c _).bind fun connected => .act_bind rfl fun _ => ?_
            cases connected with
            | false => trivial
            | true => exact .act_bind rfl fun _ => trivial

theorem logout_allActs : (logout c).AllActs (LogoutActs c) V := by
  apply AllActs.bind
  · refine .act_bind trivial fun self => ?_
    split
    · exact .act_bind trivial fun _ => allActs_act.mpr rfl
    · trivial
  · exact fun _ => allActs_act.mpr rfl

/-- `handleIncoming` reads the members of the client, draws, and notifies the
observers of this client. -/
theorem handleIncoming_allActs {P : Eff → Prop} (hget : ∀ d, P (.get d)) (hdraw : ∀ n, P (.draw n))
    (hnote : ∀ event, V ⟨c, event⟩) (fromUser payload : Str) :
    (handleIncoming env c fromUser payload).AllActs P V := by
  apply AllActs.tryCatch
  · exact .act_bind (hget c) fun self => .act_bind (hdraw 1) fun n =>
      (allActs_ofExcept _).bind fun r => allActs_notify.mpr (hnote _)
  · intro x
    cases x <;> trivial

theorem send_allActs (toUser payload : Str) :
    (send env c toUser payload).AllActs TransportActs (fun _ => True) := by
  refine .act_bind trivial fun self => ?_
  split
  · refine .act_bind trivial fun handler => ?_
    rcases handler with - | receiver
    · trivial
    · exact .act_bind trivial fun _ =>
        (handleIncoming_allActs env receiver (fun _ => trivial) (fun _ => trivial)
          (fun _ => trivial) _ payload).bind fun _ => trivial
  · trivial

theorem sendActs_of_transportActs {e : Eff} (he : TransportActs e) : SendActs e := by
  cases e with
  | server q => exact he.elim
  | file q => exact he.elim
  | assign d u => exact he.elim
  | tcp q => cases q <;> trivial
  | _ => trivial

theorem deliver_allActs (toUser : Str) (message : Message) :
    (deliver env c toUser message).AllActs SendActs (fun _ => True) := by
  apply (allActs_ofExcept _).bind
  intro wire
  apply AllActs.bind
  · exact (send_allActs env c toUser wire).mono (fun _ => sendActs_of_transportActs) fun _ => id
  · exact fun _ => allActs_act.mpr trivial

theorem sendMessage_allActs (toUser plaintext : Str) :
    (sendMessage env c toUser plaintext).AllActs SendActs (fun _ => True) := by
  refine .act_bind trivial fun self => ?_
  split
  · refine .act_bind trivial fun receiverPublicKey => ?_
    split
    · trivial
    · exact .act_bind trivial fun n => (allActs_ofExcept _).bind fun message =>
        (deliver_allActs env c toUser message).bind fun _ => trivial
  · trivial

theorem sendCopies_allActs (self : ChatClient) (groupId : Str)
    (sessionKey encryptedPayload : Bytes) (members : List Str) (anySent : Bool) :
    (sendCopies env c self groupId sessionKey encryptedPayload members anySent).AllActs
      SendActs (fun _ => True) := by
  induction members generalizing anySent with
  | nil => trivial
  | cons member members ih =>
      refine .act_bind trivial fun receiverPublicKey => ?_
      split
      · exact ih anySent
      · exact .act_bind trivial fun n => (allActs_ofExcept _).bind fun message =>
          (deliver_allActs env c member message).bind fun _ => ih true

theorem sendGroupMessage_allActs (groupId plaintext : Str) :
    (sendGroupMessage env c groupId plaintext).AllActs SendActs (fun _ => True) := by
  refine .act_bind trivial fun self => ?_
  split
  · refine .act_bind trivial fun members => ?_
    split
    · trivial
    · exact .act_bind trivial fun n => (allActs_ofExcept _).bind fun r =>
        sendCopies_allActs env c self groupId r.1 r.2 members false
  · trivial

/-- Reading messages only draws. -/
theorem viewsOf_allActs {P : Eff → Prop} (hdraw : ∀ n, P (.draw n)) (self : ChatClient)
    (messages : List Message) (out : List MessageView) :
    (viewsOf env self messages out).AllActs P V := by
  induction messages generalizing out with
  | nil => trivial
  | cons message messages ih =>
      exact .act_bind (hdraw 1) fun n => (allActs_ofExcept _).bind fun view => ih _

end ChatClient

open ChatClient

/-- **Footprints.**  A call performs only actions of its footprint, and notifies
observers only if it sends. -/
theorem body_allActs (env : Env) (q : Call) :
    (q.body env).AllActs (Footprint q.client q.op) (fun _ => q.op.Sends) := by
  obtain ⟨c, op⟩ := q
  cases op with
  | registerOnServer rawPassword =>
      exact (registerOnServer_allActs env c rawPassword).bind fun _ => trivial
  | login rawPassword => exact (login_allActs env c rawPassword).bind fun _ => trivial
  | logout => exact (logout_allActs c).bind fun _ => trivial
  | sendMessage toUser plaintext =>
      exact (sendMessage_allActs env c toUser plaintext).bind fun _ => trivial
  | sendGroupMessage groupId plaintext =>
      exact (sendGroupMessage_allActs env c groupId plaintext).bind fun _ => trivial
  | deleteMessageForAll messageId =>
      refine (AllActs.act_bind trivial fun self => ?_).bind fun _ => trivial
      split
      · trivial
      · exact allActs_act.mpr trivial
  | listUsers => exact ⟨trivial, fun _ => trivial⟩
  | listContacts => exact ⟨trivial, fun _ => ⟨trivial, fun _ => trivial⟩⟩
  | addContact contact => exact ⟨trivial, fun _ => ⟨trivial, fun _ => trivial⟩⟩
  | removeContact contact => exact ⟨trivial, fun _ => ⟨trivial, fun _ => trivial⟩⟩
  | createGroup groupName members => exact ⟨trivial, fun _ => ⟨trivial, fun _ => trivial⟩⟩
  | listGroups => exact ⟨trivial, fun _ => ⟨trivial, fun _ => trivial⟩⟩
  | getConversation peer =>
      exact ⟨trivial, fun self => ⟨trivial, fun messages =>
        (viewsOf_allActs env (fun _ => trivial) self messages []).bind fun _ => trivial⟩⟩
  | getGroupConversation groupId =>
      exact ⟨trivial, fun self => ⟨trivial, fun messages =>
        (viewsOf_allActs env (fun _ => trivial) self _ []).bind fun _ => trivial⟩⟩
  | username => exact ⟨trivial, fun _ => trivial⟩
  | isLoggedIn => exact ⟨trivial, fun _ => trivial⟩

/-- An action changes no members but those of the client it assigns to. -/
theorem exec_clients_of_footprint {env : Env} {c d : ClientId} (hd : d ≠ c) {op : Op} {e : Eff}
    {w : World} (he : Footprint c op e) : (e.exec env w).2.clients d = w.clients d := by
  cases e with
  | assign c' u =>
      have hc : c' = c := by
        cases op with
        | registerOnServer _ => cases u <;> first | exact he | exact he.elim
        | login _ => cases u <;> first | exact he | exact he.elim
        | logout => cases u <;> first | exact he | exact he.elim
        | _ => exact he.elim
      subst hc
      show (if d = c' then _ else _) = _
      rw [if_neg hd]
  | _ => rfl

/-- **Frame.**  A call changes the members of no other client. -/
theorem step_other_client (env : Env) (cfg : Configuration) (q : Call) {d : ClientId} (hd : d ≠ q.client) :
    (env.system.step cfg (.call q)).hist.1.clients d = cfg.hist.1.clients d := by
  refine System.advance_of_allActs (S := fun w : World => w.clients d = cfg.hist.1.clients d) ?_
    (body_allActs env q) rfl
  intro e w he hw
  exact (exec_clients_of_footprint hd he).trans hw

end Evlampy
