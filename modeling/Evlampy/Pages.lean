/-
Evlampy/Pages.lean

The rest of the Qt window of `main_gui.cpp`: its two pages, the form of the first, the list
of chats of the second, and what the buttons do.  A `Messenger` is the whole window, with the
clients and the server that belong to it.  It begins with an empty server, and the user acts.

Qt emits `itemSelectionChanged` while the list of chats is cleared and while another item
becomes current, and it does not say which item is current then.  That is left open:
`Desktop.selectionRow` is any function.

An exception that leaves a slot ends the program.  Layout, focus and scrolling are left out.
-/
import Evlampy.Members
import Evlampy.Window
import Mathlib.Data.Nat.Digits.Defs
import Mathlib.Logic.Function.Iterate

namespace Evlampy

open Cxx Callback

/-! ### Widgets -/

/-- With the values `Qt::UserRole` and `Qt::UserRole + 1`. -/
structure QListWidgetItem where
  text : QString
  userRole : ChatKind
  userRole1 : QString
  deriving DecidableEq

/-- A list, and where its cursor is. -/
structure QListWidget where
  items : List QListWidgetItem
  /-- The row of the current item, or -1. -/
  currentRow : Int

/-- `currentItem()`, null if there is none. -/
def QListWidget.currentItem (l : QListWidget) : Option QListWidgetItem :=
  if 0 ≤ l.currentRow then l.items[l.currentRow.toNat]? else none

/-! ### The window -/

namespace MessengerMainWindow

/-- What `notify` of a client does to the window, if that stands among its observers so many
times. -/
def notified (qt : Qt) (attached : ClientId → Nat) (notice : Notice) (world : World)
    (w : MessengerMainWindow) : MessengerMainWindow :=
  (fun w => w.onNotify qt world notice.event)^[attached notice.receiver] w

end MessengerMainWindow

/-- What the window runs on. -/
structure Desktop where
  env : Env
  qt : Qt
  /-- The files at the start. -/
  disk : Str → Option Str
  /-- The client that `clients_` holds for a name, from the first use of the name on. -/
  ensureClient : Str → ClientId
  names : ClientId → Str
  names_ensureClient : ∀ name, names (ensureClient name) = name
  /-- When the selection in the list of chats changes for the `n`-th time: the row of the item
  that is current then, if there is one and `itemSelectionChanged` is emitted. -/
  selectionRow : Nat → Option Nat

/-- The pages of the stack. -/
inductive Page
  | auth
  | chat
  deriving DecidableEq

/-- The window with both of its pages. -/
structure Messenger where
  gui : Gui
  page : Page
  authUsername : QLineEdit
  authPassword : QLineEdit
  authHint : QString
  currentUserLabel : QString
  chatList : QListWidget
  /-- How often the window stands among the observers of a client. -/
  attached : ClientId → Nat
  /-- Title and text of the message boxes that have been shown. -/
  boxes : List (QString × QString)
  /-- How often the selection in the list of chats has changed. -/
  changes : Nat

/-- The names a function has returned. -/
def Value.list : Value → List Str
  | .names list => list
  | _ => []

/-- The group id a function has returned. -/
def Value.group : Value → Option Str
  | .groupId id => id
  | _ => none

namespace Qt

variable (qt : Qt)

/-- The item of a contact. -/
def contactItem (contact : Str) : QListWidgetItem :=
  ⟨qt.fromStdString contact, .direct, qt.fromStdString contact⟩

/-- The item of a group. -/
def groupItem (s : ChatServer) (gid : Str) : QListWidgetItem :=
  let groupName := qt.fromStdString (s.getGroupName gid)
  let title :=
    if groupName = [] then qt.fromStdString gid
    else groupName ++ qstr " (" ++ qt.fromStdString gid ++ qstr ")"
  ⟨title, .group, qt.fromStdString gid⟩

end Qt

namespace Messenger

variable (d : Desktop) (m : Messenger)

/-- The window as the constructor leaves it. -/
def new : Messenger where
  gui := ⟨d.env.run d.names d.disk [], .new⟩
  page := .auth
  authUsername := .clear
  authPassword := .clear
  authHint := []
  currentUserLabel := qstr "Not logged in"
  chatList := ⟨[], -1⟩
  attached := fun _ => 0
  boxes := []
  changes := 0

/-- The client whose user is logged in. -/
def currentClient : Option ClientId := m.gui.window.currentClient

/-! ### Small changes -/

/-- The same with other parts of the message list. -/
def withWindow (w : MessengerMainWindow) : Messenger := { m with gui := m.gui.withWindow w }

/-- What the status label says. -/
def setStatus (text : Str) (error : Bool) : Messenger :=
  m.withWindow (m.gui.window.setStatus d.qt text error)

/-- Report to the user, and return. -/
def report (text : String) (error : Bool) : Except Exn Messenger :=
  .ok (m.setStatus d (str text) error)

/-- `QMessageBox::warning`, and return. -/
def warning (title text : String) : Except Exn Messenger :=
  .ok { m with boxes := m.boxes ++ [(qstr title, qstr text)] }

/-- The window is added to the observers of a client once more. -/
def attach (c : ClientId) : Messenger :=
  { m with attached := Function.update m.attached c (m.attached c + 1) }

/-- All attachments of the window end. -/
def detach (c : ClientId) : Messenger := { m with attached := Function.update m.attached c 0 }

/-- The two members that say which chat is selected. -/
def withChat (kind : ChatKind) (id : Str) : Messenger :=
  m.withWindow { m.gui.window with selectedChatKind := kind, selectedChatId := id }

/-- Behind the items that are there. -/
def addItems (items : List QListWidgetItem) : Messenger :=
  { m with chatList := { m.chatList with items := m.chatList.items ++ items } }

/-- The page of the form. -/
def showAuthPage : Messenger := { m with page := .auth }

/-- The label says who is logged in, if somebody is. -/
def showChatPage : Messenger :=
  match m.currentClient with
  | none => { m with page := .chat }
  | some c => { m with
      page := .chat
      currentUserLabel := qstr "Logged in as " ++
        d.qt.fromStdString (m.gui.cfg.hist.1.clients c).username }

/-! ### Functions that may throw -/

/-- What a function of the message list has done. -/
def onGui (r : Except Exn Gui) : Except Exn Messenger := do
  let gui ← r
  return { m with gui := gui }

/-- Call a function of the client `c`. -/
def call (c : ClientId) (op : Op) : Except Exn (Value × Messenger) := do
  let (v, gui) ← m.gui.call d.env d.qt c op
  return (v, { m with gui := gui })

/-- As for the message list alone. -/
def refreshMessages : Except Exn Messenger := m.onGui (m.gui.refreshMessages d.env d.qt)

/-- The slot of `itemSelectionChanged`, if it runs. -/
def itemSelectionChanged : Except Exn Messenger :=
  let m' := { m with changes := m.changes + 1 }
  match (d.selectionRow m.changes).bind fun row => m.chatList.items[row]? with
  | none => .ok m'
  | some item => (m'.withChat item.userRole (d.qt.toStdString item.userRole1)).refreshMessages d

/-- `chatList_->clear()`. -/
def clearChatList : Except Exn Messenger := do
  let m ← m.itemSelectionChanged d
  return { m with chatList := ⟨[], -1⟩ }

/-- The item in this row becomes the current one. -/
def setCurrentRow (row : Nat) : Except Exn Messenger := do
  let m ← m.itemSelectionChanged d
  return { m with chatList := { m.chatList with currentRow := row } }

/-- The window leaves the client it was attached to, if any, and the list of chats is emptied. -/
def switchCurrentUser (name : Str) : Except Exn Messenger :=
  let m := match m.currentClient with
    | none => m
    | some c => m.detach c
  let c := d.ensureClient name
  let m := m.attach c
  (m.withWindow (m.gui.window.switchCurrentUser c)).clearChatList d

/-- Contacts first, then groups; if there is no current item, the first becomes it. -/
def refreshChatList : Except Exn Messenger := do
  let m ← m.clearChatList d
  match m.currentClient with
  | none => return m
  | some c => do
      let (contacts, m) ← m.call d c .listContacts
      let m := m.addItems (contacts.list.map d.qt.contactItem)
      let (groups, m) ← m.call d c .listGroups
      let m := m.addItems (groups.list.map (d.qt.groupItem m.gui.cfg.hist.1.server))
      if m.chatList.items ≠ [] ∧ m.chatList.currentItem = none then m.setCurrentRow d 0
      else return m

/-- The loop and the end of `selectDirectChat` and `selectGroupChat`: the first item of the
chat becomes current. -/
def selectChat (kind : ChatKind) (id : Str) : Except Exn Messenger := do
  let m := m.withChat kind id
  let m ← match m.chatList.items.findIdx? fun item =>
      item.userRole = kind ∧ d.qt.toStdString item.userRole1 = id with
    | none => pure m
    | some row => m.setCurrentRow d row
  m.refreshMessages d

/-- A chat with one peer. -/
def selectDirectChat (peer : Str) : Except Exn Messenger := m.selectChat d .direct peer

/-- A chat of a group. -/
def selectGroupChat (gid : Str) : Except Exn Messenger := m.selectChat d .group gid

/-! ### Buttons -/

/-- The name is trimmed, the password is not. -/
def registerButton : Except Exn Messenger :=
  let u := d.qt.toStdString (d.qt.trimmed m.authUsername.text)
  let p := d.qt.toStdString m.authPassword.text
  if u = [] ∨ p = [] then m.report d "Username/password required" true
  else do
    let (ok, m) ← m.call d (d.ensureClient u) (.registerOnServer p)
    if ok.isTrue = false then m.report d "Registration failed" true
    else
      return { m.setStatus d (str "Registered: " ++ u) false with
        authHint := qstr "Registration successful. You can now log in." }

/-- What is opened is the client of the name, which may have been made for an earlier visit. -/
def loginButton : Except Exn Messenger :=
  let u := d.qt.toStdString (d.qt.trimmed m.authUsername.text)
  let p := d.qt.toStdString m.authPassword.text
  if u = [] ∨ p = [] then m.report d "Username/password required" true
  else do
    let (ok, m) ← m.call d (d.ensureClient u) (.login p)
    if ok.isTrue = false then
      m.report d "Login failed. Check password or register first." true
    else do
      let m ← m.switchCurrentUser d u
      let m ← (m.showChatPage d).refreshChatList d
      return m.setStatus d (str "Logged in as " ++ u) false

/-- The first statement of the logout button. -/
def leave : Except Exn Messenger :=
  match m.currentClient with
  | none => .ok m
  | some c => do
      let (_, m) ← (m.detach c).call d c .logout
      return m.withWindow { m.gui.window with currentClient := none }

/-- The chat is left before the list is emptied, and the slot of the list may select one again. -/
def logoutButton : Except Exn Messenger := do
  let m ← m.leave d
  let m := m.withWindow { Gui.cleared m.gui.window with selectedChatId := [] }
  let m ← m.clearChatList d
  m.showAuthPage.report d "Logged out" false

/-- Both lists. -/
def refreshButton : Except Exn Messenger := do
  let m ← m.refreshChatList d
  m.refreshMessages d

/-- `answer` is what the user enters, unless the dialog is cancelled. -/
def newChatButton (answer : Option QString) : Except Exn Messenger :=
  match m.currentClient, answer with
  | none, _ => m.report d "Login first" true
  | some _, none => .ok m
  | some c, some peer =>
      if peer = [] then .ok m
      else do
        let (ok, m) ← m.call d c (.addContact (d.qt.toStdString peer))
        -- a contact that is there already cannot be added either
        if ok.isTrue = false then m.warning "New chat" "User does not exist"
        else do
          let m ← m.refreshChatList d
          let m ← m.selectDirectChat d (d.qt.toStdString peer)
          return m.setStatus d (str "Chat opened with " ++ d.qt.toStdString peer) false

/-- `answer` is what the user enters as name and as members, unless the dialog is cancelled. -/
def createGroupButton (answer : Option (QLineEdit × QLineEdit)) : Except Exn Messenger :=
  match m.currentClient, answer with
  | none, _ => m.report d "Login first" true
  | some _, none => .ok m
  | some c, some (nameEdit, membersEdit) =>
      let groupName := d.qt.toStdString (d.qt.trimmed nameEdit.text)
      if groupName = [] then m.warning "Create group" "Group name required"
      else do
        let members := d.qt.splitMembers membersEdit.text
        let (groupId, m) ← m.call d c (.createGroup groupName members)
        match groupId.group with
        | none => m.warning "Create group" "Failed"
        | some gid => do
            let m ← m.refreshChatList d
            let m ← m.selectGroupChat d gid
            return m.setStatus d (str "Group created: " ++ groupName) false

/-! ### What the user does -/

/-- One action.  The first four are on the page `auth`, the others on the page `chat`. -/
inductive UserAction
  | typeUsername (input : QLineEdit)
  | typePassword (input : QLineEdit)
  | register
  | login
  | logout
  | refresh
  | newChat (answer : Option QString)
  | createGroup (answer : Option (QLineEdit × QLineEdit))
  /-- With the mouse or with the keys. -/
  | selectItem (row : Nat)
  | edit (input : QLineEdit)
  | sendCurrentMessage
  | setCurrent (row : Int)
  | deleteSelectedMessage

/-- The page with the widget the action needs. -/
def UserAction.page : UserAction → Page
  | typeUsername _ | typePassword _ | register | login => .auth
  | _ => .chat

/-- What the action sets off, on the page that has its widget. -/
def perform : UserAction → Except Exn Messenger
  | .typeUsername input => .ok { m with authUsername := input }
  | .typePassword input => .ok { m with authPassword := input }
  | .register => m.registerButton d
  | .login => m.loginButton d
  | .logout => m.logoutButton d
  | .refresh => m.refreshButton d
  | .newChat answer => m.newChatButton d answer
  | .createGroup answer => m.createGroupButton d answer
  | .selectItem row => m.setCurrentRow d row
  | .edit input => m.onGui (m.gui.act d.env d.qt (.edit input))
  | .sendCurrentMessage => m.onGui (m.gui.act d.env d.qt .sendCurrentMessage)
  | .setCurrent row => m.onGui (m.gui.act d.env d.qt (.setCurrent row))
  | .deleteSelectedMessage => m.onGui (m.gui.act d.env d.qt .deleteSelectedMessage)

/-- What is on a hidden page cannot be used. -/
def act (a : UserAction) : Except Exn Messenger :=
  if a.page = m.page then m.perform d a else .ok m

/-- One action after another, as long as none throws. -/
def run (actions : List UserAction) : Except Exn Messenger :=
  actions.foldlM (fun m a => m.act d a) (.new d)

theorem run_append_singleton (actions : List UserAction) (a : UserAction) :
    run d (actions ++ [a]) = run d actions >>= fun m => m.act d a := by
  rw [run, List.foldlM_append]
  show (run d actions >>= fun m => (m.act d a >>= pure)) = _
  simp only [bind_pure]

/-- What holds at first, and after every action that returns, holds after a run. -/
theorem run_gives {I : List UserAction → Messenger → Prop} (hnew : I [] (.new d))
    (hact : ∀ done a m, run d done = .ok m → I done m → Gives (m.act d a) (I (done ++ [a])))
    (actions : List UserAction) : Gives (run d actions) (I actions) := by
  induction actions using List.reverseRecOn with
  | nil => exact gives_ok.mpr hnew
  | append_singleton done a ih =>
      rw [run_append_singleton]
      exact gives_bind.mpr fun m hm => hact done a m hm (ih m hm)

end Messenger

/-! ### A desktop -/

namespace Desktop

/-- The client of a name: its bytes as digits. -/
def clientOf (name : Str) : ClientId := Nat.ofDigits 257 (name.map fun b => b.toNat + 1)

/-- The digits read back. -/
def nameOf (c : ClientId) : Str := (Nat.digits 257 c).map fun k => UInt8.ofNat (k - 1)

theorem nameOf_clientOf (name : Str) : nameOf (clientOf name) = name := by
  have hdigits : Nat.digits 257 (clientOf name) = name.map fun b => b.toNat + 1 := by
    refine Nat.digits_ofDigits 257 (by decide) _ (fun k hk => ?_) fun hne => ?_
    · obtain ⟨b, -, rfl⟩ := List.mem_map.mp hk
      have hb := b.toNat_lt
      omega
    · obtain ⟨b, -, hb⟩ := List.mem_map.mp (List.getLast_mem hne)
      omega
  rw [nameOf, hdigits, List.map_map]
  refine (List.map_congr_left fun b _ => ?_).trans (List.map_id name)
  exact UInt8.ofNat_toNat

/-- The library calls and the files of `Env.reference`, and a list of chats whose first item
is always current. -/
def reference (env : Env) : Desktop where
  env := env
  qt := Qt.reference
  disk := fun _ => none
  names := nameOf
  ensureClient := clientOf
  names_ensureClient := nameOf_clientOf
  selectionRow := fun _ => some 0

end Desktop

end Evlampy
