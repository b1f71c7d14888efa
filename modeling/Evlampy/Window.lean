/-
Evlampy/Window.lean

The Qt window of `main_gui.cpp`, as far as it shows and changes messages: the list
`messages_` and the table beside it, the selected chat, and the functions that touch
them.  A `Gui` is the window together with the system of clients and server it acts on;
its functions return the new one, or throw what the client throws.

The window is an observer of its current client only.  While it calls a client, the
client's notices reach `onNotify`.

The list of chats, scrolling and focus are left out.  Row numbers are not bounded.
-/
import Evlampy.ChatClient
import Evlampy.Listener
import Evlampy.Qt

namespace Evlampy

open Cxx Callback

/-! ### Widgets -/

/-- A `QLineEdit` holds at most 32767 characters. -/
structure QLineEdit where
  text : QString
  length_le : text.length ≤ 32767

/-- Without text. -/
def QLineEdit.clear : QLineEdit := ⟨[], Nat.zero_le _⟩

/-- A text and how it looks. -/
structure QLabel where
  text : QString
  styleSheet : QString

/-- With the two values `Qt::UserRole` and `Qt::UserRole + 1`. -/
structure QTableWidgetItem where
  text : QString
  userRole : QString
  userRole1 : QString
  deriving DecidableEq

/-- A table with one column. -/
structure QTableWidget where
  rows : List (Option QTableWidgetItem)
  /-- The row of the current item, or -1. -/
  currentRow : Int

namespace QTableWidget

variable (t : QTableWidget)

/-- `rowCount()`, an `int`. -/
def rowCount : Int := t.rows.length

/-- The rows stay, without items. -/
def clearContents : QTableWidget := { t with rows := t.rows.map fun _ => none }

/-- Rows are cut off or added at the end. -/
def setRowCount (n : Nat) : QTableWidget where
  rows := t.rows.take n ++ List.replicate (n - t.rows.length) none
  currentRow := if t.currentRow < n then t.currentRow else -1

/-- Null for an empty cell, and for a row that is not there. -/
def item (row : Int) : Option QTableWidgetItem :=
  if 0 ≤ row then t.rows[row.toNat]?.join else none

/-- Rows that are not there cannot be set. -/
def setItem (row : Int) (item : QTableWidgetItem) : QTableWidget :=
  if 0 ≤ row then { t with rows := t.rows.set row.toNat (some item) } else t

/-- The current item stays the current one. -/
def insertRow (row : Int) : QTableWidget :=
  if 0 ≤ row ∧ row ≤ t.rowCount then
    ⟨t.rows.insertIdx row.toNat none,
      if row ≤ t.currentRow then t.currentRow + 1 else t.currentRow⟩
  else t

/-- If the row was the current one, the next is, or the one before. -/
def removeRow (row : Int) : QTableWidget :=
  if 0 ≤ row ∧ row < t.rowCount then
    ⟨t.rows.eraseIdx row.toNat,
      if t.currentRow < row then t.currentRow
      else if row < t.currentRow then t.currentRow - 1
      else if row < t.rowCount - 1 then row
      else t.rowCount - 2⟩
  else t

/-- A row that is not there is not selected. -/
def selectRow (row : Int) : QTableWidget :=
  if 0 ≤ row ∧ row < t.rowCount then { t with currentRow := row } else t

@[simp] theorem rows_selectRow (row : Int) : (t.selectRow row).rows = t.rows := by
  unfold selectRow
  split <;> rfl

/-- Which row is selected makes no difference to the rows. -/
theorem rows_ite_selectRow {p : Prop} [Decidable p] (row : Int) :
    (if p then t.selectRow row else t).rows = t.rows := by
  split
  · rw [rows_selectRow]
  · rfl

@[simp] theorem rows_setRowCount_zero : (t.setRowCount 0).rows = [] := by
  rw [setRowCount, List.take_zero, List.nil_append, Nat.zero_sub, List.replicate_zero]

theorem rows_setRowCount {n : Nat} (h : t.rows = []) :
    (t.setRowCount n).rows = List.replicate n none := by
  rw [setRowCount, h, List.take_nil, List.nil_append, List.length_nil, Nat.sub_zero]

@[simp] theorem item_natCast (n : Nat) : t.item n = t.rows[n]?.join := by
  rw [item, if_pos (Int.natCast_nonneg n), Int.toNat_natCast]

@[simp] theorem rows_setItem (n : Nat) (item : QTableWidgetItem) :
    (t.setItem n item).rows = t.rows.set n (some item) := by
  rw [setItem, if_pos (Int.natCast_nonneg n), Int.toNat_natCast]

/-- A new row at the end. -/
theorem rows_append (item : QTableWidgetItem) :
    ((t.insertRow t.rowCount).setItem t.rowCount item).rows = t.rows ++ [some item] := by
  have hinsert : (t.insertRow t.rowCount).rows = t.rows ++ [none] := by
    rw [insertRow, if_pos ⟨Int.natCast_nonneg _, le_rfl⟩, rowCount, Int.toNat_natCast,
      List.insertIdx_length_self]
  rw [rowCount, rows_setItem, ← rowCount, hinsert]
  simp

theorem rows_removeRow {n : Nat} (h : n < t.rows.length) :
    (t.removeRow n).rows = t.rows.eraseIdx n := by
  rw [removeRow, if_pos ⟨Int.natCast_nonneg n, Int.ofNat_lt.mpr h⟩, Int.toNat_natCast]

end QTableWidget

/-! ### The window -/

/-- `enum class ChatKind`. -/
inductive ChatKind
  | direct
  | group
  deriving DecidableEq

/-- What the message list is made of, and what it depends on.  The clock is numbered by its
readings. -/
structure MessengerMainWindow where
  currentClient : Option ClientId
  selectedChatId : Str
  selectedChatKind : ChatKind
  messages : List MessageView
  messageTable : QTableWidget
  messageInput : QLineEdit
  activeChatLabel : QLabel
  statusLabel : QLabel
  /-- How often the clock has been read. -/
  readings : Nat

/-- Empty for an id no group has. -/
def ChatServer.getGroupName (s : ChatServer) (groupId : Str) : Str :=
  match s.groups.lookup groupId with
  | none => []
  | some group => group.groupName

namespace Qt

variable (qt : Qt)

/-- A status that is none of the three is `unknown`. -/
def statusToText (s : MessageStatus) : QString :=
  if s = .sent then qstr "sent"
  else if s = .delivered then qstr "delivered"
  else if s = .read then qstr "read"
  else qstr "unknown"

/-- The line of a message: when, from whom, to whom or where, how far it got, and what it says. -/
def formatMessage (msg : MessageView) : QString :=
  let time := qt.timeText msg.timestamp
  let chatLabel :=
    if msg.isGroupMessage then qt.fromStdString msg.chatId else qt.fromStdString msg.toUser
  qstr "[" ++ time ++ qstr "] " ++ qt.fromStdString msg.fromUser ++ qstr " -> " ++ chatLabel ++
    qstr " | " ++ statusToText msg.status ++ qstr " | " ++ qt.fromStdString msg.text

/-- The item that shows a message. -/
def messageItem (msg : MessageView) : QTableWidgetItem :=
  ⟨qt.formatMessage msg, qt.fromStdString msg.messageId, qt.fromStdString msg.fromUser⟩

end Qt

namespace MessengerMainWindow

variable (qt : Qt) (w : MessengerMainWindow)

/-- The window as the constructor leaves it. -/
def new : MessengerMainWindow where
  currentClient := none
  selectedChatId := []
  selectedChatKind := .direct
  messages := []
  messageTable := ⟨[], -1⟩
  messageInput := .clear
  activeChatLabel := ⟨qstr "Select a chat or create a new one", qstr "font-weight: 600;"⟩
  statusLabel := ⟨qstr "Welcome", qstr "color: #2b7a0b;"⟩
  readings := 0

/-- Red for an error, green otherwise. -/
def setStatus (text : Str) (error : Bool) : MessengerMainWindow :=
  { w with statusLabel := ⟨qt.fromStdString text,
      if error then qstr "color: #b00020;" else qstr "color: #2b7a0b;"⟩ }

/-- The user logs in: the window detaches from the client it was attached to, and attaches
to the new one. -/
def switchCurrentUser (c : ClientId) : MessengerMainWindow :=
  { w with
    currentClient := some c
    selectedChatId := []
    messages := []
    messageTable := w.messageTable.clearContents.setRowCount 0 }

/-- Append a message to the list and to the table. -/
def append (newMsg : MessageView) : MessengerMainWindow :=
  let row := w.messageTable.rowCount
  { w with
    messages := w.messages ++ [newMsg]
    messageTable := (w.messageTable.insertRow row).setItem row (qt.messageItem newMsg) }

/-- An event belongs to the selected chat. -/
def isRelevant (event : DecryptedMessageEvent) : Bool :=
  if event.isGroupMessage ∧ w.selectedChatKind = .group ∧ w.selectedChatId = event.chatId then true
  else !event.isGroupMessage && w.selectedChatKind = .direct && w.selectedChatId = event.fromUser

/-- The message is shown as sent, at the time of this clock. -/
def onNotify (world : World) (event : DecryptedMessageEvent) : MessengerMainWindow :=
  match w.currentClient with
  | none => w
  | some c =>
      if w.isRelevant event then
        { w.append qt {
            messageId := event.messageId
            fromUser := event.fromUser
            toUser := if event.isGroupMessage then [] else (world.clients c).username
            chatId := event.chatId
            text := event.text
            timestamp := qt.currentMSecsSinceEpoch w.readings
            status := .sent
            isGroupMessage := event.isGroupMessage
            deletedForAll := false } with
          readings := w.readings + 1 }
      else w

/-- A notice reaches the window if it is for the observers of its current client. -/
def react (notice : Notice) (world : World) (w : MessengerMainWindow) : MessengerMainWindow :=
  if w.currentClient = some notice.receiver then w.onNotify qt world notice.event else w

end MessengerMainWindow

/-! ### The window and the system -/

/-- The window, and the clients and the server it acts on. -/
structure Gui where
  cfg : Configuration
  window : MessengerMainWindow

/-- What a function that returns a `bool` has returned. -/
def Value.isTrue : Value → Bool
  | .bool b => b
  | _ => false

/-- What a function that returns messages has returned. -/
def Value.messages : Value → List MessageView
  | .views list => list
  | _ => []

namespace Gui

variable (env : Env) (qt : Qt) (g : Gui)

/-- Call a function of the client `c`. -/
def call (c : ClientId) (op : Op) : Except Exn (Value × Gui) :=
  let i := g.cfg.next
  let r := env.system.attend (MessengerMainWindow.react qt) i (Call.body env ⟨c, op⟩)
    (env.system.push g.cfg.hist i (.called ⟨c, op⟩)) g.window
  match r.1 with
  | .error x => .error x
  | .ok v => .ok (v, ⟨⟨env.system.push r.2.1 i (.returned r.1), g.cfg.stack, i + 1⟩, r.2.2⟩)

/-- The same system with another window. -/
def withWindow (w : MessengerMainWindow) : Gui := { g with window := w }

/-- Report to the user, and return. -/
def report (text : String) (error : Bool) : Except Exn Gui :=
  .ok (g.withWindow (g.window.setStatus qt (str text) error))

/-- The loop of `refreshMessages`: fill row `i`, and note the row of the message that was
selected. -/
def fillRow (selectedId : QString) : QTableWidget × Int → MessageView × Nat → QTableWidget × Int
  | (table, newSelectedRow), (msg, i) =>
      (table.setItem i (qt.messageItem msg),
        if selectedId ≠ [] ∧ msg.messageId = qt.toStdString selectedId then i else newSelectedRow)

/-- The id of the selected message. -/
def selectedId (t : QTableWidget) : QString :=
  if 0 ≤ t.currentRow ∧ t.currentRow < t.rowCount then
    match t.item t.currentRow with
    | none => []
    | some item => item.userRole
  else []

/-- Show the messages in the list and in the table. -/
def showMessages (selectedId : QString) (msgs : List MessageView) (w : MessengerMainWindow) :
    MessengerMainWindow :=
  let r := msgs.zipIdx.foldl (fillRow qt selectedId) (w.messageTable.setRowCount msgs.length, -1)
  { w with
    messages := msgs
    messageTable := if 0 ≤ r.2 then r.1.selectRow r.2 else r.1 }

/-- The heading over the messages. -/
def chatTitle (s : ChatServer) (kind : ChatKind) (id : Str) : QString :=
  match kind with
  | .direct => qstr "Direct chat with " ++ qt.fromStdString id
  | .group =>
      let groupName := qt.fromStdString (s.getGroupName id)
      if groupName = [] then qstr "Group " ++ qt.fromStdString id
      else groupName ++ qstr " (" ++ qt.fromStdString id ++ qstr ")"

/-- The window with another heading. -/
def titled (text : QString) (w : MessengerMainWindow) : MessengerMainWindow :=
  { w with activeChatLabel := { w.activeChatLabel with text := text } }

/-- The window without messages. -/
def cleared (w : MessengerMainWindow) : MessengerMainWindow :=
  { w with messageTable := w.messageTable.clearContents.setRowCount 0, messages := [] }

/-- The call that reads a chat. -/
def readChat (kind : ChatKind) (id : Str) : Op :=
  match kind with
  | .direct => .getConversation id
  | .group => .getGroupConversation id

/-- The call that sends to a chat. -/
def sendToChat (kind : ChatKind) (id text : Str) : Op :=
  match kind with
  | .direct => .sendMessage id text
  | .group => .sendGroupMessage id text

/-- Everything is read again; the message that was selected is selected again, if it is there. -/
def refreshMessages : Except Exn Gui :=
  let selected := selectedId g.window.messageTable
  let w := cleared g.window
  match w.currentClient with
  | none =>
      let w := titled (qstr "Select a chat or create a new one") w
      if w.selectedChatId = [] then .ok (g.withWindow w)
      else
        let table := (w.messageTable.setRowCount 1).setItem 0
          ⟨qstr "Select a chat to see messages.", [], []⟩
        .ok (g.withWindow { w with messageTable := table })
  | some c =>
      if w.selectedChatId = [] then
        .ok (g.withWindow (titled (qstr "Select a chat or create a new one") w))
      else do
        let (v, g) ← (g.withWindow w).call env qt c (readChat w.selectedChatKind w.selectedChatId)
        let w := showMessages qt selected v.messages g.window
        .ok (g.withWindow (titled
          (chatTitle qt g.cfg.hist.1.server w.selectedChatKind w.selectedChatId) w))

/-- What has been sent is shown at once, under an id of its own. -/
def sendCurrentMessage : Except Exn Gui :=
  match g.window.currentClient with
  | none => g.report qt "Login first" true
  | some c =>
      let text := qt.trimmed g.window.messageInput.text
      if text = [] then g.report qt "Message is empty" true
      else if g.window.selectedChatId = [] then g.report qt "Select a chat first" true
      else do
        let (ok, g) ← g.call env qt c
          (sendToChat g.window.selectedChatKind g.window.selectedChatId (qt.toStdString text))
        if ok.isTrue = false then g.report qt "Send failed" true
        else
          let w := g.window
          let newMsg : MessageView := {
            messageId := str "temp_" ++ Digits.signed (qt.currentMSecsSinceEpoch w.readings).toInt
            fromUser := (g.cfg.hist.1.clients c).username
            toUser := if w.selectedChatKind = .direct then w.selectedChatId else []
            chatId := w.selectedChatId
            text := qt.toStdString text
            timestamp := qt.currentMSecsSinceEpoch (w.readings + 1)
            status := .sent
            isGroupMessage := w.selectedChatKind = .group
            deletedForAll := false }
          let w := { w.append qt newMsg with readings := w.readings + 2, messageInput := .clear }
          (g.withWindow w).report qt "Message sent" false

/-- An entry with an id of its own is not on the server. -/
def deleteSelectedMessage : Except Exn Gui :=
  match g.window.currentClient with
  | none => g.report qt "Login first" true
  | some c =>
      let row := g.window.messageTable.currentRow
      if row < 0 ∨ g.window.messageTable.rowCount ≤ row then
        g.report qt "Select a message first" true
      else
        match g.window.messageTable.item row with
        | none => .ok g
        | some item =>
            let msgId := qt.toStdString item.userRole
            if msgId = [] ∨ msgId.take 5 = str "temp_" then
              g.report qt "Cannot delete temporary message" true
            else do
              let (ok, g) ← g.call env qt c (.deleteMessageForAll msgId)
              if ok.isTrue = false then g.report qt "Delete failed" true
              else
                let messages := g.window.messages.eraseP fun msg => msg.messageId = msgId
                let table := g.window.messageTable.removeRow row
                -- the next row is selected, or the one before
                let row := if table.rowCount ≤ row then table.rowCount - 1 else row
                let table := if 0 ≤ row then table.selectRow row else table
                let w := { g.window with messages := messages, messageTable := table }
                (g.withWindow w).report qt "Message deleted for all" false

/-! ### What the user does -/

/-- One action.  `edit` is typing into the input field and `setCurrent` clicking into the
table. -/
inductive Action
  | selectChat (kind : ChatKind) (id : Str)
  | sendCurrentMessage
  | deleteSelectedMessage
  | refreshMessages
  | edit (input : QLineEdit)
  | setCurrent (row : Int)

/-- An action of the user, if it does not throw. -/
def act : Action → Except Exn Gui
  | .selectChat kind id =>
      let w := { g.window with selectedChatKind := kind, selectedChatId := id }
      (g.withWindow w).refreshMessages env qt
  | .sendCurrentMessage => g.sendCurrentMessage env qt
  | .deleteSelectedMessage => g.deleteSelectedMessage env qt
  | .refreshMessages => g.refreshMessages env qt
  | .edit input => .ok (g.withWindow { g.window with messageInput := input })
  | .setCurrent row =>
      .ok (g.withWindow { g.window with
        messageTable := { g.window.messageTable with currentRow := row } })

/-- One action after another, as long as none throws. -/
def runActions : Gui → List Action → Except Exn Gui
  | g, [] => .ok g
  | g, a :: as => do
      let g ← g.act env qt a
      runActions g as

end Gui

end Evlampy
