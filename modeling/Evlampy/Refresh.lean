/-
Evlampy/Refresh.lean

The message list of the Qt window after a full refresh.  A refresh reads the selected
chat from the server, and fills the list and the table beside it.

`InStep` says that the list shows the messages of the chat one by one, each as the
client would read it now, and that the table shows the list.  A list that is in step
agrees with a refresh (`InStep.agrees`), and a refresh leaves the list in step.  Between
refreshes an entry may stand for its message under another id, that of a `temporary`
entry.
-/
import Evlampy.Agreement
import Evlampy.Guards
import Evlampy.Listener
import Evlampy.Window

namespace Evlampy

open Cxx Callback Prog System ChatServer ChatClient

variable {env : Env} {qt : Qt} {names : ClientId → Str} {disk : Str → Option Str} {g g' : Gui}
  {w w' : MessengerMainWindow} {h h' : History} {i : Nat} {c : ClientId} {m : Message}

/-! ### The table beside the list -/

namespace MessengerMainWindow

/-- Row `i` of the table shows message `i` of the list. -/
def Tabled (qt : Qt) (w : MessengerMainWindow) : Prop :=
  w.messageTable.rows = w.messages.map fun msg => some (qt.messageItem msg)

theorem Tabled.append (ht : w.Tabled qt) (msg : MessageView) : (w.append qt msg).Tabled qt := by
  rw [Tabled, MessengerMainWindow.append, QTableWidget.rows_append, ht, List.map_append]
  rfl

/-- The windows show the same messages of the same chat. -/
structure Same (w w' : MessengerMainWindow) : Prop where
  currentClient : w'.currentClient = w.currentClient
  selectedChatId : w'.selectedChatId = w.selectedChatId
  selectedChatKind : w'.selectedChatKind = w.selectedChatKind
  messages : w'.messages = w.messages
  rows : w'.messageTable.rows = w.messageTable.rows

end MessengerMainWindow

/-- The loop fills the table from the row it starts with. -/
theorem rows_fillRow (qt : Qt) (selectedId : QString) (msgs : List MessageView) (t : QTableWidget)
    (row : Int) (done : List (Option QTableWidgetItem))
    (ht : t.rows = done ++ List.replicate msgs.length none) :
    ((msgs.zipIdx done.length).foldl (Gui.fillRow qt selectedId) (t, row)).1.rows
      = done ++ msgs.map fun msg => some (qt.messageItem msg) := by
  induction msgs generalizing t row done with
  | nil => exact ht
  | cons msg msgs ih =>
      rw [List.length_cons, List.replicate_succ] at ht
      rw [List.zipIdx_cons, List.foldl_cons, Gui.fillRow]
      have hrows : (t.setItem done.length (qt.messageItem msg)).rows
          = (done ++ [some (qt.messageItem msg)]) ++ List.replicate msgs.length none := by
        rw [QTableWidget.rows_setItem, ht]
        simp
      have hlen : done.length + 1 = (done ++ [some (qt.messageItem msg)]).length := by simp
      rw [hlen, ih _ _ _ hrows, List.append_assoc]
      rfl

theorem tabled_showMessages (qt : Qt) (selectedId : QString) (msgs : List MessageView)
    (hw : w.messageTable.rows = []) : (Gui.showMessages qt selectedId msgs w).Tabled qt := by
  have hrows := rows_fillRow qt selectedId msgs (w.messageTable.setRowCount msgs.length) (-1) []
    (QTableWidget.rows_setRowCount _ hw)
  rw [MessengerMainWindow.Tabled, Gui.showMessages]
  exact (QTableWidget.rows_ite_selectRow _ _).trans hrows

/-! ### Reading the chat -/

/-- What the list shows of a message. -/
def MessageView.shown (view : MessageView) : Str × Str := (view.fromUser, view.text)

/-- The messages of the chat that the user `u` has selected. -/
def ChatServer.chatMessages (s : ChatServer) (u : Str) (kind : ChatKind) (id : Str) :
    List Message :=
  if id = [] then []
  else match kind with
    | .direct => s.getConversation u id
    | .group => (s.getGroupConversation id).filter fun message => message.receiver = u

/-- The ids of the entries a send leaves in the list. -/
def temporary (id : Str) : Prop := ∃ z : Int, id = str "temp_" ++ Digits.signed z

/-- The client reads the message at any time, and to what the list shows. -/
structure ShownAs (env : Env) (client : ChatClient) (m : Message) (view : MessageView) : Prop where
  reads : ∀ n, ∃ view', decryptToView env client n m = .ok view' ∧ view'.shown = view.shown
  id : view.messageId = m.messageId ∨ temporary view.messageId

theorem OpenSSL.Steady.decryptToView_eq (hs : env.ssl.Steady) (self : ChatClient) (n n' : Nat)
    (m : Message) : decryptToView env self n m = decryptToView env self n' m := by
  unfold decryptToView
  simp only [hs.decryptWithPrivateKey_eq n n', hs.decrypt_eq n n']

theorem messageId_of_decryptToView {self : ChatClient} {n : Nat} {view : MessageView}
    (hv : decryptToView env self n m = .ok view) : view.messageId = m.messageId := by
  simp only [decryptToView, bind_eq_ok] at hv
  obtain ⟨sessionKey, -, text, -, hv⟩ := hv
  cases hv
  rfl

/-- What has been read can be read again. -/
theorem shownAs_of_readAll (hs : env.ssl.Steady) {self : ChatClient} {n : Nat}
    {messages : List Message} {views : List MessageView}
    (hr : readAll env self n messages = .ok views) :
    List.Forall₂ (ShownAs env self) messages views := by
  induction messages generalizing n views with
  | nil =>
      cases hr
      exact .nil
  | cons m messages ih =>
      rw [readAll] at hr
      split at hr
      · cases hr
      · next view hview =>
        rcases hrest : readAll env self (n + 1) messages with x | rest
        · rw [hrest] at hr
          cases hr
        · rw [hrest] at hr
          cases hr
          refine .cons ⟨fun n' => ⟨view, ?_, rfl⟩, Or.inl (messageId_of_decryptToView hview)⟩
            (ih hrest)
          rw [hs.decryptToView_eq self n' n, hview]

/-- What is shown of every message is what a refresh reads. -/
theorem readAll_of_shownAs {self : ChatClient} {messages : List Message} {views : List MessageView}
    (hshown : List.Forall₂ (ShownAs env self) messages views) (n : Nat) :
    ∃ views', readAll env self n messages = .ok views' ∧
      views'.map MessageView.shown = views.map MessageView.shown := by
  induction hshown generalizing n with
  | nil => exact ⟨[], rfl, rfl⟩
  | @cons m view messages views hm _ ih =>
      obtain ⟨view', hview', hshown'⟩ := hm.reads n
      obtain ⟨rest, hrest, hmap⟩ := ih (n + 1)
      refine ⟨view' :: rest, ?_, ?_⟩
      · rw [readAll, hview', hrest]
        rfl
      · rw [List.map_cons, List.map_cons, hshown', hmap]

theorem attended_viewsOf {ω : Type} {react : Notice → World → ω → ω} {x : ω} (self : ChatClient)
    (messages : List Message) :
    env.system.attended react i
      (viewsOf env self messages [] >>= fun views => (pure (.views views) : Code Value))
      (fun r h' y => r = (readAll env self h.1.draws messages).map .views ∧
        h'.1.server = h.1.server ∧ h'.1.clients = h.1.clients ∧ y = x) h x := by
  have hreads : env.system.attended react i
      (viewsOf env self messages [] >>= fun views => (pure (.views views) : Code Value))
      (fun r h' y => (h'.1.server = h.1.server ∧
        r = (readAll env self h.1.draws messages).map .views) ∧ y = x) h x := by
    refine attended_of_wp (J := fun _ => True) (wp_bind_pure.mpr (wp_mono (fun r h' hr => ?_)
      (wp_viewsOf messages [])))
    obtain ⟨hserver, rfl⟩ := hr
    refine ⟨hserver, ?_⟩
    rcases readAll env self h.1.draws messages with e | views
    · rfl
    · rfl
  have hclients : env.system.attended react i
      (viewsOf env self messages [] >>= fun views => (pure (.views views) : Code Value))
      (fun _ h' y => h'.1.clients = h.1.clients ∧ y = x) h x := by
    have hacts : (viewsOf env self messages [] >>= fun views =>
        (pure (.views views) : Code Value)).AllActs (fun e => ∃ n, e = Eff.draw n) fun _ => False :=
      (viewsOf_allActs env (fun n => ⟨n, rfl⟩) self messages []).bind fun _ => trivial
    refine attended_of_wp (J := fun _ => True)
      (wp_of_allActs ?_ (fun _ _ hn _ => hn.elim) hacts rfl)
    rintro e h1 ⟨n, rfl⟩ hc
    exact hc
  exact ⟨hreads.1.2, hreads.1.1, hclients.1, hreads.2⟩

/-- Reading the selected chat shows its messages and changes nothing. -/
theorem attended_readChat {ω : Type} {react : Notice → World → ω → ω} {x : ω} (kind : ChatKind)
    {id : Str} (hid : id ≠ []) :
    env.system.attended react i (Call.body env ⟨c, Gui.readChat kind id⟩)
      (fun r h' y => (∃ n, r = (readAll env (h.1.clients c) n
          (h.1.server.chatMessages (h.1.clients c).username kind id)).map .views) ∧
        h'.1.server = h.1.server ∧ h'.1.clients = h.1.clients ∧ y = x) h x := by
  have hread : ∀ messages, h.1.server.chatMessages (h.1.clients c).username kind id = messages →
      ∀ h2 : History, h2.1 = h.1 → env.system.attended react i
        (viewsOf env (h.1.clients c) messages [] >>=
          fun views => (pure (.views views) : Code Value))
        (fun r h' y => (∃ n, r = (readAll env (h.1.clients c) n
            (h.1.server.chatMessages (h.1.clients c).username kind id)).map .views) ∧
          h'.1.server = h.1.server ∧ h'.1.clients = h.1.clients ∧ y = x) h2 x := by
    rintro messages rfl h2 hh2
    refine attended_mono (fun r h' y hr => ?_) (attended_viewsOf _ _)
    rw [hh2] at hr
    exact ⟨⟨_, hr.1⟩, hr.2⟩
  cases kind with
  | direct =>
      refine attended_step fun self h1 hself hh1 =>
        attended_step fun messages h2 hmessages hh2 => ?_
      obtain rfl : self = h.1.clients c := hself
      refine hread messages ?_ h2 (by rw [hh2, hh1]; rfl)
      rw [hmessages, hh1]
      exact if_neg hid
  | group =>
      refine attended_step fun self h1 hself hh1 =>
        attended_step fun messages h2 hmessages hh2 => ?_
      obtain rfl : self = h.1.clients c := hself
      refine hread _ ?_ h2 (by rw [hh2, hh1]; rfl)
      rw [hmessages, hh1]
      exact if_neg hid

/-! ### Calls of the window -/

namespace Gui

/-- What holds of a call that has returned. -/
theorem call_spec {op : Op} {v : Value}
    {post : Except Exn Value → History → MessengerMainWindow → Prop}
    (hcall : g.call env qt c op = .ok (v, g'))
    (hp : env.system.attended (MessengerMainWindow.react qt) g.cfg.next (Call.body env ⟨c, op⟩) post
      (env.system.push g.cfg.hist g.cfg.next (.called ⟨c, op⟩)) g.window) :
    ∃ h', post (.ok v) h' g'.window ∧ g'.cfg.hist.1 = h'.1 := by
  unfold call at hcall
  simp only [] at hcall
  split at hcall
  · cases hcall
  · next v' hv =>
    cases hcall
    unfold System.attended at hp
    rw [hv] at hp
    exact ⟨_, hp, rfl⟩

/-- A call that does not throw returns. -/
theorem exists_call {op : Op} {post : Except Exn Value → History → MessengerMainWindow → Prop}
    (hp : env.system.attended (MessengerMainWindow.react qt) g.cfg.next (Call.body env ⟨c, op⟩) post
      (env.system.push g.cfg.hist g.cfg.next (.called ⟨c, op⟩)) g.window)
    (hok : ∀ r h y, post r h y → ∃ v, r = .ok v) : ∃ v g', g.call env qt c op = .ok (v, g') := by
  obtain ⟨v, hv⟩ := hok _ _ _ hp
  unfold call
  simp only [hv]
  exact ⟨v, _, rfl⟩

/-- After a call the system is in a state of a run. -/
theorem reached_call {op : Op} {v : Value} (hreached : ∃ ms, g.cfg = env.run names disk ms)
    (hcall : g.call env qt c op = .ok (v, g')) : ∃ ms, g'.cfg = env.run names disk ms := by
  obtain ⟨ms, hms⟩ := hreached
  unfold call at hcall
  simp only [] at hcall
  split at hcall
  · cases hcall
  · next v' hv =>
    cases hcall
    obtain ⟨k, hk⟩ := run_of_attend env.system (MessengerMainWindow.react qt) g.cfg.next
      (Call.body env ⟨c, op⟩) g.cfg.stack (g.cfg.next + 1)
      (env.system.push g.cfg.hist g.cfg.next (.called ⟨c, op⟩)) g.window
    refine ⟨ms ++ .call ⟨c, op⟩ :: List.replicate k (.answer (.ok ())), ?_⟩
    rw [Env.run, System.run, List.foldl_append, List.foldl_cons]
    show _ = (List.replicate k (.answer (.ok ()))).foldl env.system.step
      (env.system.step (env.run names disk ms) (.call ⟨c, op⟩))
    rw [← hms]
    exact hk.symm

end Gui

/-- The window shows the chats of the client `c`, which is logged in, in a state of a run. -/
structure Serves (env : Env) (names : ClientId → Str) (disk : Str → Option Str) (c : ClientId)
    (g : Gui) : Prop where
  reached : ∃ ms, g.cfg = env.run names disk ms
  loggedIn : (g.cfg.hist.1.clients c).loggedIn = true
  current : g.window.currentClient = some c

/-- The messages of the selected chat. -/
def Gui.chat (g : Gui) (c : ClientId) : List Message :=
  g.cfg.hist.1.server.chatMessages (g.cfg.hist.1.clients c).username g.window.selectedChatKind
    g.window.selectedChatId

/-- The list shows the messages of the selected chat, and the table shows the list. -/
structure InStep (env : Env) (qt : Qt) (names : ClientId → Str) (disk : Str → Option Str)
    (c : ClientId) (g : Gui) : Prop extends Serves env names disk c g where
  tabled : g.window.Tabled qt
  list : List.Forall₂ (ShownAs env (g.cfg.hist.1.clients c)) (g.chat c) g.window.messages

theorem Serves.congr (hs : Serves env names disk c g) (hcfg : g'.cfg = g.cfg)
    (hc : g'.window.currentClient = g.window.currentClient) : Serves env names disk c g' := by
  refine ⟨?_, ?_, hc.trans hs.current⟩
  · rw [hcfg]
    exact hs.reached
  · rw [hcfg]
    exact hs.loggedIn

theorem Gui.chat_congr (hcfg : g'.cfg = g.cfg) (hsame : g.window.Same g'.window) :
    g'.chat c = g.chat c := by
  rw [Gui.chat, hcfg, hsame.selectedChatKind, hsame.selectedChatId]
  rfl

theorem InStep.congr (hg : InStep env qt names disk c g) (hcfg : g'.cfg = g.cfg)
    (hsame : g.window.Same g'.window) : InStep env qt names disk c g' := by
  refine ⟨hg.toServes.congr hcfg hsame.currentClient, ?_, ?_⟩
  · rw [MessengerMainWindow.Tabled, hsame.rows, hsame.messages]
    exact hg.tabled
  · rw [Gui.chat_congr hcfg hsame, hcfg, hsame.messages]
    exact hg.list

/-! ### Refreshing -/

namespace Gui

/-- Without a selected chat a refresh clears the list. -/
theorem refreshMessages_of_nil (hc : g.window.currentClient = some c)
    (hid : g.window.selectedChatId = []) : g.refreshMessages env qt = .ok (g.withWindow
      (titled (qstr "Select a chat or create a new one") (cleared g.window))) := by
  unfold refreshMessages
  have hc' : (cleared g.window).currentClient = some c := hc
  simp only [hc']
  exact if_pos hid

/-- Otherwise it reads the chat and shows what it has read. -/
theorem refreshMessages_eq (hc : g.window.currentClient = some c)
    (hid : g.window.selectedChatId ≠ []) : g.refreshMessages env qt =
      ((g.withWindow (cleared g.window)).call env qt c
        (readChat g.window.selectedChatKind g.window.selectedChatId)).bind fun r =>
          .ok (r.2.withWindow (titled
            (chatTitle qt r.2.cfg.hist.1.server r.2.window.selectedChatKind
              r.2.window.selectedChatId)
            (showMessages qt (selectedId g.window.messageTable) r.1.messages r.2.window))) := by
  unfold refreshMessages
  have hc' : (cleared g.window).currentClient = some c := hc
  simp only [hc']
  exact if_neg hid

/-- What a refresh has shown. -/
theorem refreshMessages_spec (hs : Serves env names disk c g)
    (hr : g.refreshMessages env qt = .ok g') :
    Serves env names disk c g' ∧ g'.window.Tabled qt ∧ g'.chat c = g.chat c ∧
      g'.cfg.hist.1.clients = g.cfg.hist.1.clients ∧
      ∃ n, readAll env (g.cfg.hist.1.clients c) n (g.chat c) = .ok g'.window.messages := by
  by_cases hid : g.window.selectedChatId = []
  · rw [refreshMessages_of_nil hs.current hid] at hr
    cases hr
    have hchat : g.chat c = [] := if_pos hid
    refine ⟨⟨hs.reached, hs.loggedIn, hs.current⟩, ?_, rfl, rfl, 0, ?_⟩
    · exact QTableWidget.rows_setRowCount_zero _
    · rw [hchat]
      rfl
  · rw [refreshMessages_eq hs.current hid] at hr
    obtain ⟨⟨v, g1⟩, hcall, hg'⟩ := bind_eq_ok.mp hr
    cases hg'
    -- reading calls no observer: the window stays cleared and the server as it was
    obtain ⟨h1, ⟨⟨n, hread⟩, hserver, hclients, hwindow⟩, hworld⟩ :=
      call_spec hcall (attended_readChat (c := c) g.window.selectedChatKind hid)
    replace hread : Except.ok v = (readAll env (g.cfg.hist.1.clients c) n (g.chat c)).map .views :=
      hread
    rcases hviews : readAll env (g.cfg.hist.1.clients c) n (g.chat c) with e | views
    · rw [hviews] at hread
      cases hread
    · rw [hviews] at hread
      cases hread
      have hsame : g1.cfg.hist.1.server = g.cfg.hist.1.server ∧
          g1.cfg.hist.1.clients = g.cfg.hist.1.clients := by
        rw [hworld]
        exact ⟨hserver, hclients⟩
      have hreached := reached_call (g := g.withWindow (cleared g.window)) hs.reached hcall
      refine ⟨⟨hreached, ?_, ?_⟩, ?_, ?_, hsame.2, n, ?_⟩
      · show (g1.cfg.hist.1.clients c).loggedIn = true
        rw [hsame.2]
        exact hs.loggedIn
      · show g1.window.currentClient = some c
        rw [hwindow]
        exact hs.current
      · refine tabled_showMessages qt _ views ?_
        rw [hwindow]
        exact QTableWidget.rows_setRowCount_zero _
      · show ChatServer.chatMessages g1.cfg.hist.1.server (g1.cfg.hist.1.clients c).username
          g1.window.selectedChatKind g1.window.selectedChatId = _
        rw [hwindow, hsame.1, hsame.2]
        rfl
      · exact hviews

/-- What has been refreshed is in step. -/
theorem inStep_refreshMessages (hsteady : env.ssl.Steady) (hs : Serves env names disk c g)
    (hr : g.refreshMessages env qt = .ok g') : InStep env qt names disk c g' := by
  obtain ⟨hserves, htabled, hchat, hclients, n, hread⟩ := refreshMessages_spec hs hr
  refine ⟨hserves, htabled, ?_⟩
  rw [hchat, hclients]
  exact shownAs_of_readAll hsteady hread

/-- A refresh would show the same list, and the table shows the list. -/
structure Agrees (env : Env) (qt : Qt) (g : Gui) : Prop where
  list : ∃ g', g.refreshMessages env qt = .ok g' ∧
    g.window.messages.map MessageView.shown = g'.window.messages.map MessageView.shown
  table : g.window.messageTable.rows
    = g.window.messages.map fun msg => some (qt.messageItem msg)

end Gui

theorem InStep.exists_refreshMessages (hg : InStep env qt names disk c g) :
    ∃ g', g.refreshMessages env qt = .ok g' := by
  by_cases hid : g.window.selectedChatId = []
  · exact ⟨_, Gui.refreshMessages_of_nil hg.current hid⟩
  · obtain ⟨v, g1, hcall⟩ : ∃ v g1, (g.withWindow (Gui.cleared g.window)).call env qt c
        (Gui.readChat g.window.selectedChatKind g.window.selectedChatId) = .ok (v, g1) := by
      refine Gui.exists_call (attended_readChat _ hid) ?_
      rintro r h y ⟨⟨n, rfl⟩, -⟩
      obtain ⟨views, hviews, -⟩ := readAll_of_shownAs hg.list n
      exact ⟨.views views, congrArg (Except.map Value.views) hviews⟩
    rw [Gui.refreshMessages_eq hg.current hid, hcall]
    exact ⟨_, rfl⟩

theorem InStep.agrees (hg : InStep env qt names disk c g) : g.Agrees env qt := by
  obtain ⟨g', hr⟩ := hg.exists_refreshMessages
  refine ⟨⟨g', hr, ?_⟩, hg.tabled⟩
  obtain ⟨-, -, -, -, n, hread⟩ := Gui.refreshMessages_spec hg.toServes hr
  obtain ⟨views, hviews, hmap⟩ := readAll_of_shownAs hg.list n
  rw [hread] at hviews
  cases hviews
  exact hmap.symm

/-- A list that agrees with a refresh is as long as the chat. -/
theorem Serves.length_of_agrees (hs : Serves env names disk c g) (ha : g.Agrees env qt) :
    g.window.messages.length = (g.chat c).length := by
  obtain ⟨g', hr, hmap⟩ := ha.list
  obtain ⟨-, -, -, -, n, hread⟩ := Gui.refreshMessages_spec hs hr
  have hlen := congrArg List.length hmap
  rw [List.length_map, List.length_map] at hlen
  rw [hlen, (readAll_eq_ok hread).1]

/-- What is assumed of the library and of Qt. -/
structure Reliable (env : Env) (qt : Qt) : Prop where
  base64 : env.ssl.base64.Documented
  inverts : env.ssl.Inverts (maxText + 1)
  sized : env.ssl.Sized
  steady : env.ssl.Steady
  qt : qt.Documented

/-- What is assumed of a state of a run: files work for the users on record, and no message id
has been generated twice. -/
structure Env.Regular (env : Env) (w : World) : Prop where
  files : env.FilesWork w.server.recorded
  freshIds : env.FreshIds w.draws

end Evlampy
