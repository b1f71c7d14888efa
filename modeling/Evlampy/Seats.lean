/-
Evlampy/Seats.lean

Who sits at the window.  The list of chats is read from the contacts and the groups of the user
who is logged in (`chats`); while only the messages are read, sent or deleted, it stays what it
is, and a chat is selected in it by one of its items (`Picks`).

What the buttons have to keep is stated here: the page with the chats is shown exactly if there
is a current client, it is the only one logged in, and the window stands once among its
observers (`Seated`); the list is up to date, and the selected chat is one of it (`Kept`).
Between two users nobody is logged in (`Vacant`).
-/
import Evlampy.Books
import Evlampy.Pages

namespace Evlampy

open Cxx Callback Prog System ChatClient

variable {env : Env} {qt : Qt} {g g' : Gui} {w w' : World} {h : History} {i : Nat} {c : ClientId}
  {op : Op} {ω : Type} {react : Notice → World → ω → ω} {x : ω}

/-! ### The pages -/

theorem SameBooks.groupItem_eq (hb : SameBooks w w') (qt : Qt) :
    qt.groupItem w'.server = qt.groupItem w.server := by
  funext gid
  unfold Qt.groupItem ChatServer.getGroupName
  rw [hb.groups]

namespace Messenger

variable {d : Desktop} {m m' : Messenger} {kind : ChatKind} {id : Str}

/-- The chats of a user, as the list shows them. -/
def listing (qt : Qt) (s : ChatServer) (u : Str) : List QListWidgetItem :=
  (s.listContacts u).map qt.contactItem ++ (s.listGroups u).map (qt.groupItem s)

/-- The chats of the user who is logged in. -/
def chats (d : Desktop) (m : Messenger) : List QListWidgetItem :=
  match m.currentClient with
  | none => []
  | some c => listing d.qt m.gui.cfg.hist.1.server (d.names c)

/-- The window is still on the same page with the same client. -/
structure Stays (d : Desktop) (m m' : Messenger) : Prop where
  gui : m.gui.Stays d.env m'.gui
  page : m'.page = m.page
  attached : m'.attached = m.attached
  label : m'.currentUserLabel = m.currentUserLabel

theorem Stays.trans {m'' : Messenger} (h : m.Stays d m') (h' : m'.Stays d m'') : m.Stays d m'' :=
  ⟨h.gui.trans h'.gui, h'.page.trans h.page, h'.attached.trans h.attached,
    h'.label.trans h.label⟩

/-- The books determine the list. -/
theorem listing_congr (hb : SameBooks w w') (qt : Qt) (u : Str) :
    listing qt w'.server u = listing qt w.server u := by
  rw [listing, hb.listContacts_eq, hb.listGroups_eq, hb.groupItem_eq, listing]

theorem Stays.chats_eq (h : m.Stays d m') : m'.chats d = m.chats d := by
  unfold chats
  rw [show m'.currentClient = m.currentClient from h.gui.currentClient]
  split
  · rfl
  · exact listing_congr h.gui.books d.qt _

/-- The item leads to this chat: it is the item of the chat, or the slot has read the chat
off it. -/
def LeadsTo (qt : Qt) (kind : ChatKind) (id : Str) (item : QListWidgetItem) : Prop :=
  item.userRole = kind ∧ (item.userRole1 = qt.fromStdString id ∨ id = qt.toStdString item.userRole1)

/-- The selected chat is still the same, or has been read off one of the items. -/
def Picks (d : Desktop) (m m' : Messenger) (items : List QListWidgetItem) : Prop :=
  m.gui.SameChat m'.gui ∨ ∃ item ∈ items,
    LeadsTo d.qt m'.gui.window.selectedChatKind m'.gui.window.selectedChatId item

theorem Picks.same {m'' : Messenger} {items : List QListWidgetItem} (h : m.Picks d m' items)
    (hsame : m'.gui.SameChat m''.gui) : m.Picks d m'' items := by
  rcases h with hsame' | ⟨item, hitem, hleads⟩
  · exact Or.inl (hsame'.trans hsame)
  · refine Or.inr ⟨item, hitem, ?_⟩
    rw [hsame.1, hsame.2]
    exact hleads

theorem Picks.trans {m'' : Messenger} {items items' : List QListWidgetItem}
    (h : m.Picks d m' items) (h' : m'.Picks d m'' items') : m.Picks d m'' (items ++ items') := by
  rcases h' with hsame | ⟨item, hitem, hleads⟩
  · exact (h.same hsame).imp_right fun ⟨item, hitem, hleads⟩ =>
      ⟨item, List.mem_append_left _ hitem, hleads⟩
  · exact Or.inr ⟨item, List.mem_append_right _ hitem, hleads⟩

/-! ### Functions of the window -/

theorem stays_refreshMessages : Gives (m.refreshMessages d) fun m' =>
    m.Stays d m' ∧ m'.chatList = m.chatList ∧ m.gui.SameChat m'.gui := by
  refine gives_bind.mpr (gives_mono (fun g hg => ?_) Gui.stays_refreshMessages)
  exact gives_ok.mpr ⟨⟨hg.1, rfl, rfl, rfl⟩, rfl, hg.2⟩

theorem stays_itemSelectionChanged : Gives (m.itemSelectionChanged d) fun m' =>
    m.Stays d m' ∧ m'.chatList = m.chatList ∧ m.Picks d m' m.chatList.items := by
  unfold itemSelectionChanged
  dsimp only
  split
  · exact gives_ok.mpr ⟨⟨.of_window rfl rfl, rfl, rfl, rfl⟩, rfl, Or.inl ⟨rfl, rfl⟩⟩
  · next item hitem =>
    obtain ⟨row, -, hrow⟩ := Option.bind_eq_some_iff.mp hitem
    refine gives_mono (fun m' hm' => ?_) stays_refreshMessages
    obtain ⟨hstays, hlist, hkind, hid⟩ := hm'
    have hpicked : m.Stays d ({ m with changes := m.changes + 1 }.withChat item.userRole
        (d.qt.toStdString item.userRole1)) := ⟨.of_window rfl rfl, rfl, rfl, rfl⟩
    exact ⟨hpicked.trans hstays, hlist,
      Or.inr ⟨item, List.mem_of_getElem? hrow, hkind.symm, Or.inr hid⟩⟩

theorem stays_clearChatList : Gives (m.clearChatList d) fun m' =>
    m.Stays d m' ∧ m'.chatList = ⟨[], -1⟩ ∧ m.Picks d m' m.chatList.items := by
  refine gives_bind.mpr (gives_mono (fun m1 hm1 => ?_) stays_itemSelectionChanged)
  exact gives_ok.mpr ⟨hm1.1.trans ⟨.of_window rfl rfl, rfl, rfl, rfl⟩, rfl, hm1.2.2⟩

theorem stays_setCurrentRow (row : Nat) : Gives (m.setCurrentRow d row) fun m' =>
    m.Stays d m' ∧ m'.chatList.items = m.chatList.items ∧ m.Picks d m' m.chatList.items := by
  refine gives_bind.mpr (gives_mono (fun m1 hm1 => ?_) stays_itemSelectionChanged)
  exact gives_ok.mpr ⟨hm1.1.trans ⟨.of_window rfl rfl, rfl, rfl, rfl⟩,
    (congrArg QListWidget.items hm1.2.1 :), hm1.2.2⟩

theorem stays_call (hop : op.Browses) (hc : m.currentClient = some c) :
    Gives (m.call d c op) fun r =>
      m.Stays d r.2 ∧ r.2.chatList = m.chatList ∧ m.gui.SameChat r.2.gui := by
  refine gives_bind.mpr (gives_mono (fun r hr => ?_) (Gui.stays_call hop hc))
  exact gives_ok.mpr ⟨⟨hr.1, rfl, rfl, rfl⟩, rfl, hr.2⟩

/-- What holds of a call, with the window as before apart from its first part. -/
theorem gives_call {P : Except Exn Value → World → MessengerMainWindow → Prop}
    (hp : d.env.system.attended (MessengerMainWindow.react d.qt) m.gui.cfg.next
      (Call.body d.env ⟨c, op⟩) (fun r h w => P r h.1 w)
      (d.env.system.push m.gui.cfg.hist m.gui.cfg.next (.called ⟨c, op⟩)) m.gui.window) :
    Gives (m.call d c op) fun r => ∃ g, r.2 = { m with gui := g } ∧
      P (.ok r.1) g.cfg.hist.1 g.window ∧ m.gui.Called d.env c g := by
  refine gives_bind.mpr (gives_mono (fun r hr => ?_) (Gui.gives_call hp))
  exact gives_ok.mpr ⟨r.2, rfl, hr⟩

/-- The state of the clients and the server is one of a run. -/
def Reached (d : Desktop) (m : Messenger) : Prop :=
  ∃ ms, m.gui.cfg = d.env.run d.names d.disk ms

theorem Reached.username (hr : m.Reached d) (c : ClientId) :
    (m.gui.cfg.hist.1.clients c).username = d.names c := by
  obtain ⟨ms, hms⟩ := hr
  rw [hms]
  exact named_run d.env d.names d.disk ms c

theorem Stays.reached (h : m.Stays d m') (hr : m.Reached d) : m'.Reached d := h.gui.reached hr

/-- A call that asks the server once. -/
theorem gives_ask (hr : m.Reached d) (q : Str → ServerCall) (f : ∀ u, (q u).Res → Value)
    (hop : Call.body d.env ⟨c, op⟩ = do
      let self ← Code.get c
      let r ← Code.server (q self.username)
      (pure (f self.username r) : Code Value)) :
    Gives (m.call d c op) fun r =>
      r.1 = f (d.names c) ((q (d.names c)).exec m.gui.cfg.hist.1.server).1 ∧
      ∃ g, r.2 = { m with gui := g } ∧
        ServedBy (q (d.names c)) m.gui.cfg.hist.1 g.cfg.hist.1 ∧ g.window = m.gui.window ∧
        m.gui.Called d.env c g := by
  refine gives_mono (fun r hr' => ?_) (gives_call (P := fun r w' window =>
    r = .ok (f (m.gui.cfg.hist.1.clients c).username
      ((q (m.gui.cfg.hist.1.clients c).username).exec m.gui.cfg.hist.1.server).1) ∧
    ServedBy (q (m.gui.cfg.hist.1.clients c).username) m.gui.cfg.hist.1 w' ∧
      window = m.gui.window) ?_)
  · obtain ⟨g, hg, ⟨hv, hserved, hwindow⟩, hcalled⟩ := hr'
    rw [hr.username] at hv hserved
    exact ⟨Except.ok.inj hv, g, hg, hserved, hwindow, hcalled⟩
  · rw [hop]
    exact attended_ask q f

theorem gives_listContacts (hr : m.Reached d) : Gives (m.call d c .listContacts) fun r =>
    r.1.list = m.gui.cfg.hist.1.server.listContacts (d.names c) :=
  gives_mono (fun _ h => congrArg Value.list h.1)
    (gives_ask hr .listContacts (fun _ l => .names l) rfl)

theorem gives_listGroups (hr : m.Reached d) : Gives (m.call d c .listGroups) fun r =>
    r.1.list = m.gui.cfg.hist.1.server.listGroups (d.names c) :=
  gives_mono (fun _ h => congrArg Value.list h.1)
    (gives_ask hr .listGroups (fun _ l => .names l) rfl)

/-- A refreshed list is up to date. -/
theorem gives_refreshChatList (hr : m.Reached d) : Gives (m.refreshChatList d) fun m' =>
    m.Stays d m' ∧ m'.chatList.items = m'.chats d ∧
      m.Picks d m' (m.chatList.items ++ m'.chatList.items) := by
  refine gives_bind.mpr (gives_mono (fun m1 hm1 => ?_) stays_clearChatList)
  obtain ⟨hstays1, hlist1, hpicks1⟩ := hm1
  rcases hc : m1.currentClient with - | c
  · refine gives_ok.mpr ⟨hstays1, ?_, ?_⟩
    · rw [hlist1, chats, hc]
    · rw [hlist1, List.append_nil]
      exact hpicks1
  · refine gives_bind.mpr (gives_mono (fun r2 hr2 => ?_)
      (gives_and (stays_call trivial hc) (gives_listContacts (hstays1.reached hr))))
    obtain ⟨contacts, m2⟩ := r2
    obtain ⟨⟨hstays2, hlist2, hchat2⟩, hcontacts⟩ := hr2
    have hc2 : m2.currentClient = some c := hstays2.gui.currentClient.trans hc
    refine gives_bind.mpr (gives_mono (fun r3 hr3 => ?_) (gives_and (stays_call trivial hc2)
      (gives_listGroups ((hstays1.trans hstays2).reached hr))))
    obtain ⟨groups, m3⟩ := r3
    obtain ⟨⟨hstays3, hlist3, hchat3⟩, hgroups⟩ := hr3
    have hadded : m2.Stays d (m2.addItems (contacts.list.map d.qt.contactItem)) :=
      ⟨.of_window rfl rfl, rfl, rfl, rfl⟩
    have hstays : m1.Stays d m3 := hstays2.trans (hadded.trans hstays3)
    -- everything is read off books that stay the same
    have hitems : (m3.addItems (groups.list.map (d.qt.groupItem m3.gui.cfg.hist.1.server))).chatList.items
        = m1.chats d := by
      show m3.chatList.items ++ groups.list.map (d.qt.groupItem m3.gui.cfg.hist.1.server) = _
      rw [hlist3]
      show (m2.chatList.items ++ contacts.list.map d.qt.contactItem) ++ _ = _
      rw [hlist2, hlist1, hcontacts, hgroups, hstays.gui.books.groupItem_eq, chats, hc]
      show _ = listing d.qt _ _
      rw [listing, ← hstays2.gui.books.listGroups_eq]
      rfl
    have hstays4 : m.Stays d
        (m3.addItems (groups.list.map (d.qt.groupItem m3.gui.cfg.hist.1.server))) :=
      (hstays1.trans hstays).trans ⟨.of_window rfl rfl, rfl, rfl, rfl⟩
    have hpicks4 := hpicks1.same (hchat2.trans hchat3)
    rw [hstays1.chats_eq] at hitems
    dsimp only
    split
    · refine gives_mono (fun m' hm' => ?_) (stays_setCurrentRow 0)
      obtain ⟨hstays', hitems', hpicks'⟩ := hm'
      have hall := hstays4.trans hstays'
      refine ⟨hall, (hitems'.trans hitems).trans hall.chats_eq.symm, ?_⟩
      rw [hitems']
      exact Picks.trans hpicks4 hpicks'
    · exact gives_ok.mpr ⟨hstays4, hitems.trans hstays4.chats_eq.symm,
        hpicks4.imp_right fun ⟨item, hitem, hleads⟩ =>
          ⟨item, List.mem_append_left _ hitem, hleads⟩⟩

theorem gives_selectChat (kind : ChatKind) (id : Str) : Gives (m.selectChat d kind id) fun m' =>
    m.Stays d m' ∧ m'.chatList.items = m.chatList.items ∧
      (m.withChat kind id).Picks d m' m.chatList.items := by
  have hchosen : m.Stays d (m.withChat kind id) := ⟨.of_window rfl rfl, rfl, rfl, rfl⟩
  have hrefreshed : ∀ m1 : Messenger, m.Stays d m1 → m1.chatList.items = m.chatList.items →
      (m.withChat kind id).Picks d m1 m.chatList.items → Gives (m1.refreshMessages d) fun m' =>
        m.Stays d m' ∧ m'.chatList.items = m.chatList.items ∧
          (m.withChat kind id).Picks d m' m.chatList.items := by
    intro m1 hstays hitems hpicks
    refine gives_mono (fun m' hm' => ?_) stays_refreshMessages
    exact ⟨hstays.trans hm'.1, (congrArg QListWidget.items hm'.2.1).trans hitems,
      hpicks.same hm'.2.2⟩
  unfold selectChat
  dsimp only
  split
  · exact hrefreshed _ hchosen rfl (Or.inl ⟨rfl, rfl⟩)
  · refine gives_bind.mpr (gives_mono (fun m1 hm1 => ?_) (stays_setCurrentRow _))
    exact hrefreshed m1 (hchosen.trans hm1.1) hm1.2.1 hm1.2.2

/-! ### Whose window it is -/

/-- The page with the chats is shown exactly if there is a current client; it is the only client
logged in, the label names it, and the window stands among its observers once and nowhere else. -/
structure Seated (d : Desktop) (m : Messenger) : Prop where
  reached : m.Reached d
  loggedIn : ∀ c, (m.gui.cfg.hist.1.clients c).loggedIn = true ↔ m.currentClient = some c
  page : m.page = .chat ↔ ∃ c, m.currentClient = some c
  attached : ∀ c, m.attached c = if m.currentClient = some c then 1 else 0
  label : ∀ c, m.currentClient = some c →
    m.currentUserLabel = qstr "Logged in as " ++ d.qt.fromStdString (d.names c)

/-- No chat is selected, or one that is in the list. -/
def Offered (d : Desktop) (m : Messenger) : Prop :=
  m.gui.window.selectedChatId = [] ∨ ∃ item ∈ m.chatList.items,
    LeadsTo d.qt m.gui.window.selectedChatKind m.gui.window.selectedChatId item

/-- What every action keeps; `n` is the number of actions. -/
structure Kept (d : Desktop) (n : Nat) (m : Messenger) : Prop extends Seated d m where
  list : m.chatList.items = m.chats d
  numbered : ∃ k ≤ n, Numbered m.gui.cfg.hist.1.server k
  alone : Alone m.gui.cfg.hist
  offered : n < 2 ^ 64 → m.page = .chat → m.Offered d

variable {n : Nat}

theorem Seated.stays (hs : m.Seated d) (h : m.Stays d m') : m'.Seated d := by
  have hcurrent : m'.currentClient = m.currentClient := h.gui.currentClient
  refine ⟨h.reached hs.reached, fun c => ?_, ?_, fun c => ?_, fun c hc => ?_⟩
  · rw [h.gui.books.clients, hcurrent]
    exact hs.loggedIn c
  · rw [h.page, hcurrent]
    exact hs.page
  · rw [h.attached, hcurrent]
    exact hs.attached c
  · rw [h.label]
    exact hs.label c (hcurrent.symm.trans hc)

theorem Seated.lone (hs : m.Seated d) : m.gui.Lone := fun c => (hs.loggedIn c).mp

theorem Offered.picks (ho : m.Offered d) (hp : m.Picks d m' m'.chatList.items)
    (hitems : m'.chatList.items = m.chatList.items) : m'.Offered d := by
  rcases hp with hsame | hpicked
  · unfold Offered
    rw [hsame.1, hsame.2, hitems]
    exact ho
  · exact Or.inr hpicked

/-- An action that leaves the books and the list alone. -/
theorem Kept.stays (hk : m.Kept d n) (h : m.Stays d m')
    (hitems : m'.chatList.items = m.chatList.items) (hp : m.Picks d m' m.chatList.items) :
    m'.Kept d n := by
  refine ⟨hk.toSeated.stays h, ?_, ?_, h.gui.alone hk.reached hk.lone hk.alone,
    fun hn hpage => ?_⟩
  · rw [hitems, h.chats_eq]
    exact hk.list
  · obtain ⟨k, hk, hnum⟩ := hk.numbered
    exact ⟨k, hk, hnum.congr h.gui.books.groups h.gui.books.counter⟩
  · rw [← hitems] at hp
    exact (hk.offered hn (h.page.symm.trans hpage)).picks hp hitems

theorem Kept.later (hk : m.Kept d n) : m.Kept d (n + 1) := by
  obtain ⟨k, hle, hnum⟩ := hk.numbered
  exact ⟨hk.toSeated, hk.list, ⟨k, Nat.le_succ_of_le hle, hnum⟩, hk.alone,
    fun hn => hk.offered (by omega)⟩

/-- Nobody is logged in, and the window stands among no observers. -/
structure Vacant (d : Desktop) (n : Nat) (m : Messenger) : Prop where
  reached : m.Reached d
  current : m.currentClient = none
  nobody : ∀ c, (m.gui.cfg.hist.1.clients c).loggedIn = false
  attached : ∀ c, m.attached c = 0
  numbered : ∃ k ≤ n, Numbered m.gui.cfg.hist.1.server k
  alone : Alone m.gui.cfg.hist

theorem Vacant.lone (hv : m.Vacant d n) : m.gui.Lone :=
  fun c hc => absurd hc (Bool.eq_false_iff.mp (hv.nobody c))

theorem Vacant.stays (hv : m.Vacant d n) (h : m.Stays d m') : m'.Vacant d n := by
  refine ⟨h.reached hv.reached, h.gui.currentClient.trans hv.current, fun c => ?_, fun c => ?_, ?_,
    h.gui.alone hv.reached hv.lone hv.alone⟩
  · rw [h.gui.books.clients]
    exact hv.nobody c
  · rw [h.attached]
    exact hv.attached c
  · obtain ⟨k, hk, hnum⟩ := hv.numbered
    exact ⟨k, hk, hnum.congr h.gui.books.groups h.gui.books.counter⟩

/-- The first page. -/
theorem Vacant.kept (hv : m.Vacant d n) (hpage : m.page = .auth) (hitems : m.chatList.items = []) :
    m.Kept d n := by
  have hc := hv.current
  refine ⟨⟨hv.reached, fun c => ?_, ?_, fun c => ?_, fun c h => ?_⟩, ?_, hv.numbered, hv.alone,
    fun _ h => ?_⟩
  · rw [hv.nobody, hc]
    simp
  · rw [hpage, hc]
    simp
  · rw [hv.attached, hc]
    rfl
  · rw [hc] at h
    cases h
  · rw [hitems, chats, hc]
  · rw [hpage] at h
    cases h

end Messenger

end Evlampy
