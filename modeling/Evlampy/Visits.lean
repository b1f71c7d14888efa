/-
Evlampy/Visits.lean

The message list over whole visits.  Users come and go at one window: they register, log in,
open chats, found groups, send, delete and log out.  Whoever is logged in sees what a refresh
would show, after every action of any of them, exactly if every send shows its message once
(`visits_agree_iff`).

Only what ends in a refresh touches the list.  Everything else leaves the window and the
histories alone, so it stays in step.
-/
import Evlampy.Logins
import Evlampy.Upkeep

namespace Evlampy

open Cxx Callback Prog System

/-! ### Calls that leave the histories alone -/

/-- Only messages change the histories. -/
theorem ServerCall.exec_histories {q : ServerCall} (hstore : ∀ m, q ≠ .storeMessage m)
    (hdelete : ∀ u id, q ≠ .deleteMessageForAll u id) (s : ChatServer) :
    (q.exec s).2.history = s.history ∧ (q.exec s).2.groupHistory = s.groupHistory := by
  have hchange := q.exec_change s
  generalize (q.exec s).2 = s' at hchange
  cases hchange with
  | stored m => exact absurd rfl (hstore m)
  | deleted u id => exact absurd rfl (hdelete u id)
  | _ => exact ⟨rfl, rfl⟩

variable {d : Desktop} {m m' : Messenger} {c : ClientId} {kind : ChatKind} {id : Str}

namespace Messenger

/-- The window shows the chats of a client that is logged in. -/
abbrev Serves (d : Desktop) (c : ClientId) (m : Messenger) : Prop :=
  Evlampy.Serves d.env d.names d.disk c m.gui

/-- The list shows what the client would read now. -/
abbrev InStep (d : Desktop) (c : ClientId) (m : Messenger) : Prop :=
  Evlampy.InStep d.env d.qt d.names d.disk c m.gui

theorem Stays.serves (h : m.Stays d m') (hs : m.Serves d c) : m'.Serves d c := by
  refine ⟨h.gui.reached hs.reached, ?_, h.gui.currentClient.trans hs.current⟩
  rw [h.gui.books.clients]
  exact hs.loggedIn

/-- A call that leaves the clients, the histories and the window alone. -/
theorem InStep.served (hi : m.InStep d c) {q : ServerCall} {g : Gui}
    (hreached : ∃ ms, g.cfg = d.env.run d.names d.disk ms)
    (hserved : ServedBy q m.gui.cfg.hist.1 g.cfg.hist.1) (hwindow : g.window = m.gui.window)
    (hstore : ∀ m, q ≠ .storeMessage m) (hdelete : ∀ u id, q ≠ .deleteMessageForAll u id) :
    ({ m with gui := g } : Messenger).InStep d c := by
  obtain ⟨hhistory, hgroup⟩ := q.exec_histories hstore hdelete m.gui.cfg.hist.1.server
  rw [← hserved.server] at hhistory hgroup
  have hchat : g.chat c = m.gui.chat c := by
    unfold Gui.chat ChatServer.chatMessages ChatServer.getConversation
      ChatServer.getGroupConversation
    rw [hhistory, hgroup, hserved.clients, hwindow]
  refine ⟨⟨hreached, ?_, ?_⟩, ?_, ?_⟩
  · show (g.cfg.hist.1.clients c).loggedIn = true
    rw [hserved.clients]
    exact hi.loggedIn
  · show g.window.currentClient = some c
    rw [hwindow]
    exact hi.current
  · show g.window.Tabled d.qt
    rw [hwindow]
    exact hi.tabled
  · show List.Forall₂ (ShownAs d.env (g.cfg.hist.1.clients c)) (g.chat c) g.window.messages
    rw [hchat, hserved.clients, hwindow]
    exact hi.list

/-! ### Functions of the window -/

variable (hsteady : d.env.ssl.Steady)

include hsteady

theorem inStep_refreshMessages (hs : m.Serves d c) :
    Gives (m.refreshMessages d) fun m' => m'.InStep d c :=
  gives_bind.mpr fun _ hg => gives_ok.mpr (Gui.inStep_refreshMessages hsteady hs hg)

theorem inStep_itemSelectionChanged (hi : m.InStep d c) :
    Gives (m.itemSelectionChanged d) fun m' => m'.InStep d c := by
  unfold itemSelectionChanged
  dsimp only
  split
  · exact gives_ok.mpr hi
  · exact inStep_refreshMessages hsteady (hi.toServes.congr rfl rfl)

theorem inStep_setCurrentRow (hi : m.InStep d c) (row : Nat) :
    Gives (m.setCurrentRow d row) fun m' => m'.InStep d c :=
  gives_bind.mpr (gives_mono (fun _ h => gives_ok.mpr h) (inStep_itemSelectionChanged hsteady hi))

theorem inStep_refreshChatList (hi : m.InStep d c) :
    Gives (m.refreshChatList d) fun m' => m'.InStep d c := by
  have hask : ∀ {m1 : Messenger} (q : Str → ServerCall) (op : Op) (f : ∀ u, (q u).Res → Value),
      (Call.body d.env ⟨c, op⟩ = do
        let self ← Code.get c
        let r ← Code.server (q self.username)
        (pure (f self.username r) : Code Value)) →
      (∀ u m, q u ≠ .storeMessage m) → (∀ u v id, q u ≠ .deleteMessageForAll v id) →
      m1.InStep d c → Gives (m1.call d c op) fun r => r.2.InStep d c := by
    intro m1 q op f hop hstore hdelete hi1
    refine gives_mono (fun r hr => ?_) (gives_ask hi1.reached q f hop)
    obtain ⟨-, g, hg, hserved, hwindow, hcalled⟩ := hr
    rw [hg]
    exact hi1.served (hcalled.reached hi1.reached) hserved hwindow (hstore _) (hdelete _)
  have hclear : Gives (m.clearChatList d) fun m' => m'.InStep d c :=
    gives_bind.mpr (gives_mono (fun _ h => gives_ok.mpr h) (inStep_itemSelectionChanged hsteady hi))
  refine gives_bind.mpr (gives_mono (fun m1 hi1 => ?_) hclear)
  have hc : m1.currentClient = some c := hi1.current
  simp only [hc]
  refine gives_bind.mpr (gives_mono (fun r2 hi2 => ?_) (hask .listContacts .listContacts
    (fun _ l => .names l) rfl (fun _ _ h => by cases h) (fun _ _ _ h => by cases h) hi1))
  refine gives_bind.mpr (gives_mono (fun r3 hi3 => ?_) (hask .listGroups .listGroups
    (fun _ l => .names l) rfl (fun _ _ h => by cases h) (fun _ _ _ h => by cases h) hi2))
  have hadded : (r3.2.addItems
      (r3.1.list.map (d.qt.groupItem r3.2.gui.cfg.hist.1.server))).InStep d c := hi3
  split
  · exact inStep_setCurrentRow hsteady hadded 0
  · exact gives_ok.mpr hadded

/-- Selecting a chat ends in a refresh. -/
theorem inStep_selectChat (hs : m.Serves d c) (kind : ChatKind) (id : Str) :
    Gives (m.selectChat d kind id) fun m' => m'.InStep d c := by
  have hchosen : (m.withChat kind id).Serves d c := hs.congr rfl rfl
  unfold selectChat
  dsimp only
  split
  · exact inStep_refreshMessages hsteady hchosen
  · refine gives_bind.mpr (gives_mono (fun m1 hm1 => ?_) (stays_setCurrentRow _))
    exact inStep_refreshMessages hsteady (hm1.1.serves hchosen)

/-- The rest of a button that makes a new chat and opens it. -/
theorem inStep_opened (hs : m.Serves d c) {text : Str} :
    Gives (do
      let m ← m.refreshChatList d
      let m ← m.selectChat d kind id
      return m.setStatus d text false) fun m' => m'.InStep d c := by
  refine gives_bind.mpr (gives_mono (fun m1 hm1 => ?_) (gives_refreshChatList hs.reached))
  refine gives_bind.mpr (gives_mono (fun m2 hi2 => ?_)
    (inStep_selectChat hsteady (hm1.1.serves hs) kind id))
  exact gives_ok.mpr (hi2.congr rfl ⟨rfl, rfl, rfl, rfl, rfl⟩)

theorem inStep_newChatButton (hi : m.InStep d c) (answer : Option QString) :
    Gives (m.newChatButton d answer) fun m' => m'.InStep d c := by
  have hc : m.currentClient = some c := hi.current
  unfold newChatButton
  split
  · exact gives_ok.mpr (hi.congr rfl ⟨rfl, rfl, rfl, rfl, rfl⟩)
  · exact gives_ok.mpr hi
  · next c' peer hc' =>
    obtain rfl := Option.some.inj (hc'.symm.trans hc)
    split
    · exact gives_ok.mpr hi
    · refine gives_bind.mpr (gives_mono (fun r hr => ?_)
        (gives_ask hi.reached (.addContact · _) (fun _ ok => .bool ok) rfl))
      obtain ⟨v, m1⟩ := r
      obtain ⟨-, g, rfl, hserved, hwindow, hcalled⟩ := hr
      have hi1 := hi.served (hcalled.reached hi.reached) hserved hwindow (fun _ h => by cases h)
        fun _ _ h => by cases h
      dsimp only
      split
      · exact gives_ok.mpr hi1
      · exact inStep_opened hsteady hi1.toServes

theorem inStep_createGroupButton (hi : m.InStep d c) (answer : Option (QLineEdit × QLineEdit)) :
    Gives (m.createGroupButton d answer) fun m' => m'.InStep d c := by
  have hc : m.currentClient = some c := hi.current
  unfold createGroupButton
  split
  · exact gives_ok.mpr (hi.congr rfl ⟨rfl, rfl, rfl, rfl, rfl⟩)
  · exact gives_ok.mpr hi
  · next c' nameEdit membersEdit hc' =>
    obtain rfl := Option.some.inj (hc'.symm.trans hc)
    dsimp only
    split
    · exact gives_ok.mpr hi
    · refine gives_bind.mpr (gives_mono (fun r hr => ?_)
        (gives_ask hi.reached (.createGroup · _ _) (fun _ gid => .groupId gid) rfl))
      obtain ⟨v, m1⟩ := r
      obtain ⟨-, g, rfl, hserved, hwindow, hcalled⟩ := hr
      have hi1 := hi.served (hcalled.reached hi.reached) hserved hwindow (fun _ h => by cases h)
        fun _ _ h => by cases h
      dsimp only
      split
      · exact gives_ok.mpr hi1
      · exact inStep_opened hsteady hi1.toServes

/-! ### One action -/

/-- Whoever is logged in sees what there is. -/
def Current (d : Desktop) (m : Messenger) : Prop := ∀ c, m.currentClient = some c → m.InStep d c

omit hsteady in
theorem InStep.isCurrent (hi : m.InStep d c) : m.Current d := by
  intro e he
  obtain rfl : c = e := Option.some.inj (hi.current.symm.trans he)
  exact hi

omit hsteady in
theorem Current.of_outside {n : Nat} (hk : m.Kept d n) (hpage : m.page = .auth) : m.Current d := by
  intro c hc
  cases (hk.outside hpage).symm.trans hc

theorem current_loginButton {n : Nat} (hk : m.Kept d n) (hpage : m.page = .auth) :
    Gives (m.loginButton d) (Current d) := by
  refine gives_mono (fun m' hm' => ?_) (loginButton_cases hk hpage)
  obtain ⟨m1, text, error, rfl, ⟨hkept, hpage1⟩ |
    ⟨m2, c, window, hseated, hwindow, hlist, -, -, hrefresh⟩⟩ := hm'
  · exact Current.of_outside (hkept.setStatus text error) hpage1
  · have hc2 : m2.currentClient = some c := by
      rw [Messenger.currentClient, hwindow]
      rfl
    -- the list of messages is empty, and no chat is selected
    have hi2 : m2.InStep d c := by
      obtain ⟨ms, hms⟩ := hseated.reached
      have hlog := (hseated.loggedIn c).mpr hc2
      rw [hms] at hlog
      have hgui : m2.gui = ⟨d.env.run d.names d.disk ms, window.switchCurrentUser c⟩ := by
        rw [← hms, ← hwindow]
      rw [InStep, hgui]
      exact inStep_switchCurrentUser ms window hlog
    have hi1 := inStep_refreshChatList hsteady hi2 m1 hrefresh
    exact InStep.isCurrent (hi1.congr rfl ⟨rfl, rfl, rfl, rfl, rfl⟩)

/-- Everything but a send keeps the list as it would be read. -/
theorem current_perform (hl : Reliable d.env d.qt) (hreg : d.env.Regular m.gui.cfg.hist.1)
    {n : Nat} (hk : m.Kept d n) (hcur : m.Current d) {a : UserAction}
    (hpage : a.page = m.page) (hsend : a ≠ .sendCurrentMessage) :
    Gives (m.perform d a) (Current d) := by
  have hchat : a.page = .chat → ∃ c, m.InStep d c := by
    intro ha
    obtain ⟨c, hc⟩ := hk.page.mp (hpage.symm.trans ha)
    exact ⟨c, hcur c hc⟩
  have hgui : ∀ {c} {r : Except Exn Gui}, (Gives r fun g =>
      Evlampy.InStep d.env d.qt d.names d.disk c g) → Gives (m.onGui r) (Current d) :=
    fun hr => gives_bind.mpr (gives_mono (fun g hg => gives_ok.mpr
      (InStep.isCurrent (m := { m with gui := g }) hg)) hr)
  cases a with
  | typeUsername input => exact gives_ok.mpr hcur
  | typePassword input => exact gives_ok.mpr hcur
  | register =>
      exact gives_mono (fun _ h => .of_outside h.1 h.2) (kept_registerButton hk hpage.symm)
  | login => exact current_loginButton hsteady hk hpage.symm
  | logout => exact gives_mono (fun _ h => .of_outside h.1 h.2) (kept_logoutButton hk)
  | refresh =>
      obtain ⟨c, hi⟩ := hchat rfl
      -- reading the list of chats leaves the client logged in, and that is all a refresh needs
      refine gives_bind.mpr (gives_mono (fun m1 hm1 => ?_) (gives_refreshChatList hk.reached))
      exact gives_mono (fun _ h => h.isCurrent)
        (inStep_refreshMessages hsteady (hm1.1.serves hi.toServes))
  | newChat answer =>
      obtain ⟨c, hi⟩ := hchat rfl
      exact gives_mono (fun _ h => h.isCurrent) (inStep_newChatButton hsteady hi answer)
  | createGroup answer =>
      obtain ⟨c, hi⟩ := hchat rfl
      exact gives_mono (fun _ h => h.isCurrent) (inStep_createGroupButton hsteady hi answer)
  | selectItem row =>
      obtain ⟨c, hi⟩ := hchat rfl
      exact gives_mono (fun _ h => h.isCurrent) (inStep_setCurrentRow hsteady hi row)
  | edit input =>
      obtain ⟨c, hi⟩ := hchat rfl
      exact hgui (c := c) (gives_ok.mpr (hi.congr rfl ⟨rfl, rfl, rfl, rfl, rfl⟩))
  | sendCurrentMessage => exact absurd rfl hsend
  | setCurrent row =>
      obtain ⟨c, hi⟩ := hchat rfl
      exact hgui (c := c) (gives_ok.mpr (hi.congr rfl ⟨rfl, rfl, rfl, rfl, rfl⟩))
  | deleteSelectedMessage =>
      obtain ⟨c, hi⟩ := hchat rfl
      exact hgui (c := c) fun g hg => inStep_deleteSelectedMessage hl hreg.freshIds hi hg

omit hsteady

/-- A send keeps the list as it would be read if it shows its message once, and only then the
list agrees with a refresh. -/
theorem current_send (hl : Reliable d.env d.qt) (hreg : d.env.Regular m.gui.cfg.hist.1)
    (hi : m.InStep d c) :
    Gives (m.perform d .sendCurrentMessage) fun m' =>
      (m.gui.ShownOnce d.qt c → m'.Current d) ∧
        (m'.gui.Agrees d.env d.qt → m.gui.ShownOnce d.qt c) := by
  refine gives_bind.mpr fun g hg => gives_ok.mpr ?_
  obtain ⟨hkeeps, hagrees⟩ := inStep_sendCurrentMessage hl hreg.files hi hg
  exact ⟨fun h => InStep.isCurrent (m := { m with gui := g }) (hkeeps h), hagrees⟩

end Messenger

/-! ### A run -/

open Messenger

/-- The sends of a run show their messages once. -/
def SendsOnce (d : Desktop) (actions : List UserAction) : Prop :=
  ∀ done m m' c, done ++ [.sendCurrentMessage] <+: actions → Messenger.run d done = .ok m →
    m.currentClient = some c → m.act d .sendCurrentMessage = .ok m' → m.gui.ShownOnce d.qt c

/-- The button that sends is on the page with the chats. -/
theorem act_send (hpage : m.page = .chat) :
    m.act d .sendCurrentMessage = m.perform d .sendCurrentMessage := if_pos hpage.symm

theorem page_send {actions : List UserAction} (hm : Messenger.run d actions = .ok m)
    (hc : m.currentClient = some c) : m.page = .chat :=
  (kept_run d actions m hm).page.mpr ⟨c, hc⟩

/-- If the sends keep the list as it would be read, all actions do. -/
theorem current_run (hl : Reliable d.env d.qt) {actions : List UserAction}
    (hreg : ∀ done m, done <+: actions → Messenger.run d done = .ok m →
      d.env.Regular m.gui.cfg.hist.1)
    (hsends : ∀ done m m' c, done ++ [.sendCurrentMessage] <+: actions →
      Messenger.run d done = .ok m → m.InStep d c → m.act d .sendCurrentMessage = .ok m' →
      m.gui.ShownOnce d.qt c)
    {done : List UserAction} (hdone : done <+: actions) :
    Gives (Messenger.run d done) (Current d) := by
  induction done using List.reverseRecOn with
  | nil => exact gives_ok.mpr fun c hc => by cases hc
  | append_singleton done a ih =>
      rw [Messenger.run_append_singleton]
      refine gives_bind.mpr fun m hm => ?_
      show Gives (m.act d a) (Current d)
      have hk := kept_run d done m hm
      have hbefore := (List.prefix_append _ _).trans hdone
      have hregm := hreg done m hbefore hm
      have hcur := ih hbefore m hm
      by_cases hpage : a.page = m.page
      · rcases eq_or_ne a .sendCurrentMessage with rfl | hsend
        · obtain ⟨c, hc⟩ := hk.page.mp hpage.symm
          have hi := hcur c hc
          rw [act_send hpage.symm]
          intro m' hm'
          refine (current_send hl hregm hi m' hm').1 (hsends done m m' c hdone hm hi ?_)
          rw [act_send hpage.symm]
          exact hm'
        · rw [Messenger.act, if_pos hpage]
          exact current_perform hl.steady hl hregm hk hcur hpage hsend
      · rw [Messenger.act, if_neg hpage]
        exact gives_ok.mpr hcur

/-- **When the list agrees with a refresh, over whole visits.**  Users come and go at the
window.  OpenSSL and Qt do as documented and AES-256-GCM can be inverted; in the states the
visits pass through, files work for the users on record, and no message id has been generated
twice.  Then after each of their actions on the page with the chats, the list of messages is
the one a refresh would show, and the table shows it, if and only if every send that completes
shows its message once. -/
theorem visits_agree_iff (hl : Reliable d.env d.qt) (actions : List UserAction)
    (hreg : ∀ done m, done <+: actions → Messenger.run d done = .ok m →
      d.env.Regular m.gui.cfg.hist.1) :
    (∀ done m, done <+: actions → Messenger.run d done = .ok m → m.page = .chat →
      m.gui.Agrees d.env d.qt) ↔ SendsOnce d actions := by
  constructor
  · -- before a send the list is right, so it is the send that would make it wrong
    intro hagree done m m' c hdone hm hc hact
    have hbefore : ∀ {done}, done ++ [.sendCurrentMessage] <+: actions → done <+: actions :=
      fun h => (List.prefix_append _ _).trans h
    have honce : ∀ done m m' c, done ++ [.sendCurrentMessage] <+: actions →
        Messenger.run d done = .ok m → m.InStep d c → m.act d .sendCurrentMessage = .ok m' →
        m.gui.ShownOnce d.qt c := by
      intro done m m' c hdone hm hi hact
      have hrun : Messenger.run d (done ++ [.sendCurrentMessage]) = .ok m' := by
        rw [Messenger.run_append_singleton, hm]
        exact hact
      rw [act_send (page_send hm hi.current)] at hact
      have hregm := hreg done m (hbefore hdone) hm
      refine (current_send hl hregm hi m' hact).2 (hagree _ m' hdone hrun ?_)
      obtain ⟨g, -, hg⟩ := bind_eq_ok.mp hact
      cases hg
      show m.page = .chat
      exact page_send hm hi.current
    have hcur := current_run hl hreg honce (hbefore hdone) m hm
    exact honce done m m' c hdone hm (hcur c hc) hact
  · intro honce done m hdone hm hpage
    obtain ⟨c, hc⟩ := (kept_run d done m hm).page.mp hpage
    have hcur := current_run hl hreg (fun done m m' c hdone hm hi hact =>
      honce done m m' c hdone hm hi.current hact) hdone m hm
    exact (hcur c hc).agrees

/-- Alice sends once, to Bob and not to herself. -/
theorem sendsOnce_visiting : SendsOnce (Desktop.reference Env.reference) visiting := by
  intro done m m' c hdone hm hc _
  have hlast : visiting[done.length]? = some .sendCurrentMessage := by
    obtain ⟨rest, hrest⟩ := hdone
    rw [← hrest]
    simp
  -- there is one send among her actions, after the first eight
  have height : done.length = 8 := by
    have hlen : done.length < visiting.length := (List.getElem?_eq_some_iff.mp hlast).1
    rw [show visiting.length = 13 from rfl] at hlen
    generalize done.length = n at hlast hlen
    interval_cases n <;> simp [visiting] at hlast ⊢
  have htake := List.prefix_iff_eq_take.mp ((List.prefix_append _ _).trans hdone)
  rw [height] at htake
  subst htake
  have hchat : ((Messenger.run (Desktop.reference Env.reference) (visiting.take 8)).toOption.map
      fun m => (m.gui.window.selectedChatKind, m.gui.window.selectedChatId, m.currentClient))
      = some (.direct, str "bob", some (Desktop.clientOf (str "alice"))) := by decide +kernel
  rw [hm] at hchat
  have hparts := Option.some.inj hchat
  simp only [Prod.mk.injEq] at hparts
  obtain ⟨hkind, hid, hcurrent⟩ := hparts
  obtain rfl := Option.some.inj (hc.symm.trans hcurrent)
  have hname := (kept_run _ _ m hm).reached.username (Desktop.clientOf (str "alice"))
  refine Or.inr (Or.inr ?_)
  rw [hkind, hid, hname]
  exact Or.inl (by decide +kernel)

/-- So after her visit, and Bob's, the list is right. -/
theorem visits_agree_visiting : ∃ m,
    Messenger.run (Desktop.reference Env.reference) visiting = .ok m ∧ m.page = .chat ∧
      m.gui.Agrees Env.reference Qt.reference := by
  have hsome : (Messenger.run (Desktop.reference Env.reference) visiting).toOption.map
      Messenger.page = some .chat := by decide +kernel
  rcases hm : Messenger.run (Desktop.reference Env.reference) visiting with x | m
  · rw [hm] at hsome
    cases hsome
  · rw [hm] at hsome
    have hpage : m.page = .chat := Option.some.inj hsome
    have hagree := (visits_agree_iff reliable_reference visiting
      fun _ m _ _ => regular_reference m.gui.cfg.hist.1).mpr sendsOnce_visiting
    exact ⟨m, rfl, hpage, hagree visiting m (List.prefix_refl _) hm hpage⟩

end Evlampy
