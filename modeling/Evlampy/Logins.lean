/-
Evlampy/Logins.lean

Whose window it is.  Clients are made for every name that is typed into the form, but only the
one whose user is logged in may act: in every state the user can bring the window to, the page
with the chats is shown exactly if there is a current client, that client is the only one
logged in, and the window stands once among its observers and nowhere else
(`window_seated`).

The list of chats is a copy of what the server knows, refreshed by hand.  It is never out of
date, and while the page with the chats is shown, the selected chat is one of it
(`chatList_current`).  And as one user logs in after the other, nobody is there when a message
comes: it waits to be read (`window_alone`).
-/
import Evlampy.Erasing
import Evlampy.Reference
import Evlampy.Seats

namespace Evlampy

open Cxx Callback Prog System ChatClient

variable {env : Env} {qt : Qt} {g g' : Gui} {w w' : World} {h : History} {i : Nat} {c : ClientId}
  {op : Op} {ω : Type} {react : Notice → World → ω → ω} {x : ω}

/-! ### Buttons -/

namespace Messenger

variable {d : Desktop} {m m' : Messenger} {kind : ChatKind} {id : Str} {n : Nat}

theorem stays_setStatus (text : Str) (error : Bool) : m.Stays d (m.setStatus d text error) :=
  ⟨.of_window rfl rfl, rfl, rfl, rfl⟩

/-- A report or a message box, and nothing else. -/
theorem Kept.same (hk : m.Kept d n) (h : m.Stays d m') (hlist : m'.chatList = m.chatList)
    (hsame : m.gui.SameChat m'.gui) : m'.Kept d n :=
  hk.stays h (congrArg QListWidget.items hlist) (Or.inl hsame)

theorem Kept.setStatus (hk : m.Kept d n) (text : Str) (error : Bool) :
    (m.setStatus d text error).Kept d n :=
  hk.same (stays_setStatus text error) rfl ⟨rfl, rfl⟩

theorem Kept.warning (hk : m.Kept d n) (title text : String) :
    Gives (m.warning title text) (Kept d n) :=
  gives_ok.mpr (hk.same ⟨.of_window rfl rfl, rfl, rfl, rfl⟩ rfl ⟨rfl, rfl⟩)

theorem Kept.numbered_congr (hk : m.Kept d n) {s : ChatServer}
    (hgroups : s.groups = m.gui.cfg.hist.1.server.groups)
    (hcounter : s.nextGroupId = m.gui.cfg.hist.1.server.nextGroupId) :
    ∃ k ≤ n, Numbered s k := by
  obtain ⟨k, hk, hnum⟩ := hk.numbered
  exact ⟨k, hk, hnum.congr hgroups hcounter⟩

/-- Nobody is logged in while there is no current client. -/
theorem Seated.nobody (hs : m.Seated d) (hc : m.currentClient = none) (c : ClientId) :
    (m.gui.cfg.hist.1.clients c).loggedIn = false := by
  refine Bool.eq_false_iff.mpr fun hlog => ?_
  rw [hs.loggedIn, hc] at hlog
  cases hlog

theorem Kept.vacant (hk : m.Kept d n) (hc : m.currentClient = none) : m.Vacant d n := by
  refine ⟨hk.reached, hc, hk.nobody hc, fun c => ?_, hk.numbered, hk.alone⟩
  rw [hk.attached, hc]
  rfl

theorem Seated.outside (hs : m.Seated d) (hpage : m.page = .auth) : m.currentClient = none := by
  rcases hc : m.currentClient with - | c
  · rfl
  · have hchat := hs.page.mpr ⟨c, hc⟩
    rw [hpage] at hchat
    cases hchat

/-- After a call on the first page that lets nobody in. -/
theorem Kept.refused (hk : m.Kept d n) (hpage : m.page = .auth) {g : Gui}
    (hcalled : m.gui.Called d.env c g)
    (helse : Elsewhere c m.gui.cfg.hist.1 g.cfg.hist.1) (hwindow : g.window = m.gui.window)
    (hout : (g.cfg.hist.1.clients c).loggedIn = false) :
    ({ m with gui := g } : Messenger).Kept d n := by
  have hc := hk.outside hpage
  have hcurrent : ({ m with gui := g } : Messenger).currentClient = none :=
    (congrArg MessengerMainWindow.currentClient hwindow).trans hc
  have hv : ({ m with gui := g } : Messenger).Vacant d n := by
    refine ⟨hcalled.reached hk.reached, hcurrent, fun e => ?_, (hk.vacant hc).attached,
      hk.numbered_congr helse.groups helse.counter,
      hcalled.alone hk.reached (hk.lone.sole_of_none hc c) hk.alone⟩
    rcases eq_or_ne e c with rfl | hne
    · exact hout
    · show (g.cfg.hist.1.clients e).loggedIn = false
      rw [helse.clients e hne]
      exact hk.nobody hc e
  refine hv.kept hpage ?_
  show m.chatList.items = []
  rw [hk.list, chats, hc]

theorem kept_registerButton (hk : m.Kept d n) (hpage : m.page = .auth) :
    Gives (m.registerButton d) fun m' => m'.Kept d n ∧ m'.page = .auth := by
  unfold registerButton
  dsimp only
  split
  · exact gives_ok.mpr ⟨hk.setStatus _ _, hpage⟩
  · refine gives_bind.mpr (gives_mono (fun r hr => ?_) (gives_call
      (P := fun _ w' window => (Elsewhere (d.ensureClient _) m.gui.cfg.hist.1 w' ∧
        window = m.gui.window) ∧ (w'.clients (d.ensureClient _)).loggedIn
          = (m.gui.cfg.hist.1.clients (d.ensureClient _)).loggedIn)
      (attended_and (attended_elsewhere trivial (.refl _ _)) (attended_registerOnServer _))))
    obtain ⟨v, m1⟩ := r
    obtain ⟨g, rfl, ⟨⟨helse, hwindow⟩, hlog⟩, hcalled⟩ := hr
    have hout := hlog.trans (hk.nobody (hk.outside hpage) _)
    have hkept := hk.refused hpage hcalled helse hwindow hout
    dsimp only
    split
    · exact gives_ok.mpr ⟨hkept.setStatus _ _, hpage⟩
    · refine gives_ok.mpr ⟨(hkept.setStatus (str "Registered: " ++ _) false).same ?_ rfl
        ⟨rfl, rfl⟩, hpage⟩
      exact ⟨.of_window rfl rfl, rfl, rfl, rfl⟩

/-- The slot finds no item in an empty list. -/
theorem itemSelectionChanged_of_nil (hlist : m.chatList.items = []) :
    m.itemSelectionChanged d = .ok { m with changes := m.changes + 1 } := by
  have hnone : ((d.selectionRow m.changes).bind fun row => m.chatList.items[row]?) = none := by
    rw [hlist]
    cases d.selectionRow m.changes <;> rfl
  unfold itemSelectionChanged
  simp only [hnone]

/-- The window is given to the client of the name; no slot runs. -/
theorem gives_switchCurrentUser {name : Str} (hc : m.currentClient = none)
    (hlist : m.chatList.items = []) : Gives (m.switchCurrentUser d name) fun m' =>
      m'.gui = m.gui.withWindow (m.gui.window.switchCurrentUser (d.ensureClient name)) ∧
        m'.chatList.items = [] ∧
        m'.attached = Function.update m.attached (d.ensureClient name)
          (m.attached (d.ensureClient name) + 1) := by
  unfold switchCurrentUser clearChatList
  simp only [hc]
  rw [itemSelectionChanged_of_nil]
  · exact gives_ok.mpr ⟨rfl, rfl, rfl⟩
  · exact hlist

theorem gui_showChatPage : (m.showChatPage d).gui = m.gui := by
  unfold showChatPage
  split <;> rfl

theorem chatList_showChatPage : (m.showChatPage d).chatList = m.chatList := by
  unfold showChatPage
  split <;> rfl

/-- The page with the chats of a client that is the only one logged in. -/
theorem seated_showChatPage (hreached : m.Reached d) (hc : m.currentClient = some c)
    (hlog : ∀ e, (m.gui.cfg.hist.1.clients e).loggedIn = true ↔ e = c)
    (hattached : ∀ e, m.attached e = if e = c then 1 else 0) : (m.showChatPage d).Seated d := by
  have hshow : m.showChatPage d = { m with
      page := .chat
      currentUserLabel := qstr "Logged in as " ++
        d.qt.fromStdString (m.gui.cfg.hist.1.clients c).username } := by
    unfold showChatPage
    simp only [hc]
  have heq : ∀ e, m.currentClient = some e ↔ e = c := by
    intro e
    rw [hc, Option.some_inj, eq_comm]
  rw [hshow]
  refine ⟨hreached, fun e => (hlog e).trans (heq e).symm, ?_, fun e => ?_, fun e he => ?_⟩
  · exact ⟨fun _ => ⟨c, hc⟩, fun _ => rfl⟩
  · show m.attached e = if m.currentClient = some e then 1 else 0
    rw [hattached]
    exact if_congr (heq e).symm rfl rfl
  · obtain rfl := (heq e).mp he
    show qstr "Logged in as " ++ _ = _
    rw [hreached.username]

/-- After a call on the first page that lets the client `c` in, to which the window has been
given. -/
theorem Kept.admitted (hk : m.Kept d n) (hc : m.currentClient = none) {g : Gui}
    (hcalled : m.gui.Called d.env c g) (helse : Elsewhere c m.gui.cfg.hist.1 g.cfg.hist.1)
    (hin : (g.cfg.hist.1.clients c).loggedIn = true) (hcfg : m'.gui.cfg = g.cfg)
    (hc' : m'.currentClient = some c)
    (hattached : m'.attached = Function.update m.attached c (m.attached c + 1)) :
    (m'.showChatPage d).Seated d := by
  refine seated_showChatPage ?_ hc' (fun e => ?_) fun e => ?_
  · obtain ⟨ms, hms⟩ := hcalled.reached hk.reached
    exact ⟨ms, hcfg.trans hms⟩
  · rw [hcfg]
    rcases eq_or_ne e c with rfl | hne
    · rw [hin]
      simp
    · rw [helse.clients e hne, hk.nobody hc]
      simp [hne]
  · have hzero := (hk.vacant hc).attached
    rw [hattached, hzero, Function.update_apply, hzero]

/-- A login fails and changes nothing that matters here, or the window is given to the client,
which is then the only one logged in, and the list of chats is refreshed. -/
theorem loginButton_cases (hk : m.Kept d n) (hpage : m.page = .auth) :
    Gives (m.loginButton d) fun m' => ∃ m1 text error, m' = m1.setStatus d text error ∧
      (m1.Kept d n ∧ m1.page = .auth ∨
        ∃ (m2 : Messenger) (c : ClientId) (window : MessengerMainWindow), m2.Seated d ∧
          m2.gui.window = window.switchCurrentUser c ∧ m2.chatList.items = [] ∧
          (∃ k ≤ n, Numbered m2.gui.cfg.hist.1.server k) ∧ Alone m2.gui.cfg.hist ∧
          m2.refreshChatList d = .ok m1) := by
  have hc := hk.outside hpage
  have hlist : m.chatList.items = [] := by
    rw [hk.list, chats, hc]
  unfold loginButton
  dsimp only
  split
  · exact gives_ok.mpr ⟨m, _, _, rfl, Or.inl ⟨hk, hpage⟩⟩
  · generalize d.qt.toStdString (d.qt.trimmed m.authUsername.text) = u
    refine gives_bind.mpr (gives_mono (fun r hr => ?_) (gives_call
      (P := fun r w' window => (Elsewhere (d.ensureClient u) m.gui.cfg.hist.1 w' ∧
        window = m.gui.window) ∧
          ∀ v, r = .ok v → (w'.clients (d.ensureClient u)).loggedIn = v.isTrue)
      (attended_and (attended_elsewhere trivial (.refl _ _)) (attended_login _))))
    obtain ⟨v, m1⟩ := r
    obtain ⟨g, rfl, ⟨⟨helse, hwindow⟩, hlog⟩, hcalled⟩ := hr
    replace hlog := hlog v rfl
    dsimp only
    split
    · next hfalse =>
      exact gives_ok.mpr ⟨_, _, _, rfl,
        Or.inl ⟨hk.refused hpage hcalled helse hwindow (hlog.trans hfalse), hpage⟩⟩
    · next htrue =>
      have hcurrent : ({ m with gui := g } : Messenger).currentClient = none :=
        (congrArg MessengerMainWindow.currentClient hwindow).trans hc
      -- the client is in, and the window, which has observed nobody, is given to it
      refine gives_bind.mpr (gives_mono (fun m2 hm2 => ?_) (gives_switchCurrentUser hcurrent hlist))
      obtain ⟨hgui, hlist2, hattached⟩ := hm2
      have hc2 : m2.currentClient = some (d.ensureClient u) := by
        rw [Messenger.currentClient, hgui]
        rfl
      have hcfg : m2.gui.cfg = g.cfg := by
        rw [hgui]
        rfl
      have hin := hlog.trans (Bool.eq_true_of_not_eq_false htrue)
      have hseated := hk.admitted hc hcalled helse hin hcfg hc2 hattached
      refine gives_bind.mpr fun m3 hm3 => gives_ok.mpr ⟨m3, _, _, rfl, Or.inr
        ⟨m2.showChatPage d, d.ensureClient u, g.window, hseated, ?_, ?_, ?_, ?_, hm3⟩⟩
      · rw [gui_showChatPage, hgui]
        rfl
      · rw [chatList_showChatPage, hlist2]
      · rw [gui_showChatPage, hcfg]
        exact hk.numbered_congr helse.groups helse.counter
      · rw [gui_showChatPage, hcfg]
        exact hcalled.alone hk.reached (hk.lone.sole_of_none hc _) hk.alone

theorem kept_loginButton (hk : m.Kept d n) (hpage : m.page = .auth) :
    Gives (m.loginButton d) (Kept d n) := by
  refine gives_mono (fun m' hm' => ?_) (loginButton_cases hk hpage)
  obtain ⟨m1, text, error, rfl, ⟨hkept, -⟩ |
    ⟨m2, c, window, hseated, hwindow, hlist, ⟨k, hle, hnum⟩, ha, hrefresh⟩⟩ := hm'
  · exact hkept.setStatus _ _
  · obtain ⟨hstays, hitems, hpicks⟩ := gives_refreshChatList hseated.reached m1 hrefresh
    have hkept : m1.Kept d n := by
      refine ⟨hseated.stays hstays, hitems,
        ⟨k, hle, hnum.congr hstays.gui.books.groups hstays.gui.books.counter⟩,
        hstays.gui.alone hseated.reached hseated.lone ha, fun _ _ => ?_⟩
      rw [hlist] at hpicks
      rcases hpicks with hsame | hpicked
      · refine Or.inl (hsame.2.trans ?_)
        rw [hwindow]
        rfl
      · exact Or.inr hpicked
    exact hkept.setStatus _ _

/-- After the first statement of the logout button nobody is logged in. -/
theorem gives_leave (hk : m.Kept d n) : Gives (m.leave d) (Vacant d n) := by
  unfold leave
  split
  · next hc => exact gives_ok.mpr (hk.vacant hc)
  · next c hc =>
    have hothers : ∀ e, e ≠ c → m.currentClient ≠ some e := by
      rintro e hne he
      rw [hc] at he
      exact hne (Option.some.inj he).symm
    refine gives_bind.mpr (gives_mono (fun r hr => ?_) (gives_call
      (P := fun _ w' _ => (Elsewhere c m.gui.cfg.hist.1 w' ∧ (w'.clients c).loggedIn = false))
      (attended_and (attended_mono (fun _ _ _ hr => hr.1) (attended_elsewhere trivial (.refl _ _)))
        attended_logout)))
    obtain ⟨v, m1⟩ := r
    obtain ⟨g, rfl, ⟨helse, hout⟩, hcalled⟩ := hr
    -- the client is out, and nobody else has been in
    refine gives_ok.mpr ⟨hcalled.reached hk.reached, rfl, fun e => ?_, fun e => ?_,
      hk.numbered_congr helse.groups helse.counter,
      hcalled.alone hk.reached (hk.lone.sole hc) hk.alone⟩
    · rcases eq_or_ne e c with rfl | hne
      · exact hout
      · refine Bool.eq_false_iff.mpr fun hlog => hothers e hne ((hk.loggedIn e).mp ?_)
        rw [← helse.clients e hne]
        exact hlog
    · show Function.update m.attached c 0 e = 0
      rw [Function.update_apply, hk.attached]
      rcases eq_or_ne e c with rfl | hne
      · rw [if_pos rfl]
      · rw [if_neg hne, if_neg (hothers e hne)]

theorem kept_logoutButton (hk : m.Kept d n) :
    Gives (m.logoutButton d) fun m' => m'.Kept d n ∧ m'.page = .auth := by
  refine gives_bind.mpr (gives_mono (fun m1 hv => ?_) (gives_leave hk))
  have hcleared : m1.Stays d (m1.withWindow { Gui.cleared m1.gui.window with selectedChatId := [] }) :=
    ⟨.of_window rfl rfl, rfl, rfl, rfl⟩
  -- clearing the list may select a chat again, but there is nobody to read it
  refine gives_bind.mpr (gives_mono (fun m2 hm2 => ?_) stays_clearChatList)
  obtain ⟨hstays, hlist, -⟩ := hm2
  obtain ⟨hreached, hc, hnobody, hattached, hnum, ha⟩ := hv.stays (hcleared.trans hstays)
  have hvacant : m2.showAuthPage.Vacant d n := ⟨hreached, hc, hnobody, hattached, hnum, ha⟩
  have hkept : m2.showAuthPage.Kept d n := hvacant.kept rfl (congrArg QListWidget.items hlist)
  exact gives_ok.mpr ⟨hkept.setStatus _ _, rfl⟩

/-- The rest of a button that makes a new chat and opens it. -/
theorem kept_opened (hs : m.Seated d) (hnum : ∃ k ≤ n, Numbered m.gui.cfg.hist.1.server k)
    (ha : Alone m.gui.cfg.hist) {text : Str}
    (hnew : n < 2 ^ 64 → ∃ item ∈ m.chats d, LeadsTo d.qt kind id item) :
    Gives (do
      let m ← m.refreshChatList d
      let m ← m.selectChat d kind id
      return m.setStatus d text false) (Kept d n) := by
  refine gives_bind.mpr (gives_mono (fun m1 hm1 => ?_) (gives_refreshChatList hs.reached))
  obtain ⟨hstays1, hitems1, -⟩ := hm1
  refine gives_bind.mpr (gives_mono (fun m2 hm2 => ?_) (gives_selectChat kind id))
  obtain ⟨hstays2, hitems2, hpicks2⟩ := hm2
  have hstays := hstays1.trans hstays2
  have hbooks := hstays.gui.books
  have hkept : m2.Kept d n := by
    refine ⟨hs.stays hstays, ?_, ?_, hstays.gui.alone hs.reached hs.lone ha,
      fun hn _ => Or.inr ?_⟩
    · rw [hitems2, hitems1, hstays2.chats_eq]
    · obtain ⟨k, hk, hnum⟩ := hnum
      exact ⟨k, hk, hnum.congr hbooks.groups hbooks.counter⟩
    · rw [hitems2]
      rcases hpicks2 with hsame | hpicked
      · rw [hsame.1, hsame.2, hitems1, hstays1.chats_eq]
        exact hnew hn
      · exact hpicked
  exact gives_ok.mpr (hkept.setStatus _ _)

/-- After a call of the server for the client that is logged in. -/
theorem Seated.served (hs : m.Seated d) {q : ServerCall} {g : Gui}
    (hreached : ∃ ms, g.cfg = d.env.run d.names d.disk ms)
    (hserved : ServedBy q m.gui.cfg.hist.1 g.cfg.hist.1) (hwindow : g.window = m.gui.window) :
    ({ m with gui := g } : Messenger).Seated d := by
  have hcurrent : ({ m with gui := g } : Messenger).currentClient = m.currentClient :=
    congrArg MessengerMainWindow.currentClient hwindow
  refine ⟨hreached, fun c => ?_, ?_, fun c => ?_, fun c hc => ?_⟩
  · show (g.cfg.hist.1.clients c).loggedIn = true ↔ _
    rw [hserved.clients, hcurrent]
    exact hs.loggedIn c
  · rw [hcurrent]
    exact hs.page
  · rw [hcurrent]
    exact hs.attached c
  · exact hs.label c (hcurrent.symm.trans hc)

/-- After a call in which the server has changed nothing. -/
theorem Kept.unserved (hk : m.Kept d n) {g : Gui} (hcalled : m.gui.Called d.env c g)
    (hc : m.currentClient = some c)
    (hserver : g.cfg.hist.1.server = m.gui.cfg.hist.1.server)
    (hclients : g.cfg.hist.1.clients = m.gui.cfg.hist.1.clients)
    (hwindow : g.window = m.gui.window) : ({ m with gui := g } : Messenger).Kept d n := by
  have hbooks : SameBooks m.gui.cfg.hist.1 g.cfg.hist.1 :=
    ⟨congrArg ChatServer.users hserver, congrArg ChatServer.groups hserver,
      congrArg ChatServer.nextGroupId hserver, hclients⟩
  have hstays : m.Stays d { m with gui := g } :=
    ⟨hcalled.stays hc hbooks (congrArg MessengerMainWindow.currentClient hwindow), rfl, rfl, rfl⟩
  exact hk.same hstays rfl ⟨congrArg MessengerMainWindow.selectedChatKind hwindow,
    congrArg MessengerMainWindow.selectedChatId hwindow⟩

theorem kept_newChatButton (hk : m.Kept d n) (answer : Option QString) :
    Gives (m.newChatButton d answer) (Kept d n) := by
  unfold newChatButton
  split
  · exact gives_ok.mpr (hk.setStatus _ _)
  · exact gives_ok.mpr hk
  · next c peer hc =>
    split
    · exact gives_ok.mpr hk
    · generalize d.qt.toStdString peer = contact
      refine gives_bind.mpr (gives_mono (fun r hr => ?_)
        (gives_ask hk.reached (.addContact · contact) (fun _ ok => .bool ok) rfl))
      obtain ⟨v, m1⟩ := r
      obtain ⟨hv, g, rfl, hserved, hwindow, hcalled⟩ := hr
      have ha := hcalled.alone hk.reached (hk.lone.sole hc) hk.alone
      obtain rfl : v = _ := hv
      dsimp only
      split
      · next hfalse =>
        -- a name that cannot be added leaves the server as it is
        have hserver := hserved.server.trans (addContact_of_false hfalse)
        exact (hk.unserved hcalled hc hserver hserved.clients hwindow).warning _ _
      · next htrue =>
        have hok := Bool.eq_true_of_not_eq_false htrue
        obtain ⟨hgroups, hcounter⟩ := ServerCall.exec_groups
          (q := .addContact (d.names c) contact) rfl m.gui.cfg.hist.1.server
        rw [← hserved.server] at hgroups hcounter
        have hcurrent : ({ m with gui := g } : Messenger).currentClient = some c :=
          (congrArg MessengerMainWindow.currentClient hwindow).trans hc
        refine kept_opened (hk.toSeated.served (hcalled.reached hk.reached) hserved hwindow)
          (hk.numbered_congr hgroups hcounter) ha
          fun _ => ⟨d.qt.contactItem contact, ?_, rfl, Or.inl rfl⟩
        rw [chats, hcurrent]
        refine List.mem_append_left _ (List.mem_map_of_mem ?_)
        show contact ∈ g.cfg.hist.1.server.listContacts (d.names c)
        rw [hserved.server]
        exact mem_listContacts_addContact hok

theorem kept_createGroupButton (hk : m.Kept d n) (answer : Option (QLineEdit × QLineEdit)) :
    Gives (m.createGroupButton d answer) (Kept d (n + 1)) := by
  unfold createGroupButton
  split
  · exact gives_ok.mpr (hk.setStatus _ _).later
  · exact gives_ok.mpr hk.later
  · next c nameEdit membersEdit hc =>
    dsimp only
    split
    · exact hk.later.warning _ _
    · generalize d.qt.toStdString (d.qt.trimmed nameEdit.text) = groupName
      generalize d.qt.splitMembers membersEdit.text = members
      refine gives_bind.mpr (gives_mono (fun r hr => ?_)
        (gives_ask hk.reached (.createGroup · groupName members) (fun _ gid => .groupId gid) rfl))
      obtain ⟨v, m1⟩ := r
      obtain ⟨hv, g, rfl, hserved, hwindow, hcalled⟩ := hr
      have ha := hcalled.alone hk.reached (hk.lone.sole hc) hk.alone
      obtain rfl : v = _ := hv
      dsimp only
      split
      · next hno =>
        have hserver := hserved.server.trans (createGroup_of_none hno)
        exact (hk.unserved hcalled hc hserver hserved.clients hwindow).later.warning _ _
      · next gid hsome =>
        obtain ⟨k, hle, hnum⟩ := hk.numbered
        have hcurrent : ({ m with gui := g } : Messenger).currentClient = some c :=
          (congrArg MessengerMainWindow.currentClient hwindow).trans hc
        refine kept_opened (hk.toSeated.served (hcalled.reached hk.reached) hserved hwindow) ?_ ha
          fun hn => ⟨d.qt.groupItem g.cfg.hist.1.server gid, ?_, rfl, Or.inl rfl⟩
        · -- a group takes one number at most
          obtain ⟨k', hk', hnum'⟩ := hnum.change (ServerCall.exec_change
            (.createGroup (d.names c) groupName members) m.gui.cfg.hist.1.server)
          rw [← hserved.server] at hnum'
          exact ⟨k', hk'.trans (Nat.add_le_add_right hle 1), hnum'⟩
        · rw [chats, hcurrent]
          refine List.mem_append_right _ (List.mem_map_of_mem ?_)
          show gid ∈ g.cfg.hist.1.server.listGroups (d.names c)
          rw [hserved.server]
          exact mem_listGroups_createGroup hsome (hnum.notMem (by omega) groupName)

theorem kept_refreshButton (hk : m.Kept d n) : Gives (m.refreshButton d) (Kept d n) := by
  refine gives_bind.mpr (gives_mono (fun m1 hm1 => ?_) (gives_refreshChatList hk.reached))
  obtain ⟨hstays, hitems, hpicks⟩ := hm1
  have hsame : m1.chatList.items = m.chatList.items := by
    rw [hitems, hstays.chats_eq, hk.list]
  have hkept : m1.Kept d n := by
    refine hk.stays hstays hsame (hpicks.imp_right fun ⟨item, hitem, hleads⟩ => ⟨item, ?_, hleads⟩)
    rw [hsame] at hitem
    exact (List.mem_append.mp hitem).elim id id
  refine gives_mono (fun m' hm' => ?_) stays_refreshMessages
  exact hkept.same hm'.1 hm'.2.1 hm'.2.2

/-- An action of the message list. -/
theorem kept_onGui (hk : m.Kept d n) {r : Except Exn Gui}
    (hr : Gives r fun g => m.gui.Stays d.env g ∧ m.gui.SameChat g) :
    Gives (m.onGui r) (Kept d n) := by
  refine gives_bind.mpr (gives_mono (fun g hg => ?_) hr)
  have hstays : m.Stays d { m with gui := g } := ⟨hg.1, rfl, rfl, rfl⟩
  exact gives_ok.mpr (hk.same hstays rfl hg.2)

theorem kept_perform (hk : m.Kept d n) (a : UserAction) (hpage : a.page = m.page) :
    Gives (m.perform d a) (Kept d (n + 1)) := by
  have hlater : ∀ {r : Except Exn Messenger}, Gives r (Kept d n) → Gives r (Kept d (n + 1)) :=
    gives_mono fun _ h => h.later
  have htyped : ∀ m', m.Stays d m' → m'.chatList = m.chatList → m.gui.SameChat m'.gui →
      Gives (.ok m') (Kept d (n + 1)) :=
    fun m' h hlist hsame => gives_ok.mpr (hk.same h hlist hsame).later
  cases a with
  | typeUsername input => exact htyped _ ⟨.of_window rfl rfl, rfl, rfl, rfl⟩ rfl ⟨rfl, rfl⟩
  | typePassword input => exact htyped _ ⟨.of_window rfl rfl, rfl, rfl, rfl⟩ rfl ⟨rfl, rfl⟩
  | register => exact hlater (gives_mono (fun _ h => h.1) (kept_registerButton hk hpage.symm))
  | login => exact hlater (kept_loginButton hk hpage.symm)
  | logout => exact hlater (gives_mono (fun _ h => h.1) (kept_logoutButton hk))
  | refresh => exact hlater (kept_refreshButton hk)
  | newChat answer => exact hlater (kept_newChatButton hk answer)
  | createGroup answer => exact kept_createGroupButton hk answer
  | selectItem row =>
      refine gives_mono (fun m' hm' => ?_) (stays_setCurrentRow row)
      exact (hk.stays hm'.1 hm'.2.1 hm'.2.2).later
  | edit input => exact hlater (kept_onGui hk (gives_ok.mpr ⟨.of_window rfl rfl, rfl, rfl⟩))
  | sendCurrentMessage => exact hlater (kept_onGui hk Gui.stays_sendCurrentMessage)
  | setCurrent row => exact hlater (kept_onGui hk (gives_ok.mpr ⟨.of_window rfl rfl, rfl, rfl⟩))
  | deleteSelectedMessage => exact hlater (kept_onGui hk Gui.stays_deleteSelectedMessage)

theorem kept_new (d : Desktop) : (Messenger.new d).Kept d 0 := by
  refine Vacant.kept ⟨⟨[], rfl⟩, rfl, fun _ => rfl, fun _ => rfl, ⟨0, Nat.le_refl 0, rfl, ?_⟩,
    fun x hx => nomatch hx⟩ rfl rfl
  exact fun g hg => absurd hg (AList.notMem_empty g)

/-- **What every run of the window keeps.** -/
theorem kept_run (d : Desktop) (actions : List UserAction) :
    Gives (run d actions) (Kept d actions.length) := by
  refine run_gives d (I := fun done m => m.Kept d done.length) (kept_new d) ?_ actions
  intro done a m _ hk
  rw [List.length_append, List.length_singleton]
  unfold act
  split
  · next hpage => exact kept_perform hk a hpage
  · exact gives_ok.mpr hk.later

/-- The window is notified as often as it stands among the observers of its current client,
that is, once. -/
theorem Seated.notified_eq (hs : m.Seated d) (notice : Notice) (world : World)
    {window : MessengerMainWindow} (hw : window.currentClient = m.currentClient) :
    window.notified d.qt m.attached notice world = window.react d.qt notice world := by
  unfold MessengerMainWindow.notified MessengerMainWindow.react
  rw [hs.attached, hw]
  split
  · rfl
  · rfl

end Messenger

/-! ### Runs of the window -/

/-- **Whose window it is.**  Whatever the user does, the page with the chats is shown exactly
while there is a current client.  That client is the only one logged in, its name is on the
page, and the window stands among its observers once and among those of no other client, so
`react` is what `notify` does to the window. -/
theorem window_seated (d : Desktop) (actions : List Messenger.UserAction) :
    Gives (Messenger.run d actions) fun m => m.Seated d ∧
      ∀ notice world (window : MessengerMainWindow), window.currentClient = m.currentClient →
        window.notified d.qt m.attached notice world = window.react d.qt notice world :=
  gives_mono (fun _ hk => ⟨hk.toSeated, fun notice world _ hw => hk.notified_eq notice world hw⟩)
    (Messenger.kept_run d actions)

/-- **The list of chats is up to date**: after every action it shows the contacts and the
groups that the server has for the user.  While the page with the chats is shown, the selected
chat is one of them, as long as the number of a group fits its counter.  (A logout empties the
list, but `clear` may select the chat of the item that was current once more.) -/
theorem chatList_current (d : Desktop) (actions : List Messenger.UserAction) :
    Gives (Messenger.run d actions) fun m => m.chatList.items = m.chats d ∧
      (actions.length < 2 ^ 64 → m.page = .chat → m.Offered d) :=
  gives_mono (fun _ hk => ⟨hk.list, hk.offered⟩) (Messenger.kept_run d actions)

/-- **A user is alone.**  Whatever is done at the window, unless an action ends in an exception,
all notices of the run are about messages to oneself.  What is for somebody else is stored as
sent, and stays so even after it has been read. -/
theorem window_alone (d : Desktop) (actions : List Messenger.UserAction) :
    Gives (Messenger.run d actions) fun m =>
      (∀ n ∈ noticesOf m.gui.cfg.hist, n.event.fromUser = d.names n.receiver) ∧
        ∀ message, m.gui.cfg.hist.1.server.Stored message → message.receiver ≠ message.sender →
          message.status = .sent := by
  refine gives_mono (fun m hk => ?_) (Messenger.kept_run d actions)
  obtain ⟨ms, hms⟩ := hk.reached
  have hatt : Attentive d.names m.gui.cfg.hist := by
    rw [hms]
    exact attentive_run d.env d.names d.disk ms
  have hsends : Sends d.env d.names m.gui.cfg.hist := by
    rw [hms]
    exact sends_run d.env d.names d.disk ms
  refine ⟨fun n hn => hatt.notices_own hk.alone hn, fun message hstored hne => ?_⟩
  obtain ⟨i, -, -, hcopy⟩ := hsends.storedBy hstored
  exact hatt.stored_sent hk.alone (mem_copiesOf.mpr hcopy) hne

/-- What can be seen of the window, unless an action has thrown. -/
def Messenger.glance (r : Except Exn Messenger) : Option (Page × Option ClientId × List QString) :=
  r.toOption.map fun m => (m.page, m.currentClient, m.chatList.items.map QListWidgetItem.text)

/-- Bob and Alice register, she writes to him and founds a group for both, and he logs in
after her. -/
def visiting : List Messenger.UserAction :=
  [.typeUsername ⟨ascii (str "bob"), by decide⟩, .typePassword ⟨ascii (str "pw"), by decide⟩,
    .register, .typeUsername ⟨ascii (str "alice"), by decide⟩, .register, .login,
    .newChat (some (ascii (str "bob"))),
    .edit ⟨ascii (str "hello"), by decide⟩, .sendCurrentMessage,
    .createGroup (some (⟨ascii (str "club"), by decide⟩, ⟨ascii (str "bob"), by decide⟩)), .logout,
    .typeUsername ⟨ascii (str "bob"), by decide⟩, .login]

/-- Then the window is Bob's, and shows the group. -/
theorem window_seated_visiting :
    Messenger.glance (Messenger.run (Desktop.reference Env.reference) visiting)
      = some (.chat, some (Desktop.clientOf (str "bob")), [ascii (str "club (group-1-club)")]) ∧
    Gives (Messenger.run (Desktop.reference Env.reference) visiting) fun m =>
      m.Seated (Desktop.reference Env.reference) :=
  ⟨by decide +kernel, gives_mono (fun _ h => h.1) (window_seated _ visiting)⟩

/-- When Alice has founded the group, Bob is selected, and he is one of her chats. -/
theorem chatList_current_visiting : ∃ m,
    Messenger.run (Desktop.reference Env.reference) (visiting.take 10) = .ok m ∧
      m.gui.window.selectedChatId = str "bob" ∧
      m.chatList.items = m.chats (Desktop.reference Env.reference) ∧
      m.Offered (Desktop.reference Env.reference) := by
  have hseen : (Messenger.run (Desktop.reference Env.reference) (visiting.take 10)).toOption.map
      (fun m => (m.page, m.gui.window.selectedChatId)) = some (.chat, str "bob") := by
    decide +kernel
  rcases hm : Messenger.run (Desktop.reference Env.reference) (visiting.take 10) with x | m
  · rw [hm] at hseen
    cases hseen
  · rw [hm] at hseen
    obtain ⟨hpage, hid⟩ := Prod.mk.inj (Option.some.inj hseen)
    obtain ⟨hitems, hoffered⟩ := chatList_current _ (visiting.take 10) m hm
    exact ⟨m, rfl, hid, hitems, hoffered (by decide) hpage⟩

end Evlampy
