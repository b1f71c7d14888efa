/-
Evlampy/Books.lean

What calls leave alone.  A user's session is made of calls of the clients, and most of them
touch no account, no group and no client (`attended_browses`).  Those that ask the server once
change what the server changes (`attended_ask`), and those that let a client in or out change
this client and nobody else (`attended_elsewhere`).

For the window that means: it still shows the chats of the same client, and the books it has
read them from are the same (`Stays`).
-/
import Evlampy.Appending
import Evlampy.Delivery
import Evlampy.Directory
import Evlampy.Outcomes
import Evlampy.Solitude

namespace Evlampy

open Cxx Callback Prog System ChatClient

variable {env : Env} {qt : Qt} {g g' : Gui} {w w' : World} {h : History} {i : Nat} {c : ClientId}
  {op : Op} {ω : Type} {react : Notice → World → ω → ω} {x : ω}

/-! ### What calls leave alone -/

/-- Actions that touch no account, no group and no client. -/
def BookFree : Eff → Prop
  | .server (.registerUser ..) => False
  | .server (.addContact ..) => False
  | .server (.removeContact ..) => False
  | .server (.createGroup ..) => False
  | .assign .. => False
  | _ => True

/-- The same accounts, groups and clients. -/
structure SameBooks (w w' : World) : Prop where
  users : w'.server.users = w.server.users
  groups : w'.server.groups = w.server.groups
  counter : w'.server.nextGroupId = w.server.nextGroupId
  clients : w'.clients = w.clients

theorem SameBooks.refl (w : World) : SameBooks w w := ⟨rfl, rfl, rfl, rfl⟩

theorem SameBooks.trans {w'' : World} (h : SameBooks w w') (h' : SameBooks w' w'') :
    SameBooks w w'' :=
  ⟨h'.users.trans h.users, h'.groups.trans h.groups, h'.counter.trans h.counter,
    h'.clients.trans h.clients⟩

theorem SameBooks.listContacts_eq (hb : SameBooks w w') (u : Str) :
    w'.server.listContacts u = w.server.listContacts u := by
  unfold ChatServer.listContacts
  rw [hb.users]

theorem SameBooks.listGroups_eq (hb : SameBooks w w') (u : Str) :
    w'.server.listGroups u = w.server.listGroups u := by
  unfold ChatServer.listGroups
  rw [hb.groups]

/-- Only `createGroup` counts and makes groups. -/
theorem ServerCall.exec_groups {q : ServerCall} (hq : q.createsGroup = false) (s : ChatServer) :
    (q.exec s).2.groups = s.groups ∧ (q.exec s).2.nextGroupId = s.nextGroupId := by
  have hchange := q.exec_change s
  refine ⟨hchange.groups_eq hq, ?_⟩
  generalize (q.exec s).2 = s' at hchange
  cases hchange with
  | group owner groupName members => cases hq
  | stored m =>
      unfold ChatServer.storeMessage
      split <;> rfl
  | _ => rfl

theorem sameBooks_exec {e : Eff} (he : BookFree e) (w : World) : SameBooks w (e.exec env w).2 := by
  cases e with
  | server q =>
      have hgroups : q.createsGroup = false := by
        cases q <;> first | rfl | exact he.elim
      obtain ⟨hgroups, hcounter⟩ := q.exec_groups hgroups w.server
      refine ⟨?_, hgroups, hcounter, rfl⟩
      cases q <;> first | exact he.elim | exact w.server.storeMessage_users _ | rfl
  | tcp q => exact ⟨rfl, rfl, rfl, rfl⟩
  | file q => exact ⟨rfl, rfl, rfl, rfl⟩
  | assign d u => exact he.elim
  | _ => exact ⟨rfl, rfl, rfl, rfl⟩

/-- The functions that touch no account, no group and no client. -/
def Op.Browses : Op → Prop
  | .sendMessage .. | .sendGroupMessage .. | .deleteMessageForAll _ => True
  | .getConversation _ | .getGroupConversation _ => True
  | .listContacts | .listGroups => True
  | _ => False

theorem body_bookFree (hop : op.Browses) (env : Env) (c : ClientId) :
    (Call.body env ⟨c, op⟩).AllActs BookFree fun _ => True := by
  have hsends : op.Sends → (Call.body env ⟨c, op⟩).AllActs BookFree fun _ => True := by
    intro hsends
    refine (body_allActs env ⟨c, op⟩).mono (fun e he => ?_) fun _ _ => trivial
    replace he : SendActs e := by
      cases op <;> first | exact he | exact hsends.elim
    cases e with
    | server q => cases q <;> trivial
    | assign d u => exact he.elim
    | _ => trivial
  have hviews : ∀ self messages, (viewsOf env self messages [] >>= fun views =>
      (pure (.views views) : Code Value)).AllActs BookFree fun _ => True :=
    fun self messages =>
      (viewsOf_allActs env (fun _ => trivial) self messages []).bind fun _ => trivial
  cases op with
  | sendMessage _ _ => exact hsends trivial
  | sendGroupMessage _ _ => exact hsends trivial
  | deleteMessageForAll messageId =>
      refine .act_bind trivial fun self => ?_
      show (ite _ _ _ >>= _ : Code Value).AllActs BookFree _
      split
      · trivial
      · exact .act_bind trivial fun _ => trivial
  | getConversation peer =>
      exact .act_bind trivial fun self => .act_bind trivial fun messages => hviews _ _
  | getGroupConversation groupId =>
      exact .act_bind trivial fun self => .act_bind trivial fun messages => hviews _ _
  | listContacts => exact .act_bind trivial fun self => .act_bind trivial fun _ => trivial
  | listGroups => exact .act_bind trivial fun self => .act_bind trivial fun _ => trivial
  | _ => exact hop.elim

/-! ### What calls do -/

theorem attended_browses (hop : op.Browses) (hw : SameBooks w h.1) :
    env.system.attended react i (Call.body env ⟨c, op⟩) (fun _ h' _ => SameBooks w h'.1) h x := by
  refine attended_of_allActs (K := fun h' : History => SameBooks w h'.1) ?_ ?_
    (body_bookFree hop env c) hw
  · exact fun e h' he hK => hK.trans (sameBooks_exec he h'.1)
  · exact fun n h' _ hK => hK

/-- The world after one call of the server. -/
structure ServedBy (q : ServerCall) (w w' : World) : Prop where
  server : w'.server = (q.exec w.server).2
  clients : w'.clients = w.clients

/-- The functions that ask the server once, under the name of the client. -/
theorem attended_ask (q : Str → ServerCall) (f : ∀ u, (q u).Res → Value) :
    env.system.attended react i
      (do
        let self ← Code.get c
        let r ← Code.server (q self.username)
        (pure (f self.username r) : Code Value))
      (fun r h' y => r = .ok (f (h.1.clients c).username
          ((q (h.1.clients c).username).exec h.1.server).1) ∧
        ServedBy (q (h.1.clients c).username) h.1 h'.1 ∧ y = x) h x := by
  refine attended_step fun self h1 hself hh1 => attended_step fun r h2 hr hh2 => ?_
  obtain rfl : self = h.1.clients c := hself
  rw [hh1] at hr
  refine ⟨by rw [hr]; rfl, ⟨?_, ?_⟩, rfl⟩
  · rw [hh2, hh1]
    rfl
  · rw [hh2, hh1]
    rfl

/-- A new contact is in the list. -/
theorem mem_listContacts_addContact {s : ChatServer} {owner contact : Str}
    (hok : (s.addContact owner contact).1 = true) :
    contact ∈ (s.addContact owner contact).2.listContacts owner := by
  unfold ChatServer.addContact at hok ⊢
  split at hok
  · split at hok
    · cases hok
    · next hnew =>
      simp only [if_neg hnew]
      rw [ChatServer.listContacts, AList.lookup_insert, mem_sortedFromSet]
      exact Finset.mem_insert_self _ _
  · cases hok

/-- A new group is in the list of its owner, if its id was free. -/
theorem mem_listGroups_createGroup {s : ChatServer} {owner groupName gid : Str}
    {members : List Str} (hok : (s.createGroup owner groupName members).1 = some gid)
    (hfree : ChatServer.makeGroupId s.nextGroupId groupName ∉ s.groups) :
    gid ∈ (s.createGroup owner groupName members).2.listGroups owner := by
  obtain ⟨howner, rfl⟩ := createGroup_eq_some.mp hok
  obtain ⟨record, hrecord, hlookup⟩ := lookup_createGroup members howner hfree
  rw [ChatServer.mem_listGroups, ChatServer.mem_getGroupMembers_iff]
  exact ⟨record, hlookup, (hrecord.member owner).mpr (Or.inl rfl)⟩

/-- What a call of the client `c` on the first page leaves as it is. -/
structure Elsewhere (c : ClientId) (w w' : World) : Prop where
  clients : ∀ e, e ≠ c → w'.clients e = w.clients e
  groups : w'.server.groups = w.server.groups
  counter : w'.server.nextGroupId = w.server.nextGroupId

theorem Elsewhere.refl (c : ClientId) (w : World) : Elsewhere c w w := ⟨fun _ _ => rfl, rfl, rfl⟩

/-- The functions that let a client in or out. -/
def Op.Enters : Op → Prop
  | .registerOnServer _ | .login _ | .logout => True
  | _ => False

theorem attended_elsewhere (hop : op.Enters) (hw : Elsewhere c w h.1) :
    env.system.attended react i (Call.body env ⟨c, op⟩)
      (fun _ h' y => Elsewhere c w h'.1 ∧ y = x) h x := by
  have hgroups : ∀ e, Footprint c op e → ∀ w : World,
      (e.exec env w).2.server.groups = w.server.groups ∧
        (e.exec env w).2.server.nextGroupId = w.server.nextGroupId := by
    intro e he w
    cases e with
    | server q =>
        refine q.exec_groups ?_ w.server
        cases q with
        | createGroup _ _ _ => cases op <;> first | exact he.elim | exact hop.elim
        | _ => rfl
    | _ => exact ⟨rfl, rfl⟩
  have hquiet : ¬ op.Sends := by
    cases op <;> first | exact hop.elim | exact id
  refine attended_of_wp (J := fun _ => True)
    (wp_of_allActs (K := fun h' : History => Elsewhere c w h'.1) ?_ (fun _ _ hn => (hquiet hn).elim)
      (body_allActs env ⟨c, op⟩) hw)
  intro e h' he hK
  obtain ⟨hg, hn⟩ := hgroups e he h'.1
  exact ⟨fun d hd => (exec_clients_of_footprint hd he).trans (hK.clients d hd), hg.trans hK.groups,
    hn.trans hK.counter⟩

theorem attended_registerOnServer (p : Str) :
    env.system.attended react i (Call.body env ⟨c, .registerOnServer p⟩)
      (fun _ h' _ => (h'.1.clients c).loggedIn = (h.1.clients c).loggedIn) h x := by
  refine attended_of_allActs (K := fun h' : History =>
    (h'.1.clients c).loggedIn = (h.1.clients c).loggedIn) ?_ (fun n h' _ hK => hK)
    (body_allActs env ⟨c, .registerOnServer p⟩) rfl
  intro e h' he hK
  have hfree := sessionFree_of_footprint (fun _ hp => by cases hp) (fun hp => by cases hp) he
  exact ((sameSessions_exec env hfree h'.1).loggedIn c).trans hK

/-- The answer says whether the client is logged in now. -/
theorem attended_login (p : Str) : env.system.attended react i (Call.body env ⟨c, .login p⟩)
    (fun r h' _ => ∀ v, r = .ok v → (h'.1.clients c).loggedIn = v.isTrue) h x := by
  refine attended_mono (fun _ _ _ hr => hr.1)
    (attended_of_wp (J := fun _ => True) (wp_bind_pure.mpr ?_))
  refine wp_mono (fun r h' hr v hv => ?_) (wp_login_answer p)
  rcases r with x | b
  · cases hv
  · cases hv
    exact hr b rfl

theorem attended_logout : env.system.attended react i (Call.body env ⟨c, .logout⟩)
    (fun _ h' _ => (h'.1.clients c).loggedIn = false) h x := by
  have hout : ∀ w : World, ((w.assign c (.loggedIn false)).clients c).loggedIn = false := by
    intro w
    rw [World.assign_self]
    rfl
  refine attended_bind.mpr (attended_bind.mpr (attended_step fun self h1 _ _ => ?_))
  split
  · exact hout _
  · exact hout _

/-! ### Calls of the window -/

namespace Gui

/-- What a call of the client `c` makes of a run: it goes on, and the call runs alone if nobody
else is logged in. -/
structure Called (env : Env) (c : ClientId) (g g' : Gui) : Prop where
  reached : ∀ {names disk}, (∃ ms, g.cfg = env.run names disk ms) →
    ∃ ms, g'.cfg = env.run names disk ms
  alone : ∀ {names disk}, (∃ ms, g.cfg = env.run names disk ms) → Sole c g.cfg.hist.1 →
    Alone g.cfg.hist → Alone g'.cfg.hist

/-- Nobody is logged in but the current client. -/
def Lone (g : Gui) : Prop :=
  ∀ c, (g.cfg.hist.1.clients c).loggedIn = true → g.window.currentClient = some c

theorem Lone.sole (hl : g.Lone) (hc : g.window.currentClient = some c) : Sole c g.cfg.hist.1 :=
  fun e he => Option.some.inj ((hl e he).symm.trans hc)

theorem Lone.sole_of_none (hl : g.Lone) (hc : g.window.currentClient = none) (c : ClientId) :
    Sole c g.cfg.hist.1 :=
  fun e he => nomatch hc.symm.trans (hl e he)

/-- The window still shows the same client's chats, in a state of the same run, and the books
are the same. -/
structure Stays (env : Env) (g g' : Gui) : Prop where
  reached : ∀ {names disk}, (∃ ms, g.cfg = env.run names disk ms) →
    ∃ ms, g'.cfg = env.run names disk ms
  alone : ∀ {names disk}, (∃ ms, g.cfg = env.run names disk ms) → g.Lone → Alone g.cfg.hist →
    Alone g'.cfg.hist
  books : SameBooks g.cfg.hist.1 g'.cfg.hist.1
  currentClient : g'.window.currentClient = g.window.currentClient

theorem Stays.lone (h : g.Stays env g') (hl : g.Lone) : g'.Lone := by
  intro c hc
  rw [h.books.clients] at hc
  exact h.currentClient.trans (hl c hc)

theorem Stays.trans {g'' : Gui} (h : g.Stays env g') (h' : g'.Stays env g'') : g.Stays env g'' :=
  ⟨fun hr => h'.reached (h.reached hr),
    fun hr hl ha => h'.alone (h.reached hr) (h.lone hl) (h.alone hr hl ha),
    h.books.trans h'.books, h'.currentClient.trans h.currentClient⟩

/-- A call of the current client. -/
theorem Called.stays (h : g.Called env c g') (hc : g.window.currentClient = some c)
    (hbooks : SameBooks g.cfg.hist.1 g'.cfg.hist.1)
    (hcurrent : g'.window.currentClient = g.window.currentClient) : g.Stays env g' :=
  ⟨h.reached, fun hr hl => h.alone hr (hl.sole hc), hbooks, hcurrent⟩

/-- A change of the window only. -/
theorem Stays.of_window (hcfg : g'.cfg = g.cfg)
    (hc : g'.window.currentClient = g.window.currentClient) : g.Stays env g' := by
  refine ⟨?_, fun _ _ ha => ?_, ?_, hc⟩
  · rintro names disk ⟨ms, hms⟩
    exact ⟨ms, hcfg.trans hms⟩
  · rw [hcfg]
    exact ha
  · rw [hcfg]
    exact .refl _

/-- The selected chat is the same. -/
def SameChat (g g' : Gui) : Prop :=
  g'.window.selectedChatKind = g.window.selectedChatKind ∧
    g'.window.selectedChatId = g.window.selectedChatId

theorem SameChat.trans {g'' : Gui} (h : g.SameChat g') (h' : g'.SameChat g'') : g.SameChat g'' :=
  ⟨h'.1.trans h.1, h'.2.trans h.2⟩

/-- What holds of a call, and of the run it belongs to. -/
theorem gives_call {P : Except Exn Value → World → MessengerMainWindow → Prop}
    (hp : env.system.attended (MessengerMainWindow.react qt) g.cfg.next (Call.body env ⟨c, op⟩)
      (fun r h w => P r h.1 w) (env.system.push g.cfg.hist g.cfg.next (.called ⟨c, op⟩))
      g.window) :
    Gives (g.call env qt c op) fun r => P (.ok r.1) r.2.cfg.hist.1 r.2.window ∧
      g.Called env c r.2 := by
  rintro ⟨v, g'⟩ hcall
  obtain ⟨h', hpost, hworld⟩ := call_spec hcall hp
  refine ⟨?_, fun hreached => reached_call hreached hcall, fun ⟨ms, hms⟩ hs ha => ?_⟩
  · rw [hworld]
    exact hpost
  · refine alone_call ha ?_ hs hcall
    rw [hms]
    exact (numbered_run env.system _ ms).trace_lt

/-- Notices do not change what is selected. -/
theorem attended_selected (p : Code Value) {w : MessengerMainWindow} :
    env.system.attended (MessengerMainWindow.react qt) i p
      (fun _ _ w' => w'.currentClient = w.currentClient ∧
        w'.selectedChatKind = w.selectedChatKind ∧ w'.selectedChatId = w.selectedChatId) h w := by
  refine attended_of_react (K := fun w' : MessengerMainWindow => w'.currentClient = w.currentClient ∧
    w'.selectedChatKind = w.selectedChatKind ∧ w'.selectedChatId = w.selectedChatId)
    (fun n s w' hw => ?_) p ⟨rfl, rfl, rfl⟩
  unfold MessengerMainWindow.react
  split
  · unfold MessengerMainWindow.onNotify
    split
    · exact hw
    · split <;> exact hw
  · exact hw

theorem stays_call (hop : op.Browses) (hc : g.window.currentClient = some c) :
    Gives (g.call env qt c op) fun r => g.Stays env r.2 ∧ g.SameChat r.2 := by
  refine gives_mono (fun r hr => ?_) (gives_call
    (P := fun _ w' window => SameBooks g.cfg.hist.1 w' ∧
      window.currentClient = g.window.currentClient ∧
      window.selectedChatKind = g.window.selectedChatKind ∧
      window.selectedChatId = g.window.selectedChatId)
    (attended_and (attended_browses hop (.refl _)) (attended_selected (Call.body env ⟨c, op⟩))))
  obtain ⟨⟨hbooks, hcurrent, hchat⟩, hcalled⟩ := hr
  exact ⟨hcalled.stays hc hbooks hcurrent, hchat⟩

theorem readChat_browses (kind : ChatKind) (id : Str) : (readChat kind id).Browses := by
  cases kind <;> trivial

theorem sendToChat_browses (kind : ChatKind) (id text : Str) :
    (sendToChat kind id text).Browses := by
  cases kind <;> trivial

theorem stays_refreshMessages :
    Gives (g.refreshMessages env qt) fun g' => g.Stays env g' ∧ g.SameChat g' := by
  unfold refreshMessages
  dsimp only
  split
  · split
    · exact gives_ok.mpr ⟨.of_window rfl rfl, rfl, rfl⟩
    · exact gives_ok.mpr ⟨.of_window rfl rfl, rfl, rfl⟩
  · next c hc =>
    split
    · exact gives_ok.mpr ⟨.of_window rfl rfl, rfl, rfl⟩
    · refine gives_bind.mpr (gives_mono (fun r hr => ?_) (stays_call (readChat_browses _ _) hc))
      obtain ⟨hstays, hchat⟩ := hr
      have hcleared : g.Stays env (g.withWindow (cleared g.window)) := .of_window rfl rfl
      exact gives_ok.mpr ⟨(hcleared.trans hstays).trans (.of_window rfl rfl), hchat⟩

theorem stays_self : g.Stays env g ∧ g.SameChat g := ⟨.of_window rfl rfl, rfl, rfl⟩

theorem stays_withWindow {window : MessengerMainWindow} (h : g.Stays env g' ∧ g.SameChat g')
    (hc : window.currentClient = g'.window.currentClient)
    (hchat : g'.SameChat (g'.withWindow window)) :
    g.Stays env (g'.withWindow window) ∧ g.SameChat (g'.withWindow window) :=
  ⟨h.1.trans (.of_window rfl hc), h.2.trans hchat⟩

theorem stays_report (h : g.Stays env g' ∧ g.SameChat g') (text : String) (error : Bool) :
    Gives (g'.report qt text error) fun g'' => g.Stays env g'' ∧ g.SameChat g'' :=
  gives_ok.mpr (stays_withWindow h rfl ⟨rfl, rfl⟩)

theorem stays_sendCurrentMessage :
    Gives (g.sendCurrentMessage env qt) fun g' => g.Stays env g' ∧ g.SameChat g' := by
  unfold sendCurrentMessage
  split
  · exact stays_report stays_self _ _
  · next c hc =>
    dsimp only
    split
    · exact stays_report stays_self _ _
    · split
      · exact stays_report stays_self _ _
      · refine gives_bind.mpr (gives_mono (fun r hr => ?_)
          (stays_call (sendToChat_browses _ _ _) hc))
        split
        · exact stays_report hr _ _
        · refine stays_report ?_ _ _
          exact stays_withWindow hr rfl ⟨rfl, rfl⟩

theorem stays_deleteSelectedMessage :
    Gives (g.deleteSelectedMessage env qt) fun g' => g.Stays env g' ∧ g.SameChat g' := by
  unfold deleteSelectedMessage
  split
  · exact stays_report stays_self _ _
  · next c hc =>
    dsimp only
    split
    · exact stays_report stays_self _ _
    · split
      · exact gives_ok.mpr stays_self
      · split
        · exact stays_report stays_self _ _
        · refine gives_bind.mpr (gives_mono (fun r hr => ?_) (stays_call trivial hc))
          split
          · exact stays_report hr _ _
          · refine stays_report ?_ _ _
            exact stays_withWindow hr rfl ⟨rfl, rfl⟩

end Gui

end Evlampy
