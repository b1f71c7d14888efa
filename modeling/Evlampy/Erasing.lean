/-
Evlampy/Erasing.lean

Deleting the selected message.  The ids of the messages the server holds are all
different (`nodup_messageIds`), so a deletion that succeeds takes one message
out of the chat.  The window erases the entry with this id from its list and the row of
the entry from its table, which are the same place (`erase_shown`).  The entries appended
after a send cannot be deleted.
-/
import Evlampy.FanOut
import Evlampy.Groups
import Evlampy.Interleavings
import Evlampy.Refresh

namespace Evlampy

open Cxx Callback Prog System ChatServer ChatClient UnorderedMap

variable {env : Env} {qt : Qt} {names : ClientId → Str} {disk : Str → Option Str} {g g' : Gui}
  {h : History} {i : Nat} {c : ClientId} {m : Message} {s : ChatServer} {L : List Message}

/-! ### Ids -/

theorem lt_128_messageId (env : Env) (k : Nat) : ∀ b ∈ env.messageId k, b < 128 := by
  intro b hb
  obtain rfl | ⟨-, hle⟩ | ⟨-, hle⟩ := mem_generateId hb
  · decide
  · exact UInt8.lt_of_le_of_lt hle (by decide)
  · exact UInt8.lt_of_le_of_lt hle (by decide)

theorem take_of_temporary {id : Str} (ht : temporary id) : id.take 5 = str "temp_" := by
  obtain ⟨z, rfl⟩ := ht
  exact List.take_left' rfl

theorem lt_128_of_temporary {id : Str} (ht : temporary id) : ∀ b ∈ id, b < 128 := by
  obtain ⟨z, rfl⟩ := ht
  intro b hb
  rcases List.mem_append.mp hb with hb | hb
  · exact (by decide +kernel : ∀ b ∈ str "temp_", b < 128) b hb
  · obtain rfl | ⟨-, hle⟩ := Digits.mem_signed hb
    · decide
    · exact UInt8.lt_of_le_of_lt hle (by decide)

/-- The ids of all messages that have been stored are different. -/
theorem nodup_messageIds (hs : Sends env names h) (hf : env.FreshIds h.1.draws) :
    ((storesIn h.2).map Message.messageId).Nodup := by
  have howned : ∀ x ∈ h.2, ∀ m, storedBy x.act = some m →
      ∃ k, Owns h x.inst k ∧ m.messageId = env.messageId k := by
    intro x hx m hm
    obtain ⟨text, hcopy, -⟩ := hs.copies x.inst m
      (mem_copiesOf.mpr ⟨x, hx, rfl, stored_of_storedBy hm⟩)
    exact hcopy.id
  rw [List.Nodup, List.pairwise_map, storesIn, List.pairwise_filterMap]
  refine List.pairwise_iff_getElem.mpr fun a b ha hb hab m hm m' hm' heq => ?_
  -- the number the id is made of belongs to one call, and this call uses it once
  obtain ⟨k, hk, hid⟩ := howned _ (List.getElem_mem ha) m hm
  obtain ⟨k', hk', hid'⟩ := howned _ (List.getElem_mem hb) m' hm'
  obtain rfl := hf k (hs.drawn _ k hk) k' (hs.drawn _ k' hk') (hid.symm.trans (heq.trans hid'))
  have hinst := hs.owner _ _ k hk hk'
  have hids := hs.ids hf h.2[a].inst
  rw [List.Nodup, List.pairwise_map, copiesOf, List.pairwise_filterMap, own, List.pairwise_filter,
    List.pairwise_iff_getElem] at hids
  exact hids a b ha hb hab (by simp) (by simp [hinst]) m hm m' hm' heq

/-- The messages the server holds in a run, and their ids. -/
theorem exists_log (env : Env) (names : ClientId → Str) (disk : Str → Option Str)
    (ms : List (Move Exn Call)) (hf : env.FreshIds (env.run names disk ms).hist.1.draws) :
    ∃ L, Logged (env.run names disk ms).hist.1.server L ∧ (L.map Message.messageId).Nodup ∧
      ∀ m ∈ L, ∃ k, m.messageId = env.messageId k := by
  have hs := sends_run env names disk ms
  have hsub := logOfTrace_sublist (env.run names disk ms).hist.2
  refine ⟨(logOfTrace (env.run names disk ms).hist.2).map Prod.snd,
    logged_run env names disk ms, ?_, fun m hm => ?_⟩
  · refine List.Nodup.sublist (hsub.map Message.messageId) ?_
    rw [List.map_reverse, List.nodup_reverse]
    exact nodup_messageIds hs hf
  · obtain ⟨i, hi⟩ := mem_storesIn_iff.mp (List.mem_reverse.mp (hsub.subset hm))
    obtain ⟨text, hcopy, -⟩ := hs.copies i m hi
    obtain ⟨k, -, hid⟩ := hcopy.id
    exact ⟨k, hid⟩

/-! ### What a deletion takes out of a chat -/

/-- The message is one of the chat that the user `u` has selected. -/
def inChat (u : Str) (kind : ChatKind) (id : Str) (m : Message) : Bool :=
  id ≠ [] && match kind with
    | .direct => directKey m = some (makeConversationKey u id)
    | .group => groupKey m = some id && m.receiver = u

theorem chatMessages_eq (hL : Logged s L) (u : Str) (kind : ChatKind) (id : Str) :
    s.chatMessages u kind id = L.filter (inChat u kind id) := by
  unfold ChatServer.chatMessages inChat
  by_cases hid : id = []
  · simp [hid]
  · cases kind with
    | direct => simp [hid, ChatServer.getConversation, hL.direct _]
    | group =>
        simp [hid, ChatServer.getGroupConversation, hL.group _, List.filter_filter, Bool.and_comm]

theorem chatMessages_deleteMessageForAll (hL : Logged s L) (requester messageId u : Str)
    (kind : ChatKind) (id : Str) :
    (s.deleteMessageForAll requester messageId).2.chatMessages u kind id
      = (s.chatMessages u kind id).filter
          fun m => ¬ (m.messageId = messageId ∧ m.sender = requester) := by
  rw [chatMessages_eq (hL.deleteMessageForAll requester messageId), chatMessages_eq hL,
    List.filter_filter, List.filter_filter]
  simp only [Bool.and_comm]

/-- A deletion that fails leaves the chat as it is. -/
theorem chatMessages_of_false (hL : Logged s L) {requester messageId : Str}
    (hfalse : (s.deleteMessageForAll requester messageId).1 = false) (u : Str) (kind : ChatKind)
    (id : Str) : (s.deleteMessageForAll requester messageId).2.chatMessages u kind id
      = s.chatMessages u kind id := by
  rw [chatMessages_deleteMessageForAll hL, List.filter_eq_self]
  intro m hm
  rw [chatMessages_eq hL] at hm
  have hnone := mt (hL.deleteMessageForAll_fst requester messageId).mpr (by simp [hfalse])
  exact decide_eq_true fun htarget => hnone ⟨m, List.mem_of_mem_filter hm, htarget⟩

/-- One that succeeds takes out the message with the id. -/
theorem chatMessages_of_true (hL : Logged s L) (hids : (L.map Message.messageId).Nodup)
    {requester messageId : Str} (htrue : (s.deleteMessageForAll requester messageId).1 = true)
    (u : Str) (kind : ChatKind) (id : Str) :
    (s.deleteMessageForAll requester messageId).2.chatMessages u kind id
      = (s.chatMessages u kind id).filter fun m => m.messageId ≠ messageId := by
  rw [chatMessages_deleteMessageForAll hL]
  refine List.filter_congr fun m hm => ?_
  rw [chatMessages_eq hL] at hm
  obtain ⟨m', hm', rfl, rfl⟩ := (hL.deleteMessageForAll_fst requester messageId).mp htrue
  have hone : m.messageId = m'.messageId → m.sender = m'.sender := fun heq =>
    congrArg Message.sender (List.inj_on_of_nodup_map hids (List.mem_of_mem_filter hm) hm' heq)
  rw [decide_eq_decide, ne_eq, not_and]
  exact ⟨fun hne heq => hne heq (hone heq), fun hne heq => absurd heq hne⟩

/-! ### Deleting in the window -/

/-- Deleting changes the histories and nothing else. -/
theorem attended_deleteMessageForAll {ω : Type} {react : Notice → World → ω → ω} {x : ω}
    {messageId : Str} (hlog : (h.1.clients c).loggedIn = true) (hid : messageId ≠ []) :
    env.system.attended react i (Call.body env ⟨c, .deleteMessageForAll messageId⟩)
      (fun r h' y => r = .ok (.bool (h.1.server.deleteMessageForAll
          (h.1.clients c).username messageId).1) ∧
        h'.1.server = (h.1.server.deleteMessageForAll (h.1.clients c).username messageId).2 ∧
        h'.1.clients = h.1.clients ∧ y = x) h x := by
  have hgo : ¬ ((h.1.clients c).loggedIn = false ∨ messageId = []) := by
    simp [hlog, hid]
  refine attended_step fun self h1 hself hh1 => ?_
  obtain rfl : self = h.1.clients c := hself
  subst hh1
  show env.system.attended react i
    ((if (h.1.clients c).loggedIn = false ∨ messageId = [] then pure false
      else Code.server (.deleteMessageForAll (h.1.clients c).username messageId) :
        Code Bool) >>= fun b => pure (Value.bool b)) _ _ _
  rw [if_neg hgo]
  exact ⟨rfl, rfl, rfl, rfl⟩

theorem deleteMessageForAll_spec (hs : Serves env names disk c g) {messageId : Str} {v : Value}
    (hid : messageId ≠ [])
    (hcall : g.call env qt c (.deleteMessageForAll messageId) = .ok (v, g')) :
    v = .bool (g.cfg.hist.1.server.deleteMessageForAll
        (g.cfg.hist.1.clients c).username messageId).1 ∧
      Serves env names disk c g' ∧
      g'.cfg.hist.1.server = (g.cfg.hist.1.server.deleteMessageForAll
        (g.cfg.hist.1.clients c).username messageId).2 ∧
      g'.cfg.hist.1.clients = g.cfg.hist.1.clients ∧ g'.window = g.window := by
  obtain ⟨h1, ⟨hv, hserver, hclients, hwindow⟩, hworld⟩ :=
    Gui.call_spec hcall (attended_deleteMessageForAll hs.loggedIn hid)
  rw [← hworld] at hserver hclients
  replace hclients : g'.cfg.hist.1.clients = g.cfg.hist.1.clients := hclients
  refine ⟨Except.ok.inj hv, ⟨Gui.reached_call hs.reached hcall, ?_, ?_⟩, hserver, hclients, hwindow⟩
  · rw [hclients]
    exact hs.loggedIn
  · rw [hwindow]
    exact hs.current

/-- The list without the entry with the id, and the table without the row. -/
def MessengerMainWindow.erase (messageId : Str) (row : Nat) (w : MessengerMainWindow) :
    MessengerMainWindow :=
  { w with
    messages := w.messages.eraseP fun msg => msg.messageId = messageId
    messageTable := w.messageTable.removeRow row }

/-- What `deleteSelectedMessage` has done: nothing, or one call, and then the entry is erased
unless the call has failed. -/
theorem deleteSelectedMessage_cases (hc : g.window.currentClient = some c)
    (hr : g.deleteSelectedMessage env qt = .ok g') :
    g'.cfg = g.cfg ∧ g.window.Same g'.window ∨
      ∃ (n : Nat) (item : QTableWidgetItem) (v : Value) (g1 : Gui),
        g.window.messageTable.rows[n]? = some (some item) ∧ qt.toStdString item.userRole ≠ [] ∧
        ¬ temporary (qt.toStdString item.userRole) ∧
        g.call env qt c (.deleteMessageForAll (qt.toStdString item.userRole)) = .ok (v, g1) ∧
        g'.cfg = g1.cfg ∧ (v.isTrue = false ∧ g1.window.Same g'.window ∨
          v.isTrue = true ∧ (g1.window.erase (qt.toStdString item.userRole) n).Same g'.window) := by
  unfold Gui.deleteSelectedMessage at hr
  simp only [hc] at hr
  split at hr
  · cases hr
    exact Or.inl ⟨rfl, rfl, rfl, rfl, rfl, rfl⟩
  · next hrow =>
    obtain ⟨n, hn⟩ := Int.eq_ofNat_of_zero_le (by omega : 0 ≤ g.window.messageTable.currentRow)
    rw [hn, QTableWidget.item_natCast] at hr
    split at hr
    · cases hr
      exact Or.inl ⟨rfl, rfl, rfl, rfl, rfl, rfl⟩
    · next item hitem =>
      split at hr
      · cases hr
        exact Or.inl ⟨rfl, rfl, rfl, rfl, rfl, rfl⟩
      · next hid =>
        rw [not_or] at hid
        obtain ⟨⟨v, g1⟩, hcall, hr⟩ := bind_eq_ok.mp hr
        refine Or.inr ⟨n, item, v, g1, Option.join_eq_some_iff.mp hitem, hid.1,
          fun ht => hid.2 (take_of_temporary ht), hcall, ?_⟩
        split at hr
        · next hfalse =>
          cases hr
          exact ⟨rfl, Or.inl ⟨hfalse, rfl, rfl, rfl, rfl, rfl⟩⟩
        · next htrue =>
          cases hr
          exact ⟨rfl, Or.inr ⟨by simpa using htrue, rfl, rfl, rfl, rfl,
            QTableWidget.rows_ite_selectRow _ _⟩⟩

/-- The entry with an id is at the place of the message with the id. -/
theorem erase_shown {client : ChatClient} {messages : List Message} {views : List MessageView}
    (hall : List.Forall₂ (fun m view => (∃ k, m.messageId = env.messageId k) ∧
      ShownAs env client m view) messages views)
    (hids : (messages.map Message.messageId).Nodup) {n : Nat} {view : MessageView}
    (hn : views[n]? = some view) (hreal : ¬ temporary view.messageId) :
    List.Forall₂ (ShownAs env client) (messages.filter fun m => m.messageId ≠ view.messageId)
        (views.eraseIdx n) ∧
      (views.eraseP fun msg => msg.messageId = view.messageId) = views.eraseIdx n := by
  induction hall generalizing n with
  | nil => cases hn
  | @cons m first messages views hm hrest ih =>
      rw [List.map_cons, List.nodup_cons] at hids
      cases n with
      | zero =>
          obtain rfl : first = view := Option.some.inj hn
          have heq := hm.2.id.resolve_right hreal
          have hkeep : (messages.filter fun m => m.messageId ≠ first.messageId) = messages := by
            refine List.filter_eq_self.mpr fun m' hm' => decide_eq_true fun h => hids.1 ?_
            exact List.mem_map.mpr ⟨m', hm', h.trans heq⟩
          rw [List.filter_cons_of_neg (by simp [heq]), hkeep,
            List.eraseP_cons_of_pos (by simp), List.eraseIdx_cons_zero]
          exact ⟨hrest.imp fun _ _ h => h.2, rfl⟩
      | succ n =>
          rw [List.getElem?_cons_succ] at hn
          obtain ⟨hshown, herase⟩ := ih hids.2 hn
          -- the entry stands for a later message, whose id is another
          obtain ⟨m', hm', hid⟩ : ∃ m' ∈ messages, view.messageId = m'.messageId := by
            have hlater : ∀ later ∈ views, (∃ m' ∈ messages, later.messageId = m'.messageId) ∨
                temporary later.messageId :=
              forall_mem_of_forall₂ ((List.forall₂_and_left _ _).mpr ⟨fun _ h => h, hrest⟩)
                fun m' _ h => h.2.2.id.imp_left fun heq => ⟨m', h.1, heq⟩
            exact (hlater view (List.mem_of_getElem? hn)).resolve_right hreal
          have hne : m.messageId ≠ view.messageId := fun heq =>
            hids.1 (List.mem_map.mpr ⟨m', hm', (heq.trans hid).symm⟩)
          have hne' : first.messageId ≠ view.messageId := by
            rcases hm.2.id with heq | ht
            · rwa [heq]
            · exact fun heq => hreal (heq ▸ ht)
          rw [List.filter_cons_of_pos (by simp [hne]), List.eraseP_cons_of_neg (by simp [hne']),
            List.eraseIdx_cons_succ, herase]
          exact ⟨.cons hm.2 hshown, rfl⟩

/-- A deletion keeps the list in step. -/
theorem inStep_deleteSelectedMessage (hl : Reliable env qt)
    (hf : env.FreshIds g.cfg.hist.1.draws) (hg : InStep env qt names disk c g)
    (hr : g.deleteSelectedMessage env qt = .ok g') : InStep env qt names disk c g' := by
  obtain ⟨hcfg, hsame⟩ | ⟨n, item, v, g1, hitem, hne, htemp, hcall, hcfg, hdeleted⟩ :=
    deleteSelectedMessage_cases hg.current hr
  · exact hg.congr hcfg hsame
  obtain ⟨ms, hms⟩ := hg.reached
  rw [hms] at hf
  obtain ⟨L, hL, hnodup, hids⟩ := exists_log env names disk ms hf
  rw [← hms] at hL
  have hchat : g.chat c = L.filter _ := chatMessages_eq hL _ _ _
  have hall := (List.forall₂_and_left _ _).mpr
    ⟨fun m hm => hids m (List.mem_of_mem_filter (hchat ▸ hm)), hg.list⟩
  -- the row is that of an entry, and holds its id
  rw [hg.tabled, List.getElem?_map, Option.map_eq_some_iff] at hitem
  obtain ⟨view, hview, hitem⟩ := hitem
  obtain rfl := Option.some.inj hitem
  have hid : qt.toStdString (qt.messageItem view).userRole = view.messageId := by
    have hascii : ∀ b ∈ view.messageId, b < 128 := by
      refine forall_mem_of_forall₂ hall (P := fun view => ∀ b ∈ view.messageId, b < 128)
        (fun m view hm => ?_) view (List.mem_of_getElem? hview)
      obtain ⟨⟨k, hk⟩, hshown⟩ := hm
      rcases hshown.id with heq | ht
      · rw [heq, hk]
        exact lt_128_messageId env k
      · exact lt_128_of_temporary ht
    show qt.toStdString (qt.fromStdString view.messageId) = view.messageId
    rw [hl.qt.fromStdString _ hascii, hl.qt.toStdString _ hascii]
  rw [hid] at hne htemp hcall hdeleted
  obtain ⟨rfl, hserves, hserver, hclients, hwindow⟩ :=
    deleteMessageForAll_spec hg.toServes hne hcall
  have hchat' : g1.chat c = ChatServer.chatMessages (g.cfg.hist.1.server.deleteMessageForAll
      (g.cfg.hist.1.clients c).username view.messageId).2 (g.cfg.hist.1.clients c).username
      g.window.selectedChatKind g.window.selectedChatId := by
    rw [Gui.chat, hserver, hclients, hwindow]
  obtain ⟨hfalse, hsame⟩ | ⟨htrue, hsame⟩ := hdeleted
  · rw [chatMessages_of_false hL hfalse] at hchat'
    refine InStep.congr ⟨hserves, ?_, ?_⟩ hcfg hsame
    · rw [hwindow]
      exact hg.tabled
    · rw [hchat', hclients, hwindow]
      exact hg.list
  · rw [chatMessages_of_true hL hnodup htrue] at hchat'
    have hchatIds : ((g.chat c).map Message.messageId).Nodup := by
      rw [hchat]
      exact hnodup.sublist (List.filter_sublist.map _)
    obtain ⟨hlist, herase⟩ := erase_shown hall hchatIds hview htemp
    refine InStep.congr (g := g1.withWindow (g1.window.erase view.messageId n))
      ⟨⟨hserves.reached, hserves.loggedIn, hserves.current⟩, ?_, ?_⟩ hcfg hsame
    · have hlt : n < g.window.messageTable.rows.length := by
        rw [hg.tabled, List.length_map]
        exact (List.getElem?_eq_some_iff.mp hview).1
      show QTableWidget.rows (g1.window.messageTable.removeRow n)
        = List.map (fun msg => some (qt.messageItem msg))
          (g1.window.messages.eraseP fun msg => msg.messageId = view.messageId)
      rw [hwindow, QTableWidget.rows_removeRow _ hlt, hg.tabled, herase, List.eraseIdx_map]
    · show List.Forall₂ (ShownAs env (g1.cfg.hist.1.clients c)) (g1.chat c)
        (g1.window.messages.eraseP fun msg => msg.messageId = view.messageId)
      rw [hchat', hclients, hwindow, herase]
      exact hlist

end Evlampy
