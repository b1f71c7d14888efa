/-
Evlampy/Appending.lean

What a send appends to the message list.  After a send the window appends an entry for the
message by itself; and it appends the messages its client hears of.  So a message
that its sender hears of is shown twice.  The sender hears of its own copy in a group it is
a member of, and in the chat with itself.  A message to a group that the sender is not a
member of is shown, too, but it is not in the chat that a refresh reads.

`ShowsOnce` says which sends leave one entry for one message, and after a send the list
agrees with a refresh exactly for these (`inStep_sendCurrentMessage`).
-/
import Evlampy.Echoes
import Evlampy.Groups
import Evlampy.Refresh

namespace Evlampy

open Cxx Callback Prog System ChatServer ChatClient MessageProtocol

variable {env : Env} {qt : Qt} {names : ClientId → Str} {disk : Str → Option Str} {g g' : Gui}
  {w w' : MessengerMainWindow} {h h' : History} {i : Nat} {c : ClientId} {m : Message}

/-! ### Hearing of a message -/

namespace MessengerMainWindow

/-- The events that concern the selected chat are appended, in their order. -/
structure Appended (qt : Qt) (events : List DecryptedMessageEvent) (w w' : MessengerMainWindow) :
    Prop where
  currentClient : w'.currentClient = w.currentClient
  selectedChatId : w'.selectedChatId = w.selectedChatId
  selectedChatKind : w'.selectedChatKind = w.selectedChatKind
  messages : ∃ new, w'.messages = w.messages ++ new ∧
    new.length = (events.filter w.isRelevant).length
  tabled : w.Tabled qt → w'.Tabled qt

theorem Appended.refl (w : MessengerMainWindow) : Appended qt [] w w :=
  ⟨rfl, rfl, rfl, ⟨[], (List.append_nil _).symm, rfl⟩, id⟩

theorem appended_onNotify (hc : w.currentClient = some c) (world : World)
    (event : DecryptedMessageEvent) : Appended qt [event] w (w.onNotify qt world event) := by
  rw [onNotify, hc]
  by_cases hrel : w.isRelevant event = true
  · simp only [hrel, if_true]
    refine ⟨rfl, rfl, rfl, ⟨_, rfl, ?_⟩, fun ht => ht.append _⟩
    rw [List.filter_cons_of_pos hrel]
    rfl
  · simp only [hrel]
    refine ⟨rfl, rfl, rfl, ⟨[], (List.append_nil _).symm, ?_⟩, id⟩
    rw [List.filter_cons_of_neg hrel]
    rfl

theorem isRelevant_congr {event : DecryptedMessageEvent}
    (hid : w'.selectedChatId = w.selectedChatId)
    (hkind : w'.selectedChatKind = w.selectedChatKind) :
    w'.isRelevant event = w.isRelevant event := by
  rw [isRelevant, hid, hkind]
  rfl

theorem Appended.trans {w'' : MessengerMainWindow} {es es' : List DecryptedMessageEvent}
    (ha : Appended qt es w w') (ha' : Appended qt es' w' w'') : Appended qt (es ++ es') w w'' := by
  refine ⟨ha'.currentClient.trans ha.currentClient, ha'.selectedChatId.trans ha.selectedChatId,
    ha'.selectedChatKind.trans ha.selectedChatKind, ?_, fun ht => ha'.tabled (ha.tabled ht)⟩
  obtain ⟨new, hnew, hlen⟩ := ha.messages
  obtain ⟨new', hnew', hlen'⟩ := ha'.messages
  refine ⟨new ++ new', by rw [hnew', hnew, List.append_assoc], ?_⟩
  have hrel : es'.filter w'.isRelevant = es'.filter w.isRelevant :=
    List.filter_congr fun e _ => isRelevant_congr ha.selectedChatId ha.selectedChatKind
  rw [List.length_append, hlen, hlen', List.filter_append, List.length_append, hrel]

/-- The window listens to its current client. -/
theorem attachedTo (qt : Qt) (c : ClientId) :
    AttachedTo (react qt) c fun w => w.currentClient = some c where
  alone n world w hw hn := by
    rw [react, if_neg]
    rw [hw]
    exact fun e => hn (Option.some.inj e).symm
  keeps n world w hw := by
    unfold react
    split
    · exact (appended_onNotify hw world n.event).currentClient.trans hw
    · exact hw

theorem appended_of_hears {clients : ClientId → ChatClient} {es : List DecryptedMessageEvent}
    (hh : Hears (react qt) c clients es w w') (hc : w.currentClient = some c) :
    Appended qt es w w' := by
  induction hh with
  | nil => exact .refl _
  | @cons e es x y world same rest ih =>
      have hreact : react qt ⟨c, e⟩ world x = x.onNotify qt world e := if_pos hc
      rw [hreact] at ih
      have ha : Appended qt [e] x (x.onNotify qt world e) := appended_onNotify hc world e
      exact ha.trans (ih (ha.currentClient.trans hc))

end MessengerMainWindow

/-! ### Sending to the chat -/

/-- What the user `u` sends to a chat is shown once: nothing is sent, or `u` stores a copy
for itself and does not hear of it.  A direct message is stored for both ends; a message to
a group for its members.  The sender hears of its own copy unless a bar in a name keeps it
from being read back. -/
def ShowsOnce (s : ChatServer) (u : Str) (kind : ChatKind) (id : Str) : Prop :=
  match kind with
  | .direct => id ≠ u ∨ bar ∈ u
  | .group => s.getGroupMembers id = [] ∨
      u ∈ s.getGroupMembers id ∧ (bar ∈ u ∨ bar ∈ id)

/-- The event is about the chat. -/
def Concerns (kind : ChatKind) (id : Str) (event : DecryptedMessageEvent) : Prop :=
  match kind with
  | .direct => event.isGroupMessage = false ∧ event.fromUser = id
  | .group => event.isGroupMessage = true ∧ event.chatId = id

theorem isRelevant_of_concerns {event : DecryptedMessageEvent}
    (h : Concerns w.selectedChatKind w.selectedChatId event) : w.isRelevant event = true := by
  unfold MessengerMainWindow.isRelevant
  cases hkind : w.selectedChatKind with
  | direct =>
      rw [hkind] at h
      simp [h.1, h.2]
  | group =>
      rw [hkind] at h
      simp [h.1, h.2]

/-- The sender hears of its own copy, unless there is a bar in a name. -/
theorem ownEvents_eq_nil_iff {s : ChatServer} {u toUser chatId text : Str} {isGroup : Bool}
    (hm : Composed env s u toUser chatId isGroup text m) :
    ownEvents u text m = [] ↔ toUser = u → bar ∈ u ∨ bar ∈ chatId := by
  obtain ⟨k, hk⟩ := hm.id
  have hnobar : toUser = u → (NoBar m ↔ bar ∉ u ∧ bar ∉ chatId) := by
    rintro rfl
    rw [NoBar, hk, hm.sender, hm.receiver, hm.chatId]
    have hid := bar_notMem_messageId env k
    tauto
  rw [ownEvents, hm.receiver]
  split
  · next hown =>
    have hbars := (hnobar hown.1).mp hown.2
    simp only [List.cons_ne_self, false_iff]
    tauto
  · next hown =>
    simp only [true_iff]
    intro hto
    have hbars := hnobar hto
    tauto

theorem length_ownEvents_iff {s : ChatServer} {u toUser chatId text : Str} {isGroup : Bool}
    (hm : Composed env s u toUser chatId isGroup text m) :
    1 = (ownEvents u text m).length + 1 ↔ (toUser = u → bar ∈ u ∨ bar ∈ chatId) := by
  rw [← ownEvents_eq_nil_iff hm, ← List.length_eq_zero_iff]
  omega

/-- What the sender hears of its own copy is about the chat it has sent to. -/
theorem concerns_of_mem_ownEvents {s : ChatServer} {u toUser chatId text : Str} {isGroup : Bool}
    (hm : Composed env s u toUser chatId isGroup text m) {e : DecryptedMessageEvent}
    (he : e ∈ ownEvents u text m) :
    e.isGroupMessage = isGroup ∧ e.fromUser = toUser ∧ e.chatId = chatId := by
  unfold ownEvents at he
  split at he
  · next hown =>
    obtain rfl := List.mem_singleton.mp he
    exact ⟨hm.isGroupMessage, hown.1.symm.trans hm.receiver, hm.chatId⟩
  · cases he

/-- The sender reads the message. -/
theorem Composed.reads {text toUser chatId : Str} {isGroup : Bool} {world : World}
    (ha : Assumed env text) (ho : Online env c world)
    (hm : Composed env world.server (world.clients c).username toUser chatId isGroup text m)
    (hparty : toUser = (world.clients c).username ∨ isGroup = false) (n : Nat) :
    ∃ view, decryptToView env (world.clients c) n m = .ok view ∧
      view.shown = ((world.clients c).username, text) := by
  obtain ⟨sessionKey, hs⟩ := hm.sealed
  have hparty' : (world.clients c).username = m.receiver ∨
      (world.clients c).username = m.sender ∧ m.isGroupMessage = false := by
    rcases hparty with rfl | hdirect
    · exact Or.inl hm.receiver.symm
    · exact Or.inr ⟨hm.sender.symm, hm.isGroupMessage.trans hdirect⟩
  obtain ⟨hkey, hdec⟩ := hs.opens ho.files ha.inverts ho.keys ho.loggedIn hparty' n
  refine ⟨_, decryptToView_eq_ok hkey (hdec (Nat.lt_succ_of_le ha.fits)), ?_⟩
  rw [MessageView.shown, Message.view, hm.sender]

/-- What a send to the chat `id` does: `own` is what it adds to the chat, and `events` is
what its sender hears of it. -/
structure SentTo (env : Env) (c : ClientId) (kind : ChatKind) (id text : Str) (world world' : World)
    (sent : Bool) (own : List Message) (events : List DecryptedMessageEvent) : Prop where
  clients : world'.clients = world.clients
  chat : world'.server.chatMessages (world.clients c).username kind id
    = world.server.chatMessages (world.clients c).username kind id ++ own
  reads : ∀ m ∈ own, ∀ n, ∃ view, decryptToView env (world.clients c) n m = .ok view ∧
    view.shown = ((world.clients c).username, text)
  concerns : ∀ e ∈ events, Concerns kind id e
  failed : sent = false → own = [] ∧ events = [] ∧
    ShowsOnce world.server (world.clients c).username kind id
  once : sent = true → (own.length = events.length + 1 ↔
    ShowsOnce world.server (world.clients c).username kind id)
  single : own.length ≤ 1

/-- The own key is on record. -/
theorem Online.getPublicKey_ne_nil {world : World} (ho : Online env c world) :
    world.server.getPublicKey (world.clients c).username ≠ [] := by
  obtain ⟨-, hgen, hrecord⟩ := ho.keys.inHand c ho.loggedIn
  rw [ChatServer.publicKeyOf] at hrecord
  rw [ChatServer.getPublicKey]
  cases hu : world.server.users.lookup (world.clients c).username with
  | none =>
      rw [hu] at hrecord
      cases hrecord
  | some record =>
      rw [hu] at hrecord
      have hpem : record.publicKeyPem = (world.clients c).keyPair.publicKeyPem :=
        Option.some.inj hrecord
      show record.publicKeyPem ≠ []
      rw [hpem]
      exact hgen.ne_nil.1

theorem chatMessages_storeDirect (s : ChatServer) {u id : Str} (hid : id ≠ [])
    (hgroup : m.isGroupMessage = false) (hsender : m.sender = u) (hreceiver : m.receiver = id) :
    (s.storeMessage m).chatMessages u .direct id = s.chatMessages u .direct id ++ [m] := by
  have hchat : ∀ s : ChatServer, s.chatMessages u .direct id = s.getConversation u id :=
    fun _ => if_neg hid
  have hstore : s.storeMessage m = { s with
      history := UnorderedMap.pushBack (makeConversationKey u id) m s.history } := by
    rw [ChatServer.storeMessage, hgroup, hsender, hreceiver]
    rfl
  rw [hchat, hchat, hstore]
  exact UnorderedMap.bucket_pushBack_self _ _ _

theorem attended_sendDirect {ω : Type} {react : Notice → World → ω → ω} {K : ω → Prop} {x : ω}
    {text id : Str} (hreact : AttachedTo react c K) (hx : K x) (ha : Assumed env text)
    (ho : Online env c h.1) (hid : id ≠ []) :
    env.system.attended react i (sendMessage env c id text)
      (fun r h' y => ∀ b, r = .ok b → ∃ own events,
        SentTo env c .direct id text h.1 h'.1 b own events ∧
        Hears react c h.1.clients events x y) h x := by
  refine attended_mono (fun r h' y hr b hb => ?_) (attended_sendMessage hreact hx ha ho id)
  obtain ⟨halike, ⟨rfl, hnobody, hserver, rfl⟩ | ⟨rfl, m, hm, hserver, hheard⟩⟩ := hr b hb
  · refine ⟨[], [], ⟨halike.clients, ?_, List.forall_mem_nil _, List.forall_mem_nil _,
      fun _ => ⟨rfl, rfl, Or.inl ?_⟩, fun hsent => (Bool.false_ne_true hsent).elim,
      Nat.zero_le _⟩, .nil⟩
    · rw [hserver, List.append_nil]
    · rintro rfl
      exact ho.getPublicKey_ne_nil hnobody
  · refine ⟨[m], _, ⟨halike.clients, ?_,
      List.forall_mem_singleton.mpr (hm.reads ha ho (Or.inr rfl)),
      fun e he => ?_, fun hsent => (Bool.false_ne_true hsent.symm).elim, fun _ => ?_, le_rfl⟩,
      hheard⟩
    · rw [hserver]
      exact chatMessages_storeDirect _ hid hm.isGroupMessage hm.sender hm.receiver
    · obtain ⟨hgroup, hfrom, -⟩ := concerns_of_mem_ownEvents hm he
      exact ⟨hgroup, hfrom⟩
    · rw [List.length_singleton, length_ownEvents_iff hm, ShowsOnce, imp_iff_not_or]
      simp only [List.not_mem_nil, or_false, ne_eq]

/-- The sender hears of copies for itself only. -/
theorem flatMap_ownEvents (u text : Str) (copies : List Message) :
    copies.flatMap (ownEvents u text)
      = (copies.filter fun m => m.receiver = u).flatMap (ownEvents u text) := by
  induction copies with
  | nil => rfl
  | cons m copies ih =>
      rw [List.flatMap_cons, ih]
      by_cases hm : m.receiver = u
      · rw [List.filter_cons_of_pos (by simpa using hm), List.flatMap_cons]
      · rw [List.filter_cons_of_neg (by simpa using hm), ownEvents, if_neg fun h => hm h.1,
          List.nil_append]

theorem composed_of_mem {s : ChatServer} {u id text : Str} {members : List Str}
    {copies : List Message}
    (hcopies : List.Forall₂ (fun member m => Composed env s u member id true text m) members
      copies) :
    ∀ m ∈ copies, Composed env s u m.receiver id true text m :=
  forall_mem_of_forall₂ hcopies fun _ _ hm => hm.receiver.symm ▸ hm

/-- Of the copies for the members the sender made one for itself if it is a member, and none
otherwise. -/
theorem ownCopies_cases {s : ChatServer} {u id text : Str} {copies : List Message}
    (hcopies : List.Forall₂ (fun member m => Composed env s u member id true text m)
      (s.getGroupMembers id) copies) :
    (u ∈ s.getGroupMembers id ∧ ∃ m, (copies.filter fun m => m.receiver = u) = [m] ∧
        Composed env s u u id true text m) ∨
      (u ∉ s.getGroupMembers id ∧ (copies.filter fun m => m.receiver = u) = []) := by
  have hreceivers : s.getGroupMembers id = copies.map Message.receiver := by
    rw [← List.forall₂_eq_eq_eq]
    exact List.forall₂_map_right_iff.mpr (hcopies.imp fun member m hm => hm.receiver.symm)
  have hnodup : (copies.map Message.receiver).Nodup := by
    rw [← hreceivers]
    exact ChatServer.getGroupMembers_strict.imp fun hlt heq =>
      absurd (heq ▸ hlt) (List.lt_irrefl _)
  rw [hreceivers]
  by_cases hmember : u ∈ copies.map Message.receiver
  · obtain ⟨m, hm, rfl⟩ := List.mem_map.mp hmember
    exact Or.inl ⟨hmember, m, filter_eq_singleton hnodup hm, composed_of_mem hcopies m hm⟩
  · refine Or.inr ⟨hmember, List.filter_eq_nil_iff.mpr fun m hm hown => hmember ?_⟩
    exact List.mem_map.mpr ⟨m, hm, by simpa using hown⟩

theorem attended_sendGroup {ω : Type} {react : Notice → World → ω → ω} {K : ω → Prop} {x : ω}
    {text id : Str} (hreact : AttachedTo react c K) (hx : K x) (ha : Assumed env text)
    (ho : Online env c h.1) (hid : id ≠ [])
    (hkeys : ∀ member ∈ h.1.server.getGroupMembers id, h.1.server.getPublicKey member ≠ []) :
    env.system.attended react i (sendGroupMessage env c id text)
      (fun r h' y => ∀ b, r = .ok b → ∃ own events,
        SentTo env c .group id text h.1 h'.1 b own events ∧
        Hears react c h.1.clients events x y) h x := by
  refine attended_mono (fun r h' y hr b hb => ?_) (attended_sendGroupMessage hreact hx ha ho id)
  obtain ⟨halike, copies, hcopies, rfl, hserver, hheard⟩ := hr b hb
  rw [List.filter_eq_self.mpr fun member hmember => by simpa using hkeys member hmember] at hcopies
  generalize hu : (h.1.clients c).username = u at hcopies hheard
  have hmade := composed_of_mem hcopies
  have hchat : ∀ s : ChatServer, s.chatMessages u .group id
      = (s.getGroupConversation id).filter fun m => m.receiver = u := fun _ => if_neg hid
  -- a sender that is a member has one copy made for itself, any other sender none
  have hcases := ownCopies_cases hcopies
  refine ⟨copies.filter fun m => m.receiver = u, _, ⟨halike.clients, ?_, fun m hm => ?_,
    fun e he => ?_, fun hfailed => ?_, fun hsent => ?_, ?_⟩, hheard⟩
  · rw [hu, hchat, hchat, hserver,
      (storeCopies fun m hm => ⟨(hmade m hm).isGroupMessage, (hmade m hm).chatId⟩).1,
      List.filter_append]
  · obtain ⟨hm, hown⟩ := List.mem_filter.mp hm
    refine (hu ▸ hmade m hm).reads ha ho (Or.inl ?_)
    rw [hu]
    simpa using hown
  · obtain ⟨m, hm, he⟩ := List.mem_flatMap.mp he
    obtain ⟨hgroup, -, hchatId⟩ := concerns_of_mem_ownEvents (hmade m hm) he
    exact ⟨hgroup, hchatId⟩
  · have hnil : copies = [] := by simpa using hfailed
    subst hnil
    exact ⟨rfl, rfl, Or.inl (List.forall₂_nil_right_iff.mp hcopies)⟩
  · have hne : h.1.server.getGroupMembers id ≠ [] := fun hnil => by
      rw [hnil, List.forall₂_nil_left_iff] at hcopies
      simp [hcopies] at hsent
    -- what it hears of the call is what it hears of that copy: one event, if no bar prevents it
    rw [hu, flatMap_ownEvents, ShowsOnce, or_iff_right hne]
    rcases hcases with ⟨hmember, m, hown, hm⟩ | ⟨hnot, hown⟩
    · rw [hown, List.flatMap_singleton, List.length_singleton, length_ownEvents_iff hm,
        and_iff_right hmember]
      exact ⟨fun h => h rfl, fun h _ => h⟩
    · rw [hown, List.flatMap_nil]
      exact ⟨fun hlen => absurd hlen (by simp), fun honce => absurd honce.1 hnot⟩
  · rcases hcases with ⟨-, m, hown, -⟩ | ⟨-, hown⟩
    · rw [hown, List.length_singleton]
    · rw [hown]
      exact Nat.zero_le _

theorem attended_sendToChat {ω : Type} {react : Notice → World → ω → ω} {K : ω → Prop} {x : ω}
    {text id : Str} (kind : ChatKind) (hreact : AttachedTo react c K) (hx : K x)
    (ha : Assumed env text) (ho : Online env c h.1) (hid : id ≠ [])
    (hkeys : ∀ member ∈ h.1.server.getGroupMembers id, h.1.server.getPublicKey member ≠ []) :
    env.system.attended react i (Call.body env ⟨c, Gui.sendToChat kind id text⟩)
      (fun r h' y => ∀ v, r = .ok v → ∃ own events,
        SentTo env c kind id text h.1 h'.1 v.isTrue own events ∧
        Hears react c h.1.clients events x y) h x := by
  have hbool : ∀ p : Code Bool, env.system.attended react i p (fun r h' y => ∀ b, r = .ok b →
        ∃ own events, SentTo env c kind id text h.1 h'.1 b own events ∧
          Hears react c h.1.clients events x y) h x →
      env.system.attended react i (p >>= fun b => (pure (.bool b) : Code Value))
        (fun r h' y => ∀ v, r = .ok v → ∃ own events,
          SentTo env c kind id text h.1 h'.1 v.isTrue own events ∧
          Hears react c h.1.clients events x y) h x := by
    intro p hp
    refine attended_bind.mpr (attended_mono (fun r h' y hr => ?_) hp)
    rcases r with e | b
    · intro v hv
      cases hv
    · intro v hv
      cases hv
      exact hr b rfl
  cases kind with
  | direct => exact hbool _ (attended_sendDirect hreact hx ha ho hid)
  | group => exact hbool _ (attended_sendGroup hreact hx ha ho hid hkeys)

/-! ### One action -/

/-- Sending now would show the message once. -/
def Gui.ShownOnce (qt : Qt) (c : ClientId) (g : Gui) : Prop :=
  qt.trimmed g.window.messageInput.text = [] ∨ g.window.selectedChatId = [] ∨
    ShowsOnce g.cfg.hist.1.server (g.cfg.hist.1.clients c).username g.window.selectedChatKind
      g.window.selectedChatId

/-- The input field holds less than what fits the wire. -/
theorem Reliable.assumed (hl : Reliable env qt) (input : QLineEdit) :
    Assumed env (qt.toStdString (qt.trimmed input.text)) := by
  refine ⟨hl.base64, hl.inverts, hl.sized, ?_⟩
  have htrim := (Parts.infix_trim (p := qt.isSpace) (l := input.text)).length_le
  have hlen := hl.qt.length_toStdString (qt.trimmed input.text)
  have hinput := input.length_le
  have hmax : maxText = 1610612705 := rfl
  have hle : (qt.trimmed input.text).length ≤ input.text.length := htrim
  omega

/-- Every member of a group has a key. -/
theorem Serves.keys (hs : Serves env names disk c g) (id : Str) :
    ∀ member ∈ g.cfg.hist.1.server.getGroupMembers id,
      g.cfg.hist.1.server.getPublicKey member ≠ [] := by
  intro member hmember
  obtain ⟨ms, hms⟩ := hs.reached
  rw [hms] at hmember ⊢
  obtain ⟨record, hrecord, hin⟩ := mem_getGroupMembers_iff.mp hmember
  exact getPublicKey_ne_nil (keysGiven_run env names disk ms)
    ((directory_run env names disk ms).members id record hrecord member hin)

theorem Serves.online (hs : Serves env names disk c g)
    (hfiles : env.FilesWork g.cfg.hist.1.server.recorded) : Online env c g.cfg.hist.1 := by
  obtain ⟨ms, hms⟩ := hs.reached
  refine ⟨?_, hfiles, ?_, hs.loggedIn⟩
  · rw [hms]
    exact sessionInv_run env names disk ms
  · rw [hms] at hfiles ⊢
    exact keyInv_run names disk ms hfiles

/-- What `sendCurrentMessage` has done: nothing, or one call, and then the entry of the message
unless the call has failed. -/
theorem sendCurrentMessage_cases (hc : g.window.currentClient = some c)
    (hr : g.sendCurrentMessage env qt = .ok g') :
    (qt.trimmed g.window.messageInput.text = [] ∨ g.window.selectedChatId = []) ∧
        g'.cfg = g.cfg ∧ g.window.Same g'.window ∨
      g.window.selectedChatId ≠ [] ∧ qt.trimmed g.window.messageInput.text ≠ [] ∧
        ∃ v g1, g.call env qt c (Gui.sendToChat g.window.selectedChatKind g.window.selectedChatId
            (qt.toStdString (qt.trimmed g.window.messageInput.text))) = .ok (v, g1) ∧
          g'.cfg = g1.cfg ∧
          (v.isTrue = false ∧ g1.window.Same g'.window ∨
            v.isTrue = true ∧ ∃ msg : MessageView, temporary msg.messageId ∧
              msg.shown = ((g1.cfg.hist.1.clients c).username,
                qt.toStdString (qt.trimmed g.window.messageInput.text)) ∧
              (g1.window.append qt msg).Same g'.window) := by
  unfold Gui.sendCurrentMessage at hr
  simp only [hc] at hr
  split at hr
  · next hempty =>
    cases hr
    exact Or.inl ⟨Or.inl hempty, rfl, rfl, rfl, rfl, rfl, rfl⟩
  · split at hr
    · next hempty =>
      cases hr
      exact Or.inl ⟨Or.inr hempty, rfl, rfl, rfl, rfl, rfl, rfl⟩
    · next htext hid =>
      obtain ⟨⟨v, g1⟩, hcall, hr⟩ := bind_eq_ok.mp hr
      refine Or.inr ⟨hid, htext, v, g1, hcall, ?_⟩
      split at hr
      · next hfalse =>
        cases hr
        exact ⟨rfl, Or.inl ⟨hfalse, rfl, rfl, rfl, rfl, rfl⟩⟩
      · next htrue =>
        cases hr
        exact ⟨rfl, Or.inr ⟨by simpa using htrue, _, ⟨_, rfl⟩, rfl, rfl, rfl, rfl, rfl, rfl⟩⟩

theorem inStep_sendCurrentMessage (hl : Reliable env qt)
    (hfw : env.FilesWork g.cfg.hist.1.server.recorded) (hg : InStep env qt names disk c g)
    (hr : g.sendCurrentMessage env qt = .ok g') :
    (g.ShownOnce qt c → InStep env qt names disk c g') ∧
      (g'.Agrees env qt → g.ShownOnce qt c) := by
  obtain ⟨hnone, hcfg, hsame⟩ | ⟨hid, htext, v, g1, hcall, hcfg, hsent⟩ :=
    sendCurrentMessage_cases hg.current hr
  · exact ⟨fun _ => hg.congr hcfg hsame, fun _ => hnone.imp_right Or.inl⟩
  -- `own` is what the call has stored for the client, `events` what the window was told of it
  obtain ⟨h1, hpost, hworld⟩ := Gui.call_spec hcall (attended_sendToChat g.window.selectedChatKind
    (MessengerMainWindow.attachedTo qt c) hg.current (hl.assumed g.window.messageInput)
    (hg.online hfw) hid (hg.keys _))
  obtain ⟨own, events, ⟨hclients, hchat, hreads, hconcerns, hfailed, honce, hsingle⟩, hheard⟩ :=
    hpost v rfl
  have happ := MessengerMainWindow.appended_of_hears hheard hg.current
  rw [← hworld] at hclients hchat
  replace hclients : g1.cfg.hist.1.clients = g.cfg.hist.1.clients := hclients
  replace hchat : g1.chat c = g.chat c ++ own := by
    rw [Gui.chat, happ.selectedChatKind, happ.selectedChatId, hclients]
    exact hchat
  have hserves : Serves env names disk c g1 := by
    refine ⟨Gui.reached_call hg.reached hcall, ?_, happ.currentClient.trans hg.current⟩
    rw [hclients]
    exact hg.loggedIn
  -- every event is about the selected chat, so there is an entry for each
  obtain ⟨new, hnew, hlen⟩ := happ.messages
  rw [List.filter_eq_self.mpr fun e he => isRelevant_of_concerns (hconcerns e he)] at hlen
  have hshows : g.ShownOnce qt c ↔ ShowsOnce g.cfg.hist.1.server
      (g.cfg.hist.1.clients c).username g.window.selectedChatKind g.window.selectedChatId := by
    rw [Gui.ShownOnce, or_iff_right htext, or_iff_right hid]
  rw [hshows]
  obtain ⟨hfalse, hsame⟩ | ⟨htrue, msg, htemp, hshown, hsame⟩ := hsent
  -- a send that has failed has stored nothing and told nothing
  · obtain ⟨rfl, rfl, hall⟩ := hfailed hfalse
    obtain rfl := List.length_eq_zero_iff.mp hlen
    refine ⟨fun _ => InStep.congr ⟨hserves, happ.tabled hg.tabled, ?_⟩ hcfg hsame, fun _ => hall⟩
    rw [hchat, hnew, hclients, List.append_nil, List.append_nil]
    exact hg.list
  · replace honce := honce htrue
    refine ⟨fun hall => InStep.congr (g := g1.withWindow (g1.window.append qt msg))
      ⟨⟨hserves.reached, hserves.loggedIn, hserves.current⟩, (happ.tabled hg.tabled).append msg, ?_⟩
      hcfg hsame, fun hagrees => ?_⟩
    · -- the entry appended after the send stands for the one message that has been stored
      have hone := honce.mpr hall
      have hzero : events.length = 0 := by omega
      obtain ⟨m, rfl⟩ := List.length_eq_one_iff.mp (hone.trans (congrArg (· + 1) hzero))
      obtain rfl := List.length_eq_zero_iff.mp (hlen.trans hzero)
      show List.Forall₂ (ShownAs env (g1.cfg.hist.1.clients c)) (g1.chat c)
        (g1.window.messages ++ [msg])
      rw [hchat, hnew, hclients, List.append_nil]
      refine List.rel_append hg.list (.cons ⟨fun n => ?_, Or.inr htemp⟩ .nil)
      rw [hshown, hclients]
      exact hreads m (List.mem_singleton_self m) n
    -- a list that agrees is as long as the chat, which leaves room for one entry only
    · have hlengths := (hserves.congr hcfg hsame.currentClient).length_of_agrees hagrees
      rw [hsame.messages] at hlengths
      replace hlengths : (g1.window.messages ++ [msg]).length = (g1.chat c).length :=
        hlengths.trans (congrArg List.length
          (Gui.chat_congr (g := g1.withWindow (g1.window.append qt msg)) hcfg hsame))
      rw [hnew, hchat, List.length_append, List.length_append, List.length_append,
        hg.list.length_eq, hlen, List.length_singleton] at hlengths
      exact honce.mp (by omega)

end Evlampy
