/-
Evlampy/Upkeep.lean

The message list over a run of the window.  One client is logged in and its user acts:
selects chats, sends, deletes, refreshes.  The list agrees with a refresh after every action
exactly if every send shows its message once (`messages_agree_iff`).

The invariant is `InStep`.  Every action but a send keeps it, and a send keeps it if it shows
its message once.
-/
import Evlampy.Appending
import Evlampy.Delivery
import Evlampy.Erasing
import Evlampy.Reference

namespace Evlampy

open Cxx Callback

variable {env : Env} {qt : Qt} {names : ClientId → Str} {disk : Str → Option Str} {g g' : Gui}
  {c : ClientId}

/-! ### One action -/

/-- The window is in step when the user has logged in: no chat is selected. -/
theorem inStep_switchCurrentUser (ms : List (Move Exn Call)) (w : MessengerMainWindow)
    (hlog : ((env.run names disk ms).hist.1.clients c).loggedIn = true) :
    InStep env qt names disk c ⟨env.run names disk ms, w.switchCurrentUser c⟩ :=
  ⟨⟨⟨ms, rfl⟩, hlog, rfl⟩, QTableWidget.rows_setRowCount_zero _, .nil⟩

/-- A send keeps the list in step if it shows its message once, and only then the list
agrees with a refresh.  The other actions keep it in step. -/
theorem inStep_act (hl : Reliable env qt) (hreg : env.Regular g.cfg.hist.1)
    (hg : InStep env qt names disk c g) {a : Gui.Action} (ha : g.act env qt a = .ok g') :
    ((a = .sendCurrentMessage → g.ShownOnce qt c) → InStep env qt names disk c g') ∧
      (g'.Agrees env qt → a = .sendCurrentMessage → g.ShownOnce qt c) := by
  cases a with
  | selectChat kind id =>
      have hs : Serves env names disk c (g.withWindow
          { g.window with selectedChatKind := kind, selectedChatId := id }) :=
        ⟨hg.reached, hg.loggedIn, hg.current⟩
      exact ⟨fun _ => Gui.inStep_refreshMessages hl.steady hs ha, fun _ h => nomatch h⟩
  | sendCurrentMessage =>
      obtain ⟨hkeeps, hagrees⟩ := inStep_sendCurrentMessage hl hreg.files hg ha
      exact ⟨fun h => hkeeps (h rfl), fun h _ => hagrees h⟩
  | deleteSelectedMessage =>
      exact ⟨fun _ => inStep_deleteSelectedMessage hl hreg.freshIds hg ha, fun _ h => nomatch h⟩
  | refreshMessages =>
      exact ⟨fun _ => Gui.inStep_refreshMessages hl.steady hg.toServes ha, fun _ h => nomatch h⟩
  | edit input =>
      cases ha
      exact ⟨fun _ => hg.congr rfl ⟨rfl, rfl, rfl, rfl, rfl⟩, fun _ h => nomatch h⟩
  | setCurrent row =>
      cases ha
      exact ⟨fun _ => hg.congr rfl ⟨rfl, rfl, rfl, rfl, rfl⟩, fun _ h => nomatch h⟩

/-! ### A run -/

theorem Gui.runActions_append (actions : List Action) (a : Action) :
    g.runActions env qt (actions ++ [a])
      = (g.runActions env qt actions).bind fun g' => g'.act env qt a := by
  induction actions generalizing g with
  | nil =>
      show (g.act env qt a).bind Except.ok = g.act env qt a
      rcases g.act env qt a with x | g' <;> rfl
  | cons b actions ih =>
      show (g.act env qt b).bind _ = ((g.act env qt b).bind _).bind _
      rcases g.act env qt b with x | g'
      · rfl
      · exact ih

/-- The list stays in step as long as every completed action keeps it in step. -/
theorem inStep_runActions {actions : List Gui.Action} (hg : InStep env qt names disk c g)
    (hkeeps : ∀ done a g1 g2, done ++ [a] <+: actions → g.runActions env qt done = .ok g1 →
      InStep env qt names disk c g1 → g1.act env qt a = .ok g2 → InStep env qt names disk c g2)
    {done : List Gui.Action} (hdone : done <+: actions)
    (hr : g.runActions env qt done = .ok g') : InStep env qt names disk c g' := by
  induction done using List.reverseRecOn generalizing g' with
  | nil =>
      cases hr
      exact hg
  | append_singleton done a ih =>
      rw [Gui.runActions_append] at hr
      obtain ⟨g1, hr1, ha⟩ := bind_eq_ok.mp hr
      exact hkeeps done a g1 g' hdone hr1 (ih ((List.prefix_append _ _).trans hdone) hr1) ha

/-- **When the list agrees with a refresh.**  A client that is logged in, in any state of a
run of the system, is shown in the window, and its user acts.  After each completed action
the list is the one a refresh would show, and the table shows it, if and only if every send
that completes shows its message once. -/
theorem messages_agree_iff (hl : Reliable env qt) (names : ClientId → Str)
    (disk : Str → Option Str) (ms : List (Move Exn Call)) (w : MessengerMainWindow)
    (hlog : ((env.run names disk ms).hist.1.clients c).loggedIn = true)
    (actions : List Gui.Action)
    (hreg : ∀ done g, done <+: actions →
      Gui.runActions env qt ⟨env.run names disk ms, w.switchCurrentUser c⟩ done = .ok g →
      env.Regular g.cfg.hist.1) :
    (∀ done g, done <+: actions →
        Gui.runActions env qt ⟨env.run names disk ms, w.switchCurrentUser c⟩ done = .ok g →
        g.Agrees env qt) ↔
      ∀ done g g', done ++ [.sendCurrentMessage] <+: actions →
        Gui.runActions env qt ⟨env.run names disk ms, w.switchCurrentUser c⟩ done = .ok g →
        g.sendCurrentMessage env qt = .ok g' → g.ShownOnce qt c := by
  have hstart : InStep env qt names disk c ⟨env.run names disk ms, w.switchCurrentUser c⟩ :=
    inStep_switchCurrentUser ms w hlog
  constructor
  · intro hagree done g g' hdone hr hsend
    have hagreed : ∀ done a g1 g2, done ++ [a] <+: actions →
        Gui.runActions env qt ⟨env.run names disk ms, w.switchCurrentUser c⟩ done = .ok g1 →
        g1.act env qt a = .ok g2 → g2.Agrees env qt := by
      intro done a g1 g2 hdone hr1 ha
      refine hagree (done ++ [a]) g2 hdone ?_
      rw [Gui.runActions_append, hr1]
      exact ha
    have hg : InStep env qt names disk c g := by
      refine inStep_runActions hstart ?_ ((List.prefix_append _ _).trans hdone) hr
      intro done a g1 g2 hdone hr1 hg1 ha
      have hreg1 := hreg done g1 ((List.prefix_append _ _).trans hdone) hr1
      obtain ⟨hkeeps, honce⟩ := inStep_act hl hreg1 hg1 ha
      exact hkeeps (honce (hagreed done a g1 g2 hdone hr1 ha))
    have hfw := (hreg done g ((List.prefix_append _ _).trans hdone) hr).files
    exact (inStep_sendCurrentMessage hl hfw hg hsend).2
      (hagreed done .sendCurrentMessage g g' hdone hr hsend)
  · intro honce done g hdone hr
    refine InStep.agrees (inStep_runActions hstart ?_ hdone hr)
    intro done a g1 g2 hdone hr1 hg1 ha
    have hreg1 := hreg done g1 ((List.prefix_append _ _).trans hdone) hr1
    refine (inStep_act hl hreg1 hg1 ha).1 fun hsend => ?_
    subst hsend
    exact honce done g1 g2 hdone hr1 ha

/-- Alice's window after the run `ms`. -/
def Gui.reference (ms : List (Move Exn Call)) : Gui :=
  ⟨Env.reference.run Env.names Env.noFiles ms, MessengerMainWindow.new.switchCurrentUser 0⟩

/-- What the list shows, unless an action has thrown. -/
def listOf (r : Except Exn Gui) : Option (List (Str × Str)) :=
  r.toOption.map fun g => g.window.messages.map MessageView.shown

/-- Alice writes to Bob and deletes what she has written, the first time in vain. -/
def correcting : List Gui.Action :=
  [.selectChat .direct (str "bob"), .edit ⟨ascii (str "hi"), by decide⟩, .sendCurrentMessage,
    .setCurrent 0, .deleteSelectedMessage, .refreshMessages, .setCurrent 0,
    .deleteSelectedMessage]

theorem reliable_reference : Reliable Env.reference Qt.reference where
  base64 := EvpBase64.reference_documented
  inverts := OpenSSL.reference_inverts
  sized := OpenSSL.reference_sized
  steady := ⟨fun _ _ _ _ _ => rfl, fun _ => rfl⟩
  qt := Qt.reference_documented

theorem regular_reference (w : World) : Env.reference.Regular w :=
  ⟨Env.reference_filesWork, Env.reference_freshIds⟩

/-- Her window is right all along, since her one message goes to Bob. -/
theorem messages_agree_correcting :
    listOf ((Gui.reference opening).runActions Env.reference Qt.reference correcting) = some [] ∧
    ∀ done g, done <+: correcting →
      (Gui.reference opening).runActions Env.reference Qt.reference done = .ok g →
      g.Agrees Env.reference Qt.reference := by
  refine ⟨by decide +kernel, ?_⟩
  refine (messages_agree_iff reliable_reference Env.names Env.noFiles opening .new
    (by decide +kernel) correcting fun _ g _ _ => regular_reference g.cfg.hist.1).mpr
      fun done g g' hdone hr _ => ?_
  have hlast : correcting[done.length]? = some .sendCurrentMessage := by
    obtain ⟨rest, hrest⟩ := hdone
    rw [← hrest]
    simp
  have htwo : done.length = 2 := by
    generalize done.length = n at hlast
    rcases n with _ | _ | _ | _ | _ | _ | _ | _ | n <;> simp [correcting] at hlast ⊢
  have htake := List.prefix_iff_eq_take.mp ((List.prefix_append _ _).trans hdone)
  rw [htwo] at htake
  subst htake
  replace hr : (Gui.reference opening).runActions Env.reference Qt.reference (correcting.take 2)
    = .ok g := hr
  have hchat : (((Gui.reference opening).runActions Env.reference Qt.reference
      (correcting.take 2)).toOption.map fun g => (g.window.selectedChatKind,
        g.window.selectedChatId, (g.cfg.hist.1.clients 0).username))
      = some (.direct, str "bob", str "alice") := by decide +kernel
  rw [hr] at hchat
  have hparts := Option.some.inj hchat
  simp only [Prod.mk.injEq] at hparts
  obtain ⟨hkind, hid, hname⟩ := hparts
  refine Or.inr (Or.inr ?_)
  rw [hkind, hid, hname]
  exact Or.inl (by decide)

/-- Alice founds a group. -/
def founding : List (Move Exn Call) :=
  opening ++ [.call ⟨0, .createGroup (str "club") []⟩]

/-- She writes to it. -/
def announcing : List Gui.Action :=
  [.selectChat .group (str "group-1-club"), .edit ⟨ascii (str "hi"), by decide⟩,
    .sendCurrentMessage]

/-- Alice writes to her group.  The window shows the message twice, and a refresh once. -/
theorem messages_disagree : ¬ ∀ actions done g, done <+: actions →
    (Gui.reference founding).runActions Env.reference Qt.reference done = .ok g →
    g.Agrees Env.reference Qt.reference := by
  intro h
  have htwice : listOf ((Gui.reference founding).runActions Env.reference Qt.reference announcing)
      = some [(str "alice", str "hi"), (str "alice", str "hi")] := by decide +kernel
  have honce : listOf (((Gui.reference founding).runActions Env.reference Qt.reference
      announcing).bind fun g => g.refreshMessages Env.reference Qt.reference)
      = some [(str "alice", str "hi")] := by decide +kernel
  rcases hr : (Gui.reference founding).runActions Env.reference Qt.reference announcing with x | g
  · rw [hr] at htwice
    cases htwice
  · obtain ⟨g', hrefresh, hlist⟩ := (h announcing announcing g (List.prefix_refl _) hr).list
    rw [hr] at htwice honce
    replace honce : listOf (g.refreshMessages Env.reference Qt.reference)
      = some [(str "alice", str "hi")] := honce
    rw [hrefresh] at honce
    have hlen := congrArg List.length
      ((Option.some.inj htwice).symm.trans (hlist.trans (Option.some.inj honce)))
    cases hlen

end Evlampy
