/-
Evlampy/Guards.lean

What a client can do without a session.  Sending and deleting check that the
client is logged in; the functions for contacts, groups and reading do not, and
go by the client's name and the private key in its memory.  For every call of a
client that is logged out, `powerless_iff` says exactly when it changes none of
the server's records and shows no text.
-/
import Evlampy.Groups

namespace Evlampy

open Cxx Callback System ChatServer ChatClient

/-! ### Records and texts -/

/-- The two servers keep the same accounts, groups and histories. -/
structure SameRecords (s s' : ChatServer) : Prop where
  users : s'.users = s.users
  groups : s'.groups = s.groups
  history : s'.history = s.history
  groupHistory : s'.groupHistory = s.groupHistory
  nextGroupId : s'.nextGroupId = s.nextGroupId

theorem SameRecords.refl (s : ChatServer) : SameRecords s s := ⟨rfl, rfl, rfl, rfl, rfl⟩

/-- The decrypted texts in what a function returns. -/
def Value.texts : Value → List Str
  | .views list => list.map MessageView.text
  | _ => []

/-- The step has changed no record of the server and has returned no text. -/
def Powerless (cfg cfg' : Configuration) : Prop :=
  SameRecords cfg.hist.1.server cfg'.hist.1.server ∧
    ∀ v, resultOf cfg'.hist = some v → v.texts = []

variable {env : Env} {cfg : Configuration} {c : ClientId} {s : ChatServer}

theorem addContact_sameRecords {owner contact : Str} :
    SameRecords s (s.addContact owner contact).2 ↔
      (owner ∈ s.users → contact ∈ s.users → contact ∈ s.listContacts owner) := by
  unfold ChatServer.addContact ChatServer.listContacts
  rcases ho : s.users.lookup owner with - | record
  · exact ⟨fun _ hmem => absurd hmem (AList.lookup_eq_none.mp ho), fun _ => .refl s⟩
  · have howner : owner ∈ s.users := AList.lookup_isSome.mp (by rw [ho]; rfl)
    rcases hc : s.users.lookup contact with - | other
    · exact ⟨fun _ _ hmem => absurd hmem (AList.lookup_eq_none.mp hc), fun _ => .refl s⟩
    · have hcontact : contact ∈ s.users := AList.lookup_isSome.mp (by rw [hc]; rfl)
      by_cases hin : contact ∈ record.contacts
      · simp only [hin, if_true, mem_sortedFromSet, implies_true, iff_true]
        exact .refl s
      · simp only [hin, if_false, mem_sortedFromSet, howner, hcontact, forall_const, iff_false]
        intro hsame
        -- the owner's record has a contact it did not have
        have hlookup := congrArg (AList.lookup owner) hsame.users
        rw [AList.lookup_insert, ho] at hlookup
        have hcontacts := congrArg UserRecord.contacts (Option.some.inj hlookup)
        exact hin (hcontacts ▸ Finset.mem_insert_self contact record.contacts)

theorem removeContact_sameRecords {owner contact : Str} :
    SameRecords s (s.removeContact owner contact).2 ↔ contact ∉ s.listContacts owner := by
  unfold ChatServer.removeContact ChatServer.listContacts
  rcases ho : s.users.lookup owner with - | record
  · exact ⟨fun _ => List.not_mem_nil, fun _ => .refl s⟩
  · by_cases hin : contact ∈ record.contacts
    · simp only [hin, if_true, mem_sortedFromSet, not_true_eq_false, iff_false]
      intro hsame
      have hlookup := congrArg (AList.lookup owner) hsame.users
      rw [AList.lookup_insert, ho] at hlookup
      have hcontacts := congrArg UserRecord.contacts (Option.some.inj hlookup)
      have herased : contact ∈ record.contacts.erase contact := by
        rw [show record.contacts.erase contact = record.contacts from hcontacts]
        exact hin
      exact Finset.notMem_erase contact record.contacts herased
    · simp only [hin, if_false, mem_sortedFromSet, not_false_eq_true, iff_true]
      exact .refl s

theorem createGroup_sameRecords {owner groupName : Str} {members : List Str} :
    SameRecords s (s.createGroup owner groupName members).2 ↔ owner ∉ s.users := by
  unfold ChatServer.createGroup
  by_cases ho : owner ∈ s.users
  · simp only [ho, if_true, not_true_eq_false, iff_false]
    intro hsame
    -- the counter moves on, even if the id is taken
    have hnext : s.nextGroupId + 1 = s.nextGroupId := hsame.nextGroupId
    exact absurd (UInt64.add_eq_left.mp hnext) (by decide)
  · simp only [ho, if_false, not_false_eq_true, iff_true]
    exact .refl s

/-! ### Reading -/

/-- Nothing to read, or something that cannot be decrypted with the key in the
client's memory. -/
def Unreadable (env : Env) (self : ChatClient) (n : Nat) (messages : List Message) : Prop :=
  messages = [] ∨ ∃ k m, messages[k]? = some m ∧ ∀ view, decryptToView env self (n + k) m ≠ .ok view

/-- What the loop returns: all views, or what the first message throws that cannot be
decrypted. -/
def readAll (env : Env) (self : ChatClient) : Nat → List Message → Except Exn (List MessageView)
  | _, [] => .ok []
  | n, m :: messages =>
      match decryptToView env self n m with
      | .error x => .error x
      | .ok view => (readAll env self (n + 1) messages).map (view :: ·)

theorem readAll_eq_ok {self : ChatClient} {n : Nat} {messages : List Message}
    {views : List MessageView} (h : readAll env self n messages = .ok views) :
    views.length = messages.length ∧
      ∀ k m, messages[k]? = some m → ∃ view, decryptToView env self (n + k) m = .ok view := by
  induction messages generalizing n views with
  | nil =>
      cases h
      exact ⟨rfl, fun k m hm => by cases hm⟩
  | cons message messages ih =>
      rw [readAll] at h
      split at h
      · cases h
      · next view hview =>
        rcases hrest : readAll env self (n + 1) messages with x | rest
        · rw [hrest] at h
          cases h
        · rw [hrest] at h
          cases h
          obtain ⟨hlen, hall⟩ := ih hrest
          refine ⟨congrArg (· + 1) hlen, fun k m hm => ?_⟩
          cases k with
          | zero =>
              cases hm
              exact ⟨view, hview⟩
          | succ k =>
              obtain ⟨view', hview'⟩ := hall k m hm
              exact ⟨view', by rw [← hview', Nat.add_assoc, Nat.add_comm 1 k]⟩

theorem readAll_eq_error {self : ChatClient} {n : Nat} {messages : List Message} {x : Exn}
    (h : readAll env self n messages = .error x) :
    ∃ k m, messages[k]? = some m ∧ ∀ view, decryptToView env self (n + k) m ≠ .ok view := by
  induction messages generalizing n with
  | nil => cases h
  | cons message messages ih =>
      rw [readAll] at h
      split at h
      · next x' hx =>
        refine ⟨0, message, rfl, fun view hview => ?_⟩
        rw [Nat.add_zero, hx] at hview
        cases hview
      · next view hview =>
        rcases hrest : readAll env self (n + 1) messages with x' | rest
        · rw [hrest] at h
          cases h
          obtain ⟨k, m, hm, hfail⟩ := ih hrest
          refine ⟨k + 1, m, hm, fun view => ?_⟩
          rw [Nat.add_comm k 1, ← Nat.add_assoc]
          exact hfail view
        · rw [hrest] at h
          cases h

variable {J : History → Prop} {i : Nat} {h : History}

/-- The loop reads all messages. -/
theorem wp_viewsOf {self : ChatClient} (messages : List Message) (out : List MessageView) :
    env.system.wp J (fun _ => False) i (viewsOf env self messages out)
      (fun r h' => h'.1.server = h.1.server ∧
        r = (readAll env self h.1.draws messages).map (out ++ ·)) h := by
  induction messages generalizing out h with
  | nil => exact ⟨rfl, congrArg Except.ok (List.append_nil out).symm⟩
  | cons message messages ih =>
      refine wp_step fun n h1 hn hh1 => ?_
      have hserver : h1.1.server = h.1.server := by
        rw [hh1]
        rfl
      have hdraws : h1.1.draws = h.1.draws + 1 := by
        rw [hh1]
        rfl
      obtain rfl : n = h.1.draws := hn
      clear hh1
      refine wp_ofExcept_bind (fun view hview => ?_) (fun e he => ?_)
      · refine wp_mono (fun r h' hr => ?_) (ih (h := h1) (out ++ [view]))
        obtain ⟨hsame, rfl⟩ := hr
        refine ⟨hsame.trans hserver, ?_⟩
        rw [readAll, hview, hdraws]
        rcases readAll env self (h.1.draws + 1) messages with x | rest
        · rfl
        · exact congrArg Except.ok (List.append_cons out view rest).symm
      · refine ⟨hserver, ?_⟩
        rw [readAll, he]
        rfl

/-- Reading a conversation shows no text exactly where it cannot be read. -/
theorem texts_viewsOf (env : Env) (self : ChatClient) (messages : List Message)
    (stack : List (Frame Eff Eff.Res Notice Exn Value)) : ∃ r h', h'.1.server = h.1.server ∧
      env.system.advance i stack (viewsOf env self messages [] >>= fun v => pure (.views v)) h
        = (env.system.push h' i (.returned r), stack) ∧
      ((∀ v, r = .ok v → v.texts = []) ↔ Unreadable env self h.1.draws messages) := by
  have hwp : env.system.wp (fun _ => True) (fun _ => False) i
      (viewsOf env self messages [] >>= fun v => pure (Value.views v))
      (fun r h' => h'.1.server = h.1.server ∧
        ((∀ v, r = .ok v → v.texts = []) ↔ Unreadable env self h.1.draws messages)) h := by
    refine wp_bind.mpr (wp_mono (fun r h' hr => ?_) (wp_viewsOf messages []))
    obtain ⟨hserver, rfl⟩ := hr
    rcases hread : readAll env self h.1.draws messages with x | views
    · exact ⟨hserver, fun _ => Or.inr (readAll_eq_error hread), fun _ v hv => by cases hv⟩
    · obtain ⟨hlen, hall⟩ := readAll_eq_ok hread
      refine ⟨hserver, fun hnone => Or.inl ?_, ?_⟩
      · have htexts : views.map MessageView.text = [] := hnone (.views views) rfl
        rw [List.map_eq_nil_iff.mp htexts] at hlen
        exact List.eq_nil_of_length_eq_zero hlen.symm
      · rintro (rfl | ⟨k, m, hm, hfail⟩)
        · intro v hv
          cases hv
          show views.map MessageView.text = []
          rw [List.eq_nil_of_length_eq_zero hlen]
          rfl
        · obtain ⟨view, hview⟩ := hall k m hm
          exact absurd hview (hfail view)
  obtain ⟨r, h', ⟨hserver, htexts⟩, hadvance⟩ := advance_of_wp hwp stack
  exact ⟨r, h', hserver, hadvance, htexts⟩

/-! ### Calls without a session -/

/-- When an operation of a client that is logged out does nothing: the functions
for contacts, groups and reading are not guarded. -/
def Harmless (env : Env) (w : World) (c : ClientId) : Op → Prop
  | .addContact contact => (w.clients c).username ∈ w.server.users → contact ∈ w.server.users →
      contact ∈ w.server.listContacts (w.clients c).username
  | .removeContact contact => contact ∉ w.server.listContacts (w.clients c).username
  | .createGroup _ _ => (w.clients c).username ∉ w.server.users
  | .getConversation peer => Unreadable env (w.clients c) w.draws
      (w.server.getConversation (w.clients c).username peer)
  | .getGroupConversation groupId => Unreadable env (w.clients c) w.draws
      ((w.server.getGroupConversation groupId).filter fun m => m.receiver = (w.clients c).username)
  | _ => True

/-- A step that returns `r` and leaves the server in the state `s`. -/
theorem powerless_of_returned {op : Op} {h' : History} {r : Except Exn Value}
    (hstep : (env.system.step cfg (.call ⟨c, op⟩)).hist
      = env.system.push h' cfg.next (.returned r)) :
    Powerless cfg (env.system.step cfg (.call ⟨c, op⟩)) ↔
      SameRecords cfg.hist.1.server h'.1.server ∧ ∀ v, r = .ok v → v.texts = [] := by
  have hresult : ∀ v, resultOf (env.system.push h' cfg.next (.returned r)) = some v ↔
      r = .ok v := by
    intro v
    rcases r with x | v'
    · exact ⟨fun hv => (by cases hv), fun hv => (by cases hv)⟩
    · exact ⟨fun hv => (by cases hv; rfl), fun hv => (by cases hv; rfl)⟩
  rw [Powerless, hstep]
  simp only [hresult]
  rfl

/-- Steps that return something without texts. -/
theorem powerless_iff_sameRecords {op : Op} {h' : History} {v : Value} (hv : v.texts = [])
    (hstep : (env.system.step cfg (.call ⟨c, op⟩)).hist
      = env.system.push h' cfg.next (.returned (.ok v))) :
    Powerless cfg (env.system.step cfg (.call ⟨c, op⟩)) ↔
      SameRecords cfg.hist.1.server h'.1.server := by
  rw [powerless_of_returned hstep]
  refine and_iff_left fun v' hv' => ?_
  cases hv'
  exact hv

/-- Calls that end in reading. -/
theorem powerless_of_viewsOf {op : Op} {h : History} {self : ChatClient} {messages : List Message}
    (hstep : (env.system.step cfg (.call ⟨c, op⟩)).hist = (env.system.advance cfg.next cfg.stack
      (viewsOf env self messages [] >>= fun v => pure (.views v)) h).1)
    (hserver : h.1.server = cfg.hist.1.server) (hdraws : h.1.draws = cfg.hist.1.draws) :
    Powerless cfg (env.system.step cfg (.call ⟨c, op⟩)) ↔
      Unreadable env self cfg.hist.1.draws messages := by
  obtain ⟨r, h', hserver', hadvance, htexts⟩ :=
    texts_viewsOf (i := cfg.next) (h := h) env self messages cfg.stack
  rw [hadvance] at hstep
  rw [powerless_of_returned hstep, htexts, hdraws, hserver', hserver]
  exact and_iff_right (.refl _)

/-- The guarded sends return false at once. -/
theorem step_of_loggedOut (hout : (cfg.hist.1.clients c).loggedIn = false) {op : Op}
    {p : ChatClient → Code Bool} (hbody : Call.body env ⟨c, op⟩ = Code.get c >>= fun self =>
      (if self.loggedIn then p self else pure false) >>= fun b => pure (.bool b)) :
    (env.system.step cfg (.call ⟨c, op⟩)).hist
      = env.system.push (env.system.push (env.system.push cfg.hist cfg.next (.called ⟨c, op⟩))
          cfg.next (.did (.get c))) cfg.next (.returned (.ok (.bool false))) := by
  show (env.system.advance cfg.next cfg.stack (Call.body env ⟨c, op⟩) _).1 = _
  rw [hbody]
  show (env.system.advance cfg.next cfg.stack
    ((if (cfg.hist.1.clients c).loggedIn then p (cfg.hist.1.clients c) else pure false) >>=
      fun b => pure (.bool b)) _).1 = _
  rw [hout]
  rfl

/-- Logging out twice changes no record. -/
theorem powerless_logout : Powerless cfg (env.system.step cfg (.call ⟨c, .logout⟩)) := by
  have hstep : ∃ h' : History, SameRecords cfg.hist.1.server h'.1.server ∧
      (env.system.step cfg (.call ⟨c, .logout⟩)).hist
        = env.system.push h' cfg.next (.returned (.ok .unit)) := by
    show ∃ h' : History, _ ∧ (env.system.advance cfg.next cfg.stack
      (((if (cfg.hist.1.clients c).transport.connected then _ else _ : Code Unit) >>= _) >>= _)
        _).1 = _
    cases (cfg.hist.1.clients c).transport.connected with
    | true =>
        refine ⟨_, ?_, rfl⟩
        exact ⟨rfl, rfl, rfl, rfl, rfl⟩
    | false =>
        refine ⟨_, ?_, rfl⟩
        exact ⟨rfl, rfl, rfl, rfl, rfl⟩
  obtain ⟨h', hsame, hstep⟩ := hstep
  exact (powerless_iff_sameRecords (v := .unit) rfl hstep).mpr hsame

/-- **What a client can do without a session.**  A call of a client that is
logged out, other than registering and logging in, changes no record of the
server and returns no decrypted text if and only if it is harmless. -/
theorem powerless_iff (env : Env) (names : ClientId → Str) (disk : Str → Option Str)
    (ms : List (Move Exn Call)) (c : ClientId) (op : Op)
    (hout : ((env.run names disk ms).hist.1.clients c).loggedIn = false)
    (hregister : ∀ p, op ≠ .registerOnServer p) (hlogin : ∀ p, op ≠ .login p) :
    Powerless (env.run names disk ms) (env.run names disk (ms ++ [.call ⟨c, op⟩])) ↔
      Harmless env (env.run names disk ms).hist.1 c op := by
  rw [Env.run_append_singleton]
  generalize env.run names disk ms = cfg at hout ⊢
  cases op with
  | registerOnServer p => exact absurd rfl (hregister p)
  | login p => exact absurd rfl (hlogin p)
  | logout => exact iff_of_true powerless_logout trivial
  | sendMessage toUser plaintext =>
      rw [powerless_iff_sameRecords rfl (step_of_loggedOut hout rfl)]
      exact iff_of_true (.refl _) trivial
  | sendGroupMessage groupId plaintext =>
      rw [powerless_iff_sameRecords rfl (step_of_loggedOut hout rfl)]
      exact iff_of_true (.refl _) trivial
  | deleteMessageForAll messageId =>
      -- the guard asks two things; the session is the first of them
      have hstep : (env.system.step cfg (.call ⟨c, .deleteMessageForAll messageId⟩)).hist
          = env.system.push (env.system.push
              (env.system.push cfg.hist cfg.next (.called ⟨c, .deleteMessageForAll messageId⟩))
              cfg.next (.did (.get c))) cfg.next (.returned (.ok (.bool false))) := by
        show (env.system.advance cfg.next cfg.stack
          ((if (cfg.hist.1.clients c).loggedIn = false ∨ messageId = [] then pure false
            else _ : Code Bool) >>= fun b => pure (.bool b)) _).1 = _
        rw [if_pos (Or.inl hout)]
        rfl
      rw [powerless_iff_sameRecords rfl hstep]
      exact iff_of_true (.refl _) trivial
  | listUsers =>
      -- from here on the session is not looked at
      rw [powerless_iff_sameRecords (v := .names _) rfl rfl]
      exact iff_of_true (.refl _) trivial
  | listContacts =>
      rw [powerless_iff_sameRecords (v := .names _) rfl rfl]
      exact iff_of_true (.refl _) trivial
  | addContact contact =>
      rw [powerless_iff_sameRecords (v := .bool _) rfl rfl]
      exact addContact_sameRecords
  | removeContact contact =>
      rw [powerless_iff_sameRecords (v := .bool _) rfl rfl]
      exact removeContact_sameRecords
  | createGroup groupName members =>
      rw [powerless_iff_sameRecords (v := .groupId _) rfl rfl]
      exact createGroup_sameRecords
  | listGroups =>
      rw [powerless_iff_sameRecords (v := .names _) rfl rfl]
      exact iff_of_true (.refl _) trivial
  -- reading changes no record, so it is the text that counts
  | getConversation peer => exact powerless_of_viewsOf rfl rfl rfl
  | getGroupConversation groupId => exact powerless_of_viewsOf rfl rfl rfl
  | username =>
      rw [powerless_iff_sameRecords (v := .name _) rfl rfl]
      exact iff_of_true (.refl _) trivial
  | isLoggedIn =>
      rw [powerless_iff_sameRecords (v := .bool _) rfl rfl]
      exact iff_of_true (.refl _) trivial

/-- Alice has registered but not logged in: making a group is not harmless. -/
theorem powerless_iff_alice : ¬ Powerless
    (Env.reference.run Env.names Env.noFiles [.call ⟨0, .registerOnServer (str "pw")⟩])
    (Env.reference.run Env.names Env.noFiles ([.call ⟨0, .registerOnServer (str "pw")⟩] ++
      [.call ⟨0, .createGroup (str "club") []⟩])) := by
  have hout : ((Env.reference.run Env.names Env.noFiles
      [.call ⟨0, .registerOnServer (str "pw")⟩]).hist.1.clients 0).loggedIn = false := by
    decide +kernel
  have hname : ((Env.reference.run Env.names Env.noFiles
      [.call ⟨0, .registerOnServer (str "pw")⟩]).hist.1.clients 0).username
        ∈ (Env.reference.run Env.names Env.noFiles
          [.call ⟨0, .registerOnServer (str "pw")⟩]).hist.1.server.users := by decide +kernel
  rw [powerless_iff Env.reference Env.names Env.noFiles _ 0 (.createGroup (str "club") [])
    hout (fun _ e => by cases e) (fun _ e => by cases e), Harmless]
  exact fun hharmless => hharmless hname

/-- Without ever logging in, Alice makes a group. -/
theorem power_without_session : ¬ ∀ ms c op,
    ((Env.reference.run Env.names Env.noFiles ms).hist.1.clients c).loggedIn = false →
    (∀ p, op ≠ .registerOnServer p) → (∀ p, op ≠ .login p) →
      Powerless (Env.reference.run Env.names Env.noFiles ms)
        (Env.reference.run Env.names Env.noFiles (ms ++ [.call ⟨c, op⟩])) := by
  intro h
  have hout : ((Env.reference.run Env.names Env.noFiles
      [.call ⟨0, .registerOnServer (str "pw")⟩]).hist.1.clients 0).loggedIn = false := by
    decide +kernel
  have hgroup := (h [.call ⟨0, .registerOnServer (str "pw")⟩] 0 (.createGroup (str "club") []) hout
    (fun _ e => by cases e) (fun _ e => by cases e)).1.nextGroupId
  exact absurd hgroup (by decide +kernel)

/-- Alice sends to Bob and logs out. -/
def farewell : List (Move Exn Call) := greeting ++ [.call ⟨0, .logout⟩]

/-- She still reads what she has sent. -/
example : resultOf (Env.reference.run Env.names Env.noFiles
      (farewell ++ [.call ⟨0, .getConversation (str "bob")⟩])).hist ≠ some (.views []) ∧
    ((Env.reference.run Env.names Env.noFiles farewell).hist.1.clients 0).loggedIn = false := by
  decide +kernel

end Evlampy
