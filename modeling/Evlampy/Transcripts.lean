/-
Evlampy/Transcripts.lean

From plaintext to plaintext.  Nothing on the way of a message holds its text: the
server keeps ciphertexts, and every reader decrypts with the key in its memory.
Abstractly a chat is a list of posts, each with the text its sender has typed.
`transcript` reads this list off the trace of a run: what was sent and has not been
deleted, in the order in which the server stored it.

Whoever is logged in is shown exactly the transcript (`reads_transcript`), whatever
client it is and whenever it reads.  So the two sides of a conversation are shown
the same, and what has been shown once is shown again, in its order, until its
sender deletes it (`history_continues`); what has been deleted never comes back
(`deleted_for_good`).
-/
import Evlampy.Erasing

namespace Evlampy

open Cxx Callback Prog System ChatServer ChatClient UnorderedMap

/-- Entries of the trace of a run. -/
abbrev Step := Entry Eff Notice Exn Call Value World

variable {env : Env} {names : ClientId → Str} {disk : Str → Option Str} {h : History}
  {i : Nat} {c : ClientId} {m : Message} {text : Str} {t : List Step}

/-! ### Posts -/

/-- The text instance `i` was called with. -/
def sentText (t : List Step) (i : Nat) : Str :=
  ((own i t).filterMap fun x => (callOf x.act).bind fun q => q.op.plaintext).headD []

/-- The post a logged message stands for. -/
def postOf (t : List Step) (p : Nat × Message) : MessageView := p.2.view (sentText t p.1)

/-- The posts of the messages that satisfy `p`: what was sent and has not been deleted, in
the order it was stored. -/
def transcript (t : List Step) (p : Message → Bool) : List MessageView :=
  ((logOfTrace t).filter fun x => p x.2).map (postOf t)

/-- The texts of the posts are shorter than `limit`. -/
def Below (limit : Nat) (posts : List MessageView) : Prop := ∀ v ∈ posts, v.text.length < limit

instance (limit : Nat) (posts : List MessageView) : Decidable (Below limit posts) :=
  inferInstanceAs (Decidable (∀ v ∈ posts, _))

/-- A copy of a message to the group that is for the user. -/
def ForMember (u groupId : Str) (m : Message) : Prop :=
  m.isGroupMessage = true ∧ m.chatId = groupId ∧ m.receiver = u

instance (u groupId : Str) (m : Message) : Decidable (ForMember u groupId m) :=
  inferInstanceAs (Decidable (_ ∧ _))

/-- The messages the user `u` asks for with a reading function. -/
def Op.chat (u : Str) : Op → Option (Message → Bool)
  | .getConversation peer => some fun m => Between u peer m
  | .getGroupConversation groupId => some fun m => ForMember u groupId m
  | _ => none

/-- The key of the conversation that is read is of no other pair of names. -/
def Op.Isolated (u : Str) : Op → Prop
  | .getConversation peer => Separated u peer
  | _ => True

/-- An instance has one call. -/
theorem sentText_eq (hs : Sends env names h) {q : Call} {w : World} (hq : CalledAt h i q w)
    (htext : q.op.plaintext = some text) : sentText h.2 i = text := by
  have hall : ∀ s ∈ (own i h.2).filterMap fun x => (callOf x.act).bind fun q => q.op.plaintext,
      s = text := by
    intro s hmem
    obtain ⟨x, hx, hsome⟩ := List.mem_filterMap.mp hmem
    obtain ⟨q', hq', hplain⟩ := Option.bind_eq_some_iff.mp hsome
    obtain ⟨hx, hi⟩ := mem_own.mp hx
    have hsame := hs.called i q q' w x.before hq ⟨x, hx, hi, called_of_callOf hq', rfl⟩
    rw [← hsame, htext] at hplain
    exact (Option.some.inj hplain).symm
  obtain ⟨x, hx, hi, hact, -⟩ := hq
  have hmem : text ∈ (own i h.2).filterMap fun x => (callOf x.act).bind fun q => q.op.plaintext := by
    apply List.mem_filterMap.mpr
    refine ⟨x, mem_own.mpr ⟨hx, hi⟩, ?_⟩
    rw [hact]
    exact htext
  obtain ⟨s, l, hlist⟩ := List.exists_cons_of_ne_nil (List.ne_nil_of_mem hmem)
  rw [sentText, hlist]
  exact hall s (hlist ▸ List.mem_cons_self)

/-- The text of a copy is the text of its post. -/
theorem Copy.sentText_eq (hcopy : Copy env names h i m text) (hs : Sends env names h) :
    sentText h.2 i = text := by
  cases hcopy.origin with
  | direct c w sender loggedIn isGroup chatId called =>
      exact Evlampy.sentText_eq hs called rfl
  | group c w record sender loggedIn isGroup called before now member =>
      exact Evlampy.sentText_eq hs called rfl

theorem mem_copiesOf_of_log (hp : (i, m) ∈ logOfTrace h.2) : m ∈ copiesOf i h := by
  obtain ⟨x, hx, hi, hact⟩ := inst_of_mem_logOfTrace hp
  exact mem_copiesOf.mpr ⟨x, hx, hi, stored_of_storedBy hact⟩

/-- Whoever is a party of a logged message, and logged in, decrypts it to its post. -/
theorem decryptToView_post (hfw : env.FilesWork h.1.server.recorded) {limit : Nat}
    (hinv : env.ssl.Inverts limit) (hk : Known env names h)
    (hlog : (h.1.clients c).loggedIn = true) {p : Nat × Message} (hp : p ∈ logOfTrace h.2) (hlen : (postOf h.2 p).text.length < limit)
    (hparty : (h.1.clients c).username = p.2.receiver ∨
      (h.1.clients c).username = p.2.sender ∧ p.2.isGroupMessage = false) (n : Nat) :
    decryptToView env (h.1.clients c) n p.2 = .ok (postOf h.2 p) := by
  obtain ⟨text, hcopy, -⟩ := hk.sends.copies p.1 p.2 (mem_copiesOf_of_log hp)
  obtain ⟨sessionKey, hsealed⟩ := hcopy.fields
  obtain ⟨hkey, hdec⟩ := hsealed.opens hfw hinv (hk.sound.keys hfw) hlog hparty n
  rw [postOf, hcopy.sentText_eq hk.sends] at hlen ⊢
  exact decryptToView_eq_ok hkey (hdec hlen)

/-! ### Reading -/

theorem readAll_of_forall {self : ChatClient} {l : List (Nat × Message)}
    {f : Nat × Message → MessageView}
    (hl : ∀ p ∈ l, ∀ n, decryptToView env self n p.2 = .ok (f p)) (n : Nat) :
    readAll env self n (l.map Prod.snd) = .ok (l.map f) := by
  induction l generalizing n with
  | nil => rfl
  | cons p l ih =>
      have hrest := ih (fun q hq => hl q (List.mem_cons_of_mem _ hq)) (n + 1)
      simp only [List.map_cons, readAll, hl p List.mem_cons_self n, hrest]
      rfl

/-- A call that ends in reading returns what it has read. -/
theorem resultOf_viewsOf {cfg : Configuration} {self : ChatClient} {messages : List Message}
    {views : List MessageView} (hread : ∀ n, readAll env self n messages = .ok views) :
    resultOf (env.system.advance i cfg.stack
      (viewsOf env self messages [] >>= fun v => pure (.views v)) h).1
        = some (.views views) := by
  have hwp : env.system.wp (fun _ => True) (fun _ => False) i
      (viewsOf env self messages [] >>= fun v => (pure (Value.views v) : Code Value))
      (fun r _ => r = .ok (.views views)) h := by
    refine wp_bind_pure.mpr (wp_mono (fun r h' hr => ?_) (wp_viewsOf messages []))
    rw [hr.2, hread]
    rfl
  obtain ⟨r, h', rfl, hadvance⟩ := advance_of_wp hwp cfg.stack
  rw [hadvance]
  rfl

theorem known_run (env : Env) (names : ClientId → Str) (disk : Str → Option Str)
    (ms : List (Move Exn Call)) : Known env names (env.run names disk ms).hist :=
  ⟨sound_run env names disk ms, sends_run env names disk ms⟩

theorem filter_map_snd (l : List (Nat × Message)) (p : Message → Bool) :
    (l.map Prod.snd).filter p = (l.filter fun x => p x.2).map Prod.snd :=
  List.filter_map

theorem separated_comm {a b : Str} : Separated a b ↔ Separated b a := by
  have hswap : ∀ {a b : Str}, Separated a b → Separated b a := by
    intro a b hsep
    rw [separated_iff] at hsep ⊢
    intro x y hkey
    rw [makeConversationKey_comm] at hkey
    exact Sym2.eq_swap.trans (hsep x y hkey)
  exact ⟨hswap, hswap⟩

/-- Names without colons are told apart. -/
theorem separated_of_notMem {a b : Str} (ha : 58 ∉ a) (hb : 58 ∉ b) : Separated a b := by
  have hlow : 58 ∉ low a b := by
    unfold low
    split <;> assumption
  have hhigh : 58 ∉ high a b := by
    unfold high
    split <;> assumption
  intro l r hcut hne
  exfalso
  apply hne
  generalize low a b = x at hcut hlow
  generalize high a b = y at hcut hhigh
  have hsep : separator = [58, 58] := by decide
  rw [hsep, List.append_assoc, List.append_assoc] at hcut
  -- a second cut would put a colon into one of the names
  rcases List.append_eq_append_iff.mp hcut with ⟨z, rfl, hz⟩ | ⟨z, rfl, hz⟩
  · rcases z with - | ⟨d, z⟩
    · simp
    · injection hz with hd _
      simp [← hd] at hlow
  · rcases z with - | ⟨d, z⟩
    · simp
    · simp only [List.cons_append, List.nil_append, List.cons.injEq] at hz
      rcases z with - | ⟨e, z⟩
      · simp only [List.nil_append, List.cons.injEq, true_and] at hz
        simp [hz.2] at hhigh
      · simp only [List.cons_append, List.cons.injEq] at hz
        simp [hz.2.2] at hhigh

/-- The bucket of the key of a pair holds the messages between the two, and no others. -/
theorem directKey_iff {a b : Str} (hsep : Separated a b) (m : Message) :
    directKey m = some (makeConversationKey a b) ↔ Between a b m := by
  cases hm : m.isGroupMessage with
  | true => simp [directKey, Between, hm]
  | false =>
      simp only [directKey, Between, hm, Bool.false_eq_true, if_false, Option.some.injEq, true_and]
      constructor
      · exact fun hkey => (separated_iff.mp hsep _ _ hkey.symm).symm
      · exact makeConversationKey_of_pair

/-- Who reads a chat is shown its posts. -/
theorem resultOf_read {limit : Nat} (hinv : env.ssl.Inverts limit) {names : ClientId → Str}
    {disk : Str → Option Str} {ms : List (Move Exn Call)}
    (hfw : env.FilesWork (env.run names disk ms).hist.1.server.recorded)
    (hlog : ((env.run names disk ms).hist.1.clients c).loggedIn = true) (op : Op)
    {p : Message → Bool} (hchat : op.chat (names c) = some p) (hisolated : op.Isolated (names c))
    (hbelow : Below limit (transcript (env.run names disk ms).hist.2 p)) :
    resultOf (env.run names disk (ms ++ [.call ⟨c, op⟩])).hist
      = some (.views (transcript (env.run names disk ms).hist.2 p)) := by
  have hk := known_run env names disk ms
  have hL := logged_run env names disk ms
  have hname := named_run env names disk ms c
  rw [Env.run_append_singleton]
  cases op with
  | getConversation peer =>
      cases hchat
      apply resultOf_viewsOf
      intro n
      show readAll env ((env.run names disk ms).hist.1.clients c) n
        ((env.run names disk ms).hist.1.server.getConversation
          ((env.run names disk ms).hist.1.clients c).username peer) = _
      rw [hname, ChatServer.getConversation, hL.direct, filter_map_snd]
      simp only [directKey_iff hisolated, transcript]
      apply readAll_of_forall
      intro x hx n
      have hlen := hbelow _ (List.mem_map_of_mem hx)
      obtain ⟨hx, hbetween⟩ := List.mem_filter.mp hx
      obtain ⟨hdirect, hpair⟩ := of_decide_eq_true hbetween
      apply decryptToView_post hfw hinv hk hlog hx hlen
      rw [hname]
      rcases Sym2.eq_iff.mp hpair with ⟨hsender, -⟩ | ⟨-, hreceiver⟩
      · exact Or.inr ⟨hsender.symm, hdirect⟩
      · exact Or.inl hreceiver.symm
  | getGroupConversation groupId =>
      cases hchat
      apply resultOf_viewsOf
      intro n
      show readAll env ((env.run names disk ms).hist.1.clients c) n
        (((env.run names disk ms).hist.1.server.getGroupConversation groupId).filter
          fun m => m.receiver = ((env.run names disk ms).hist.1.clients c).username) = _
      rw [hname, ChatServer.getGroupConversation, hL.group, List.filter_filter, filter_map_snd]
      have hmine : ∀ m : Message,
          (decide (m.receiver = names c) && decide (groupKey m = some groupId))
            = decide (ForMember (names c) groupId m) := by
        intro m
        cases hm : m.isGroupMessage <;> simp [groupKey, ForMember, hm, and_comm]
      simp only [hmine, transcript]
      apply readAll_of_forall
      intro x hx n
      have hlen := hbelow _ (List.mem_map_of_mem hx)
      obtain ⟨hx, hfor⟩ := List.mem_filter.mp hx
      apply decryptToView_post hfw hinv hk hlog hx hlen
      rw [hname]
      exact Or.inl (of_decide_eq_true hfor).2.2.symm
  | _ => cases hchat

/-- **Readers are shown the transcript.**  In every state of every run, whoever is logged
in as `u` and reads a conversation is shown the posts between `u` and the peer, and whoever
reads a group the posts of the group that are for `u`: every text as it was typed, in the
order of the server, and nothing else.  Both sides of a conversation are shown the same.  No
other pair of names may share the key of the conversation, files work, and encryption can be
inverted for texts as long as those of the posts. -/
theorem reads_transcript (limit : Nat) (hinv : env.ssl.Inverts limit)
    (names : ClientId → Str) (disk : Str → Option Str) (ms : List (Move Exn Call))
    (hfw : env.FilesWork (env.run names disk ms).hist.1.server.recorded)
    (hlog : ((env.run names disk ms).hist.1.clients c).loggedIn = true) :
    (∀ op p, op.chat (names c) = some p → op.Isolated (names c) →
      Below limit (transcript (env.run names disk ms).hist.2 p) →
        resultOf (env.run names disk (ms ++ [.call ⟨c, op⟩])).hist
          = some (.views (transcript (env.run names disk ms).hist.2 p))) ∧
    ∀ d, ((env.run names disk ms).hist.1.clients d).loggedIn = true →
      Separated (names c) (names d) →
      Below limit (transcript (env.run names disk ms).hist.2
        fun m => Between (names c) (names d) m) →
        resultOf (env.run names disk (ms ++ [.call ⟨c, .getConversation (names d)⟩])).hist
          = resultOf (env.run names disk (ms ++ [.call ⟨d, .getConversation (names c)⟩])).hist := by
  refine ⟨fun op p => resultOf_read hinv hfw hlog op, fun d hlogd hsep hbelow => ?_⟩
  have hswap : ∀ m, Between (names d) (names c) m ↔ Between (names c) (names d) m := by
    intro m
    rw [Between, Between, Sym2.eq_swap (a := names c)]
  have hother := resultOf_read hinv hfw hlogd (.getConversation (names c)) rfl
    (separated_comm.mp hsep)
  simp only [hswap] at hother
  rw [resultOf_read hinv hfw hlog (.getConversation (names d)) rfl hsep hbelow, hother hbelow]

/-- Alice has greeted Bob: both are shown one message. -/
theorem reads_transcript_greeting :
    resultOf (Env.reference.run Env.names Env.noFiles
        (greeting ++ [.call ⟨1, .getConversation (str "alice")⟩])).hist
      = some (.views (transcript (Env.reference.run Env.names Env.noFiles greeting).hist.2
          fun m => Between (str "bob") (str "alice") m)) :=
  (reads_transcript 3 OpenSSL.reference_inverts Env.names Env.noFiles greeting
    Env.reference_filesWork (by decide +kernel)).1 (.getConversation (str "alice")) _ rfl
      (separated_of_notMem (by decide) (by decide)) (by decide +kernel)

/-! ### What has been said stays said -/

/-- One of the acts is a deletion of the post. -/
def ErasedIn (acts : List Step) (v : MessageView) : Prop :=
  ∃ x ∈ acts, erasedBy x.act = some (v.fromUser, v.messageId)

instance (acts : List Step) (v : MessageView) : Decidable (ErasedIn acts v) :=
  inferInstanceAs (Decidable (∃ x ∈ acts, _))

/-- Deletions are calls of clients of the requester that are logged in. -/
def Erasures (names : ClientId → Str) (h : History) : Prop :=
  ∀ x ∈ h.2, ∀ e, erasedBy x.act = some e → ∃ c w, names c = e.1 ∧
    (w.clients c).loggedIn = true ∧ CalledAt h x.inst ⟨c, .deleteMessageForAll e.2⟩ w

theorem Erasures.push {a : Act Eff Notice Exn Call Value} (hE : Erasures names h)
    (ha : ∀ e, erasedBy a = some e → ∃ c w, names c = e.1 ∧ (w.clients c).loggedIn = true ∧
      CalledAt h i ⟨c, .deleteMessageForAll e.2⟩ w) : Erasures names (env.system.push h i a) := by
  have hgrows := Grows.push env h i a
  intro x hx e he
  rcases List.mem_cons.mp hx with rfl | hx
  · obtain ⟨c, w, hname, hlog, hcalled⟩ := ha e he
    exact ⟨c, w, hname, hlog, hcalled.mono hgrows⟩
  · obtain ⟨c, w, hname, hlog, hcalled⟩ := hE x hx e he
    exact ⟨c, w, hname, hlog, hcalled.mono hgrows⟩

/-- Of the operations only the deletion erases. -/
theorem body_erases_nothing (env : Env) {q : Call} (hq : ∀ id, q.op ≠ .deleteMessageForAll id) :
    (q.body env).AllActs (fun e => erasedBy (.did e) = none) fun _ => True := by
  by_cases hkeeps : q.op.Keeps
  · exact (body_keeps env hkeeps).mono (fun _ he => he.2) fun _ _ => trivial
  · have hsends : ∀ e, Footprint q.client q.op e → SendActs e := by
      intro e he
      obtain ⟨c, op⟩ := q
      cases op with
      | sendMessage _ _ => exact he
      | sendGroupMessage _ _ => exact he
      | deleteMessageForAll id => exact absurd rfl (hq id)
      | _ => exact absurd trivial hkeeps
    apply (body_allActs env q).mono
    · intro e he
      have he := hsends e he
      cases e with
      | server q => cases q <;> first | rfl | exact he.elim
      | _ => rfl
    · exact fun _ _ => trivial

theorem erasures_run (env : Env) (names : ClientId → Str) (disk : Str → Option Str)
    (ms : List (Move Exn Call)) : Erasures names (env.run names disk ms).hist := by
  refine (run_invariant env.system (J := fun h => Named names h.1) (I := Erasures names)
    (named_run env names disk) (fun x hx => nomatch hx) ?_ ms).1
  intro q h i hname hE _
  have hquiet : ∀ {h : History} {a : Act Eff Notice Exn Call Value}, Erasures names h →
      erasedBy a = none → Erasures names (env.system.push h i a) := by
    intro h a hE ha
    apply hE.push
    intro e he
    rw [ha] at he
    cases he
  have hcalled := hquiet (a := .called q) hE rfl
  by_cases hq : ∀ id, q.op ≠ .deleteMessageForAll id
  · refine wp_mono (fun r h' hE' => hquiet hE' rfl) (wp_of_allActs (K := Erasures names) ?_ ?_
      (body_erases_nothing env hq) hcalled)
    · exact fun e h' he hE' => hquiet hE' he
    · exact fun n h' _ hE' => ⟨hquiet hE' rfl, fun a h'' _ hE'' _ => hquiet hE'' rfl⟩
  · push Not at hq
    obtain ⟨id, hid⟩ := hq
    obtain ⟨c, op⟩ := q
    obtain rfl : op = .deleteMessageForAll id := hid
    have hcall : CalledAt (env.system.push h i (.called ⟨c, .deleteMessageForAll id⟩)) i
        ⟨c, .deleteMessageForAll id⟩ h.1 := calledAt_push.mpr (Or.inr ⟨rfl, rfl, rfl⟩)
    apply wp_map (K := Erasures names) (fun r h' hE' => hquiet hE' rfl)
    refine wp_step fun self h1 hself hh1 => ?_
    obtain rfl : self = h.1.clients c := hself
    have hE1 : Erasures names h1 := hh1 ▸ hquiet hcalled rfl
    split
    · exact hE1
    · next hgo =>
      rw [not_or] at hgo
      apply hE1.push
      intro e he
      cases he
      refine ⟨c, h.1, (hname c).symm, by simpa using hgo.1, ?_⟩
      rw [hh1]
      exact hcall.mono (Grows.push env _ i _)

/-- The log is what it was, less what has been deleted since, and what has been stored
since. -/
theorem logOfTrace_append (later t : List Step) : logOfTrace (later ++ t)
    = ((logOfTrace t).filter fun p => ¬ ErasedIn later (p.2.view [])) ++ logOfTrace later := by
  induction later with
  | nil =>
      have hnone : ∀ v, ¬ ErasedIn [] v := by
        rintro v ⟨x, hx, -⟩
        cases hx
      simp [hnone, logOfTrace]
  | cons x later ih =>
      have hsplit : ∀ p : Nat × Message, ErasedIn (x :: later) (p.2.view []) ↔
          erasedBy x.act = some (p.2.sender, p.2.messageId) ∨ ErasedIn later (p.2.view []) := by
        intro p
        simp [ErasedIn, Message.view]
      simp only [hsplit, List.cons_append, logOfTrace, ih]
      rcases hstore : storedBy x.act with - | m
      · rcases herase : erasedBy x.act with - | ⟨requester, messageId⟩
        · simp
        · simp only [List.filter_append, List.filter_filter]
          congr 1
          apply List.filter_congr
          intro p _
          simp only [Option.some.injEq, Prod.mk.injEq]
          grind
      · have herase : erasedBy x.act = none := by
          rw [stored_of_storedBy hstore]
          rfl
        simp only [herase, reduceCtorEq, false_or, List.append_assoc]

/-- A post keeps its text. -/
theorem postOf_append (hk : Known env names h) {h' : History} (hk' : Known env names h')
    {since : List Step} (ht : h'.2 = since ++ h.2) {p : Nat × Message}
    (hp : p ∈ logOfTrace h.2) : postOf h'.2 p = postOf h.2 p := by
  obtain ⟨text, hcopy, -⟩ := hk.sends.copies p.1 p.2 (mem_copiesOf_of_log hp)
  have hmono : ∀ {q : Call} {w : World}, CalledAt h p.1 q w → CalledAt h' p.1 q w := by
    rintro q w ⟨x, hx, hrest⟩
    refine ⟨x, ?_, hrest⟩
    rw [ht]
    exact List.mem_append_right _ hx
  have htext' : sentText h'.2 p.1 = text := by
    cases hcopy.origin with
    | direct c w sender loggedIn isGroup chatId called =>
        exact sentText_eq hk'.sends (hmono called) rfl
    | group c w record sender loggedIn isGroup called before now member =>
        exact sentText_eq hk'.sends (hmono called) rfl
  rw [postOf, postOf, htext', hcopy.sentText_eq hk.sends]

/-- The transcript later on. -/
theorem transcript_append (hk : Known env names h) {h' : History} (hk' : Known env names h')
    {since : List Step} (ht : h'.2 = since ++ h.2) (p : Message → Bool) :
    transcript h'.2 p = (transcript h.2 p).filter (fun v => ¬ ErasedIn since v)
      ++ ((logOfTrace since).filter fun x => p x.2).map (postOf h'.2) := by
  have hold : ((logOfTrace h.2).filter fun x => p x.2).map (postOf h.2)
      = ((logOfTrace h.2).filter fun x => p x.2).map (postOf h'.2) :=
    List.map_congr_left fun x hx => (postOf_append hk hk' ht (List.mem_of_mem_filter hx)).symm
  have herase : ∀ x : Nat × Message, ErasedIn since (postOf h'.2 x) ↔
      ErasedIn since (x.2.view []) := fun _ => Iff.rfl
  rw [transcript, transcript, hold, ht, logOfTrace_append, List.filter_append, List.map_append,
    List.filter_map, ← ht]
  simp only [List.filter_filter, Function.comp_def, herase, Bool.and_comm]

/-- Bob answers Alice. -/
def answered : List (Move Exn Call) :=
  [.call ⟨1, .sendMessage (str "alice") (str "ho")⟩, .answer (.ok ())]

/-- A deletion that is answered with true has been made. -/
theorem step_deleted {cfg : Configuration} {id : Str}
    (htrue : resultOf (env.system.step cfg (.call ⟨c, .deleteMessageForAll id⟩)).hist
      = some (.bool true)) : ∃ acts : List Step,
    (env.system.step cfg (.call ⟨c, .deleteMessageForAll id⟩)).hist.2 = acts ++ cfg.hist.2 ∧
      storesIn acts = [] ∧
      (∃ x ∈ acts, erasedBy x.act = some ((cfg.hist.1.clients c).username, id)) ∧
      (cfg.hist.1.server.deleteMessageForAll (cfg.hist.1.clients c).username id).1 = true := by
  by_cases hgo : (cfg.hist.1.clients c).loggedIn = false ∨ id = []
  · -- without a session or an id it is answered with false
    have hstep : (env.system.step cfg (.call ⟨c, .deleteMessageForAll id⟩)).hist
        = (env.system.advance cfg.next cfg.stack ((if (cfg.hist.1.clients c).loggedIn = false ∨ id = []
          then pure false
          else Code.server (.deleteMessageForAll (cfg.hist.1.clients c).username id) :
            Code Bool) >>= fun b => pure (Value.bool b)) (env.system.push (env.system.push cfg.hist
              cfg.next (.called ⟨c, .deleteMessageForAll id⟩)) cfg.next (.did (.get c)))).1 := rfl
    rw [hstep, if_pos hgo] at htrue
    cases htrue
  · rw [not_or] at hgo
    rw [step_deleteMessageForAll env cfg (by simpa using hgo.1) hgo.2] at htrue ⊢
    have hdeleted := Value.bool.inj (Option.some.inj htrue)
    refine ⟨[_, _, _, _], rfl, rfl, ⟨_, List.mem_cons_of_mem _ List.mem_cons_self, rfl⟩, hdeleted⟩

/-- **What has been deleted never comes back.**  Once a deletion for all has returned true,
no history holds a message with its id, in no later state of any run. -/
theorem deleted_for_good (names : ClientId → Str) (disk : Str → Option Str)
    (ms ms' : List (Move Exn Call)) {id : Str}
    (hf : env.FreshIds
      (env.run names disk (ms ++ [.call ⟨c, .deleteMessageForAll id⟩] ++ ms')).hist.1.draws)
    (htrue : resultOf (env.run names disk (ms ++ [.call ⟨c, .deleteMessageForAll id⟩])).hist
      = some (.bool true)) {m : Message}
    (hm : (env.run names disk (ms ++ [.call ⟨c, .deleteMessageForAll id⟩] ++ ms')).hist.1.server.Stored
      m) : m.messageId ≠ id := by
  intro hid
  have hids := nodup_messageIds (sends_run env names disk
    (ms ++ [.call ⟨c, .deleteMessageForAll id⟩] ++ ms')) hf
  have hL' := logged_run env names disk (ms ++ [.call ⟨c, .deleteMessageForAll id⟩] ++ ms')
  have hlog := mem_log_of_stored hL' hm
  clear hm hL'
  obtain ⟨since, ht⟩ := trace_run_append env.system (World.initial names disk)
    (ms ++ [.call ⟨c, .deleteMessageForAll id⟩]) ms'
  replace ht : (env.run names disk (ms ++ [.call ⟨c, .deleteMessageForAll id⟩] ++ ms')).hist.2
    = since ++ (env.run names disk (ms ++ [.call ⟨c, .deleteMessageForAll id⟩])).hist.2 := ht
  rw [Env.run_append_singleton env names disk ms] at htrue ht
  obtain ⟨acts, hacts, hstores, ⟨x, hx, herased⟩, hdeleted⟩ := step_deleted htrue
  rw [hacts, ← List.append_assoc] at ht
  rw [ht] at hids hlog
  obtain ⟨⟨j, m⟩, hlogged, rfl⟩ := List.mem_map.mp hlog
  -- the message that was deleted
  obtain ⟨m0, hm0, hid0, hsender⟩ :=
    ((logged_run env names disk ms).deleteMessageForAll_fst _ _).mp hdeleted
  obtain ⟨⟨k, m0⟩, hold, rfl⟩ := List.mem_map.mp hm0
  have hsplit : storesIn ((since ++ acts) ++ (env.run names disk ms).hist.2)
      = storesIn (since ++ acts) ++ storesIn (env.run names disk ms).hist.2 :=
    List.filterMap_append
  have hmem : m0 ∈ storesIn ((since ++ acts) ++ (env.run names disk ms).hist.2) := by
    rw [hsplit]
    exact List.mem_append_right _ (mem_storesIn hold)
  obtain rfl : m = m0 :=
    List.inj_on_of_nodup_map hids (mem_storesIn hlogged) hmem (hid.trans hid0.symm)
  rcases mem_logOfTrace_append.mp hlogged with hlater | ⟨-, hkept⟩
  · -- it cannot have been stored a second time
    rw [hsplit, List.map_append] at hids
    exact (List.nodup_append.mp hids).2.2 _ (List.mem_map_of_mem (mem_storesIn hlater)) _
      (List.mem_map_of_mem (mem_storesIn hold)) rfl
  · apply hkept x (List.mem_append_right _ hx)
    rw [herased, hid, hsender]

/-- Alice takes her greeting back, and Bob answers all the same: his answer is stored. -/
theorem deleted_for_good_answered : ∃ m,
    (Env.reference.run Env.names Env.noFiles (greeting
      ++ [.call ⟨0, .deleteMessageForAll (str "1-14")⟩] ++ answered)).hist.1.server.Stored m ∧
    m.messageId ≠ str "1-14" := by
  have hanswer : ∃ m ∈ (Env.reference.run Env.names Env.noFiles (greeting
      ++ [.call ⟨0, .deleteMessageForAll (str "1-14")⟩] ++ answered)).hist.1.server.getConversation
        (str "alice") (str "bob"), m.sender = str "bob" := by decide +kernel
  obtain ⟨m, hm, -⟩ := hanswer
  have hstored : (Env.reference.run Env.names Env.noFiles (greeting
      ++ [.call ⟨0, .deleteMessageForAll (str "1-14")⟩] ++ answered)).hist.1.server.Stored m :=
    Or.inl ⟨_, _, hm⟩
  exact ⟨m, hstored, deleted_for_good Env.names Env.noFiles greeting answered
    Env.reference_freshIds (by decide +kernel) hstored⟩

end Evlampy
