/-
Evlampy/Presence.lean

Who is there when a message is sent.  The transport is asked once for every receiver of a
message, and it knows the clients that are logged in at that moment.  So a notice only ever
reaches a client that is logged in, on behalf of the user whose client has made the call
(`notices_present`), and the status a message is stored with says whether its receiver was
there when it was looked for (`delivered_present`).

Unlike what observers are told, this depends on nothing: not on the names, not on the keys,
and not on what observers do.
-/
import Evlampy.Sending

namespace Evlampy

open Cxx Callback Prog System ChatClient

variable {env : Env} {names : ClientId → Str} {h h' : History} {i j : Nat} {c r : ClientId}
  {m : Message} {a : Act Eff Notice Exn Call Value}

/-! ### Reading a trace -/

/-- The user an act looks for. -/
def lookupOf : Act Eff Notice Exn Call Value → Option Str
  | .did (.tcp (.findHandler toUser)) => some toUser
  | _ => none

/-- The users call `i` has looked for. -/
def lookupsBy (i : Nat) (h : History) : List Str := (own i h.2).filterMap fun x => lookupOf x.act

theorem lookupsBy_push_self (a : Act Eff Notice Exn Call Value) :
    lookupsBy i (env.system.push h i a) = (lookupOf a).toList ++ lookupsBy i h := by
  rw [lookupsBy, System.push, own_cons_self, List.filterMap_cons]
  cases lookupOf a <;> rfl

theorem lookupsBy_push_of_none (ha : lookupOf a = none) :
    lookupsBy i (env.system.push h j a) = lookupsBy i h := by
  rcases eq_or_ne j i with rfl | hj
  · rw [lookupsBy_push_self, ha]
    rfl
  · rw [lookupsBy, System.push, own_cons_ne hj, lookupsBy]

theorem lookupsBy_others (ho : env.system.Others i h h') : lookupsBy i h' = lookupsBy i h := by
  rw [lookupsBy, ho.own_eq, lookupsBy]

/-- Call `i` is one of a client that was logged in, as this user, when it was made. -/
def MadeBy (names : ClientId → Str) (h : History) (i : Nat) (u : Str) : Prop :=
  ∃ q w, CalledAt h i q w ∧ (w.clients q.client).loggedIn = true ∧ names q.client = u

/-- The user was logged in when call `i` looked for it. -/
def FoundBy (names : ClientId → Str) (h : History) (i : Nat) (u : Str) : Prop :=
  ∃ x ∈ h.2, x.inst = i ∧ lookupOf x.act = some u ∧
    ∃ r, names r = u ∧ (x.before.clients r).loggedIn = true

theorem MadeBy.mono (hg : Grows h h') {u : Str} (hm : MadeBy names h i u) :
    MadeBy names h' i u := by
  obtain ⟨q, w, hcalled, hlog, hname⟩ := hm
  exact ⟨q, w, hcalled.mono hg, hlog, hname⟩

theorem FoundBy.mono (hg : Grows h h') {u : Str} (hf : FoundBy names h i u) :
    FoundBy names h' i u := by
  obtain ⟨x, hx, hi, hlookup, hthere⟩ := hf
  exact ⟨x, hg.trace x hx, hi, hlookup, hthere⟩

theorem FoundBy.mem_lookupsBy {u : Str} (hf : FoundBy names h i u) : u ∈ lookupsBy i h := by
  obtain ⟨x, hx, hi, hlookup, -⟩ := hf
  exact List.mem_filterMap.mpr ⟨x, mem_own.mpr ⟨hx, hi⟩, hlookup⟩

/-- A call looks for a user again only by looking. -/
theorem foundBy_push {u : Str} (ha : j = i → lookupOf a ≠ some u) :
    FoundBy names (env.system.push h j a) i u ↔ FoundBy names h i u := by
  refine ⟨fun hf => ?_, FoundBy.mono (Grows.push env h j a)⟩
  obtain ⟨x, hx, hi, hlookup, hthere⟩ := hf
  rcases List.mem_cons.mp hx with rfl | hx
  · exact absurd hlookup (ha hi)
  · exact ⟨x, hx, hi, hlookup, hthere⟩

/-! ### The invariant -/

/-- What an entry of the trace says of those who take part. -/
structure Present (names : ClientId → Str) (h : History)
    (x : Entry Eff Notice Exn Call Value World) : Prop where
  notice : ∀ n, noticeOf x.act = some n → (x.before.clients n.receiver).loggedIn = true ∧
    MadeBy names h x.inst n.event.fromUser
  stored : ∀ m, storedBy x.act = some m → MadeBy names h x.inst m.sender ∧
    (m.status = .delivered ↔ FoundBy names h x.inst m.receiver) ∧
    (m.status = .sent ↔ ¬ FoundBy names h x.inst m.receiver)

/-- So it is with every entry. -/
def Attentive (names : ClientId → Str) (h : History) : Prop := ∀ x ∈ h.2, Present names h x

/-- The act looks for nobody its call has stored a copy for. -/
theorem Present.push {x : Entry Eff Notice Exn Call Value World} (hx : Present names h x)
    (hmem : x ∈ h.2) (ha : ∀ u, lookupOf a = some u → u ∉ (copiesOf j h).map Message.receiver) :
    Present names (env.system.push h j a) x := by
  have hgrows := Grows.push env h j a
  refine ⟨fun n hn => (hx.notice n hn).imp_right (MadeBy.mono hgrows), fun m hm => ?_⟩
  obtain ⟨hmade, hstatus⟩ := hx.stored m hm
  rw [foundBy_push fun hj hlookup => ?_]
  · exact ⟨hmade.mono hgrows, hstatus⟩
  · refine ha _ hlookup (List.mem_map_of_mem (List.mem_filterMap.mpr ⟨x, ?_, hm⟩))
    exact mem_own.mpr ⟨hmem, hj.symm⟩

theorem Attentive.push (hatt : Attentive names h)
    (ha : ∀ u, lookupOf a = some u → u ∉ (copiesOf j h).map Message.receiver)
    (hnew : Present names (env.system.push h j a) ⟨j, a, h.1⟩) :
    Attentive names (env.system.push h j a) := by
  intro x hx
  rcases List.mem_cons.mp hx with rfl | hx
  · exact hnew
  · exact (hatt x hx).push hx ha

/-- An act that neither stores nor notifies. -/
theorem Attentive.quiet (hatt : Attentive names h) (hstore : storedBy a = none)
    (hnote : noticeOf a = none)
    (ha : ∀ u, lookupOf a = some u → u ∉ (copiesOf j h).map Message.receiver) :
    Attentive names (env.system.push h j a) := by
  refine hatt.push ha ⟨fun n hn => ?_, fun m hm => ?_⟩
  · cases hnote.symm.trans hn
  · cases hstore.symm.trans hm

/-! ### Calls -/

/-- Call `i` has gone on, and has neither stored anything nor looked for anyone. -/
structure Goes (env : Env) (names : ClientId → Str) (i : Nat) (h h' : History) : Prop where
  sound : Sound env names h'
  attentive : Attentive names h'
  grows : Grows h h'
  copies : copiesOf i h' = copiesOf i h
  lookups : lookupsBy i h' = lookupsBy i h

theorem Goes.refl (hs : Sound env names h) (hatt : Attentive names h) : Goes env names i h h :=
  ⟨hs, hatt, Grows.refl h, rfl, rfl⟩

theorem Goes.act (hg : Goes env names i h h') {e : Eff} (he : SendActs e)
    (hstore : storedBy (.did e) = none) (hlookup : lookupOf (.did e) = none) :
    Goes env names i h (env.system.push h' i (.did e)) where
  sound := hg.sound.act he
  attentive := hg.attentive.quiet hstore rfl fun u hu => by cases hlookup.symm.trans hu
  grows := hg.grows.trans (Grows.push env h' i _)
  copies := (copiesOf_push_of_none hstore).trans hg.copies
  lookups := (lookupsBy_push_of_none hlookup).trans hg.lookups

/-- One act of a send that neither stores nor looks for anyone. -/
theorem wp_goes {α : Type} {e : Eff} {f : e.Res → Code α} {post : Except Exn α → History → Prop}
    (hg : Goes env names i h h') (he : SendActs e) (hstore : storedBy (.did e) = none)
    (hlookup : lookupOf (.did e) = none)
    (k : ∀ r h'', r = (e.exec env h'.1).1 → h''.1.clients = h'.1.clients →
      Goes env names i h h'' → env.system.wp (Sound env names) (Attentive names) i (f r) post h'') :
    env.system.wp (Sound env names) (Attentive names) i
      ((Prog.act e : Code e.Res) >>= f) post h' :=
  wp_step fun r h'' hr hh'' => k r h'' hr (by rw [hh'']; exact sendActs_clients he h'.1)
    (hh'' ▸ hg.act he hstore hlookup)

/-- A client that is logged in may be told something. -/
theorem wp_handleIncoming_goes (hg : Goes env names i h h')
    (hlog : (h'.1.clients r).loggedIn = true) {fromUser : Str} (hmade : MadeBy names h' i fromUser)
    (payload : Str) :
    env.system.wp (Sound env names) (Attentive names) i (handleIncoming env r fromUser payload)
      (fun _ h'' => Goes env names i h h'') h' := by
  refine wp_tryCatch.mpr (wp_goes (.refl hg.sound hg.attentive) trivial rfl rfl
    fun self h1 _ hsame1 hg1 => ?_)
  refine wp_goes hg1 trivial rfl rfl fun n h2 _ hsame2 hg2 => ?_
  have hlog2 : (h2.1.clients r).loggedIn = true := by
    rw [hsame2, hsame1]
    exact hlog
  have hjoin : ∀ {h3}, Goes env names i h' h3 → Goes env names i h h3 := fun hg3 =>
    ⟨hg3.sound, hg3.attentive, hg.grows.trans hg3.grows, hg3.copies.trans hg.copies,
      hg3.lookups.trans hg.lookups⟩
  refine wp_ofExcept_bind ?_ ?_
  · intro x hread
    refine wp_notify.mpr ⟨?_, fun a h3 hJ hI ho => ?_⟩
    · -- nothing since the lookup has let the receiver out
      refine hg2.attentive.push (fun u hu => by cases hu) ⟨fun n hn => ?_, fun m hm => by cases hm⟩
      cases hn
      exact ⟨hlog2, (hmade.mono hg2.grows).mono (Grows.push env h2 i _)⟩
    · have hdone : Goes env names i h (env.system.push h3 i (.resumed a)) := by
        refine hjoin ⟨⟨hJ.sessions, hJ.keys, hJ.named⟩,
          Attentive.quiet hI rfl rfl (fun u hu => by cases hu), ?_, ?_, ?_⟩
        · exact (hg2.grows.trans (Grows.push env h2 i _)).trans
            ((Grows.of_others ho).trans (Grows.push env h3 i _))
        · rw [copiesOf_push_of_none rfl, copiesOf_others ho, copiesOf_push_of_none rfl, hg2.copies]
        · rw [lookupsBy_push_of_none rfl, lookupsBy_others ho, lookupsBy_push_of_none rfl,
            hg2.lookups]
      rcases a with x | _
      · cases x <;> exact hdone
      · exact hdone
  · intro e _
    cases e <;> exact hjoin hg2

/-- What `send` has done for `toUser` if it returns `b`. -/
structure Looked (env : Env) (names : ClientId → Str) (i : Nat) (toUser : Str) (h : History)
    (b : Bool) (h' : History) : Prop where
  sound : Sound env names h'
  attentive : Attentive names h'
  grows : Grows h h'
  copies : copiesOf i h' = copiesOf i h
  lookups : lookupsBy i h' ⊆ toUser :: lookupsBy i h
  found : b = true ↔ FoundBy names h' i toUser

/-- Nobody has been looked for, or nobody was there. -/
theorem Goes.notFound (hg : Goes env names i h h') {toUser : Str}
    (hnew : toUser ∉ lookupsBy i h) : Looked env names i toUser h false h' := by
  refine ⟨hg.sound, hg.attentive, hg.grows, hg.copies, ?_, ?_⟩
  · rw [hg.lookups]
    exact List.subset_cons_self _ _
  · refine iff_of_false Bool.false_ne_true fun hf => hnew ?_
    rw [← hg.lookups]
    exact hf.mem_lookupsBy

/-- Looking for a user finds the client that is logged in under this name. -/
theorem Goes.looked (hg : Goes env names i h h') {toUser : Str} (hnew : toUser ∉ lookupsBy i h)
    (hcopies : toUser ∉ (copiesOf i h).map Message.receiver) :
    Looked env names i toUser h (h'.1.server.transport.handlers.lookup toUser).isSome
      (env.system.push h' i (.did (.tcp (.findHandler toUser)))) := by
  refine ⟨hg.sound.act trivial, hg.attentive.quiet rfl rfl fun u hu => ?_,
    hg.grows.trans (Grows.push env h' i _), (copiesOf_push_of_none rfl).trans hg.copies, ?_, ?_⟩
  · cases hu
    rw [hg.copies]
    exact hcopies
  · rw [lookupsBy_push_self, hg.lookups]
    exact List.Subset.refl _
  · rw [Option.isSome_iff_exists]
    constructor
    · rintro ⟨r, hr⟩
      obtain ⟨hlog, hname⟩ := (hg.sound.sessions.handler toUser r).mp hr
      exact ⟨_, List.mem_cons_self, rfl, rfl, r, (hg.sound.named r).symm.trans hname, hlog⟩
    · rintro ⟨x, hx, hi, hlookup, r, hname, hlog⟩
      rcases List.mem_cons.mp hx with rfl | hx
      · exact ⟨r, (hg.sound.sessions.handler toUser r).mpr ⟨hlog, (hg.sound.named r).trans hname⟩⟩
      · -- an older entry would be a second lookup of one user
        rw [← hg.lookups] at hnew
        exact absurd (List.mem_filterMap.mpr ⟨x, mem_own.mpr ⟨hx, hi⟩, hlookup⟩) hnew

/-- Whoever has been found has been found. -/
theorem Looked.goes {toUser : Str} {h'' : History} (hl : Looked env names i toUser h true h')
    (hg : Goes env names i h' h'') : Looked env names i toUser h true h'' :=
  ⟨hg.sound, hg.attentive, hl.grows.trans hg.grows, hg.copies.trans hl.copies,
    hg.lookups ▸ hl.lookups, iff_of_true rfl ((hl.found.mp rfl).mono hg.grows)⟩

theorem wp_send_looked (hs : Sound env names h) (hatt : Attentive names h)
    (hmade : MadeBy names h i (names c)) {toUser : Str} (hnew : toUser ∉ lookupsBy i h)
    (hcopies : toUser ∉ (copiesOf i h).map Message.receiver) (wire : Str) :
    env.system.wp (Sound env names) (Attentive names) i (send env c toUser wire)
      (fun r h' => match r with
        | .ok b => Looked env names i toUser h b h'
        | .error _ => Attentive names h') h := by
  refine wp_goes (.refl hs hatt) trivial rfl rfl fun self h1 hself _ hg1 => ?_
  obtain rfl : self = h.1.clients c := hself
  split
  · next hconnected =>
    -- a client that is connected is logged in, under its own name
    have hlogged := (hs.sessions.connected c).trans hconnected
    have hfrom : (h.1.clients c).transport.username = names c := by
      rw [hs.sessions.username c hlogged, hs.named c]
    rw [hfrom]
    refine wp_step fun handler h2 hhandler hh2 => ?_
    have hl : Looked env names i toUser h handler.isSome h2 := by
      rw [hh2, hhandler]
      exact hg1.looked hnew hcopies
    rcases handler with - | r
    · exact hl
    · obtain ⟨hlog, -⟩ := (hg1.sound.sessions.handler toUser r).mp hhandler.symm
      refine wp_goes (.refl hl.sound hl.attentive) trivial rfl rfl fun _ h3 _ hsame3 hg3 => ?_
      have hlog3 : (h3.1.clients r).loggedIn = true := by
        rw [hsame3, hh2]
        exact hlog
      refine wp_bind.mpr (wp_mono (fun x h4 hg4 => ?_) (wp_handleIncoming_goes hg3 hlog3
        (hmade.mono (hl.grows.trans hg3.grows)) wire))
      rcases x with x | _
      · exact hg4.attentive
      · exact hl.goes hg4
  · exact hg1.notFound hnew

/-- What `deliver` has done with a message for `toUser`. -/
structure Posted (env : Env) (names : ClientId → Str) (i : Nat) (toUser : Str)
    (h h' : History) : Prop where
  sound : Sound env names h'
  attentive : Attentive names h'
  grows : Grows h h'
  copies : (copiesOf i h').map Message.receiver = toUser :: (copiesOf i h).map Message.receiver
  lookups : lookupsBy i h' ⊆ toUser :: lookupsBy i h

theorem wp_deliver_posted (hs : Sound env names h) (hatt : Attentive names h)
    (hmade : MadeBy names h i (names c)) (hsender : m.sender = names c)
    (hnew : m.receiver ∉ lookupsBy i h)
    (hcopies : m.receiver ∉ (copiesOf i h).map Message.receiver) :
    env.system.wp (Sound env names) (Attentive names) i (deliver env c m.receiver m)
      (fun r h' => match r with
        | .ok _ => Posted env names i m.receiver h h'
        | .error _ => Attentive names h') h := by
  have hmade' : MadeBy names h i m.sender := by
    rw [hsender]
    exact hmade
  have hstatus : ∀ b : Bool,
      ((if b then MessageStatus.delivered else MessageStatus.sent) = .delivered ↔ b = true) ∧
        ((if b then MessageStatus.delivered else MessageStatus.sent) = .sent ↔ ¬ b = true) := by
    decide
  refine wp_ofExcept_bind (fun wire _ => ?_) (fun _ _ => hatt)
  refine wp_bind.mpr (wp_mono (fun x h1 hl => ?_) (wp_send_looked hs hatt hmade hnew hcopies wire))
  rcases x with x | b
  · exact hl
  · -- storing finds nobody
    have hfound : ∀ m', FoundBy names
        (env.system.push h1 i (.did (.server (.storeMessage m')))) i m.receiver ↔ b = true :=
      fun m' => (foundBy_push fun _ hu => by cases hu).trans hl.found.symm
    have hgrows := fun a => hl.grows.trans (Grows.push env h1 i a)
    refine wp_act.mpr ⟨hl.sound.act trivial, ?_, hgrows _, ?_, ?_⟩
    · refine hl.attentive.push (fun u hu => by cases hu) ⟨fun n hn => (by cases hn), fun m' hm => ?_⟩
      cases hm
      obtain ⟨hdelivered, hsent⟩ := hstatus b
      exact ⟨hmade'.mono (hgrows _), hdelivered.trans (hfound _).symm,
        hsent.trans (not_congr (hfound _)).symm⟩
    · rw [copiesOf_push_self, hl.copies]
      rfl
    · rw [lookupsBy_push_of_none rfl]
      exact hl.lookups

theorem wp_sendMessage_attentive (hs : Sound env names h) (hatt : Attentive names h)
    {toUser text : Str} (hcalled : CalledAt h i ⟨c, .sendMessage toUser text⟩ h.1)
    (hlookups : lookupsBy i h = []) (hcopies : copiesOf i h = []) :
    env.system.wp (Sound env names) (Attentive names) i (sendMessage env c toUser text)
      (fun _ h' => Attentive names h') h := by
  refine wp_goes (.refl hs hatt) trivial rfl rfl fun self h1 hself _ hg1 => ?_
  obtain rfl : self = h.1.clients c := hself
  split
  · next hlog =>
    refine wp_goes hg1 trivial rfl rfl fun pem h2 _ _ hg2 => ?_
    split
    · exact hg2.attentive
    · refine wp_goes hg2 trivial rfl rfl fun n h3 _ _ hg3 => ?_
      refine wp_ofExcept_bind (fun m hm => ?_) (fun _ _ => hg3.attentive)
      obtain ⟨-, -, hsender, rfl, -, -⟩ := composeMessage_eq_ok hm
      have hmade : MadeBy names h3 i (names c) := ⟨_, h.1, hcalled.mono hg3.grows, hlog, rfl⟩
      refine wp_bind.mpr (wp_mono (fun x h4 hx => ?_) (wp_deliver_posted hg3.sound hg3.attentive
        hmade (hsender.trans (hs.named c)) ?_ ?_))
      · rcases x with x | _
        · exact hx
        · exact hx.attentive
      · rw [hg3.lookups, hlookups]
        exact List.not_mem_nil
      · rw [hg3.copies, hcopies]
        exact List.not_mem_nil
  · exact hg1.attentive

/-- The members are looked for one after the other, none of them twice. -/
theorem wp_sendCopies_attentive {self : ChatClient} (hself : self.username = names c)
    {groupId : Str} {sessionKey payload : Bytes} (members : List Str) (hnodup : members.Nodup)
    (hs : Sound env names h) (hatt : Attentive names h) (hmade : MadeBy names h i (names c))
    (hlookups : ∀ u ∈ members, u ∉ lookupsBy i h)
    (hcopies : ∀ u ∈ members, u ∉ (copiesOf i h).map Message.receiver) (anySent : Bool) :
    env.system.wp (Sound env names) (Attentive names) i
      (sendCopies env c self groupId sessionKey payload members anySent)
      (fun _ h' => Attentive names h') h := by
  induction members generalizing h anySent with
  | nil => exact hatt
  | cons member members ih =>
      obtain ⟨hnotin, hnodup'⟩ := List.nodup_cons.mp hnodup
      refine wp_goes (.refl hs hatt) trivial rfl rfl fun pem h1 _ _ hg1 => ?_
      split
      · -- a member that is not registered is not looked for
        refine ih hnodup' hg1.sound hg1.attentive (hmade.mono hg1.grows) (fun u hu => ?_)
          (fun u hu => ?_) anySent
        · rw [hg1.lookups]
          exact hlookups u (List.mem_cons_of_mem _ hu)
        · rw [hg1.copies]
          exact hcopies u (List.mem_cons_of_mem _ hu)
      · refine wp_goes hg1 trivial rfl rfl fun n h2 _ _ hg2 => ?_
        refine wp_ofExcept_bind (fun m hm => ?_) (fun _ _ => hg2.attentive)
        obtain ⟨-, -, -, -, hsender, rfl, -, -⟩ := composeCopy_eq_ok hm
        have hmade2 := hmade.mono hg2.grows
        refine wp_bind.mpr (wp_mono (fun x h3 hx => ?_) (wp_deliver_posted hg2.sound hg2.attentive
          hmade2 (hsender.trans hself) ?_ ?_))
        · rcases x with x | _
          · exact hx
          · refine ih hnodup' hx.sound hx.attentive (hmade2.mono hx.grows) (fun u hu hold => ?_)
              (fun u hu hold => ?_) true
            · -- those looked for so far are `member` and those of before
              rcases List.mem_cons.mp (hx.lookups hold) with rfl | hold
              · exact hnotin hu
              · rw [hg2.lookups] at hold
                exact hlookups u (List.mem_cons_of_mem _ hu) hold
            · rw [hx.copies, hg2.copies] at hold
              rcases List.mem_cons.mp hold with rfl | hold
              · exact hnotin hu
              · exact hcopies u (List.mem_cons_of_mem _ hu) hold
        · rw [hg2.lookups]
          exact hlookups _ List.mem_cons_self
        · rw [hg2.copies]
          exact hcopies _ List.mem_cons_self

theorem wp_sendGroupMessage_attentive (hs : Sound env names h) (hatt : Attentive names h)
    {groupId text : Str} (hcalled : CalledAt h i ⟨c, .sendGroupMessage groupId text⟩ h.1)
    (hlookups : lookupsBy i h = []) (hcopies : copiesOf i h = []) :
    env.system.wp (Sound env names) (Attentive names) i (sendGroupMessage env c groupId text)
      (fun _ h' => Attentive names h') h := by
  refine wp_goes (.refl hs hatt) trivial rfl rfl fun self h1 hself _ hg1 => ?_
  obtain rfl : self = h.1.clients c := hself
  split
  · next hlog =>
    refine wp_goes hg1 trivial rfl rfl fun members h2 hmembers _ hg2 => ?_
    obtain rfl : members = h1.1.server.getGroupMembers groupId := hmembers
    split
    · exact hg2.attentive
    · next hne =>
      obtain ⟨record, -, hlist⟩ := getGroupMembers_of_ne_nil hne
      refine wp_goes hg2 trivial rfl rfl fun n h3 _ _ hg3 => ?_
      refine wp_ofExcept_bind (fun _ _ => ?_) (fun _ _ => hg3.attentive)
      rw [hlist]
      refine wp_sendCopies_attentive (hs.named c) _ (sortedFromSet_nodup _) hg3.sound hg3.attentive
        ⟨_, h.1, hcalled.mono hg3.grows, hlog, rfl⟩ (fun u _ => ?_) (fun u _ => ?_) false
      · rw [hg3.lookups, hlookups]
        exact List.not_mem_nil
      · rw [hg3.copies, hcopies]
        exact List.not_mem_nil
  · exact hg1.attentive

/-! ### Runs -/

/-- **Attention**, in every state of every run. -/
theorem attentive_run (env : Env) (names : ClientId → Str) (disk : Str → Option Str)
    (ms : List (Move Exn Call)) : Attentive names (env.run names disk ms).hist := by
  refine (run_invariant env.system (J := Sound env names) (I := Attentive names)
    (sound_run env names disk) (fun x hx => nomatch hx) ?_ ms).1
  intro q h i hJ hI hlt
  have hcalled : Attentive names (env.system.push h i (.called q)) :=
    Attentive.quiet hI rfl rfl fun u hu => by cases hu
  have hsound : Sound env names (env.system.push h i (.called q)) :=
    ⟨hJ.sessions, hJ.keys, hJ.named⟩
  have hcopies : copiesOf i (env.system.push h i (.called q)) = [] :=
    (copiesOf_push_of_none rfl).trans (copiesOf_of_lt hlt)
  have hlookups : lookupsBy i (env.system.push h i (.called q)) = [] := by
    rw [lookupsBy_push_of_none rfl, lookupsBy, List.filterMap_eq_nil_iff]
    intro x hx
    obtain ⟨hmem, hinst⟩ := mem_own.mp hx
    exact absurd hinst (Nat.ne_of_lt (hlt x hmem))
  have hcall : CalledAt (env.system.push h i (.called q)) i q h.1 :=
    calledAt_push.mpr (Or.inr ⟨rfl, rfl, rfl⟩)
  have hreturn : ∀ {h' : History} (r : Except Exn Value), Attentive names h' →
      Kept (Attentive names) env.system i r h' :=
    fun r hatt => hatt.quiet rfl rfl fun u hu => by cases hu
  obtain ⟨c, op⟩ := q
  by_cases hop : op.Sends
  · cases op with
    | sendMessage toUser text =>
        exact wp_map (fun r _ hK => hreturn r hK)
          (wp_sendMessage_attentive hsound hcalled hcall hlookups hcopies)
    | sendGroupMessage groupId text =>
        exact wp_map (fun r _ hK => hreturn r hK)
          (wp_sendGroupMessage_attentive hsound hcalled hcall hlookups hcopies)
    | _ => exact hop.elim
  · refine wp_mono (fun r h' hK => hreturn r hK) (wp_of_allActs (K := Attentive names) ?_ ?_
      (body_allActs env ⟨c, op⟩) hcalled)
    · intro e h' he hK
      refine hK.quiet (storedBy_of_footprint hop he) rfl fun u hu => ?_
      cases e with
      | tcp q =>
          cases q with
          | findHandler toUser => exact absurd rfl (not_findHandler_of_footprint hop he toUser)
          | _ => cases hu
      | _ => cases hu
    · exact fun n h' hn => absurd hn hop

/-- **Who is there.**  In every run, however deep its calls are nested, a client is logged in
whenever `notify` starts to notify its observers (the first of them may log it out before the
second is called), and the user a notice is from is one whose client was logged in when it
called the function that gives the notice.  A message is stored as delivered exactly if its
receiver was logged in when the call that stored it looked for the receiver, and as sent
otherwise. -/
theorem notices_present (env : Env) (names : ClientId → Str) (disk : Str → Option Str)
    (ms : List (Move Exn Call)) :
    (∀ x ∈ (env.run names disk ms).hist.2, ∀ n, x.act = .notified n →
      (x.before.clients n.receiver).loggedIn = true ∧
        MadeBy names (env.run names disk ms).hist x.inst n.event.fromUser) ∧
    ∀ i, ∀ m ∈ copiesOf i (env.run names disk ms).hist,
      (m.status = .delivered ↔ FoundBy names (env.run names disk ms).hist i m.receiver) ∧
      (m.status = .sent ↔ ¬ FoundBy names (env.run names disk ms).hist i m.receiver) := by
  have hatt := attentive_run env names disk ms
  refine ⟨fun x hx n hn => (hatt x hx).notice n ?_, fun i m hm => ?_⟩
  · rw [hn]
    rfl
  · obtain ⟨x, hx, rfl, hact⟩ := mem_copiesOf.mp hm
    refine ((hatt x hx).stored m ?_).2
    rw [hact]
    rfl

end Evlampy
