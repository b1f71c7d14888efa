/-
Evlampy/Directory.lean

The directory of the server: users, contacts and groups.  Everybody it mentions is
registered, whoever owns a group is one of its members, and what has been created
stays as it was created (`directory_consistent`).

A group id is a number and a name around a dash.  The number is printed without
dashes, so the id determines it whatever the name is, and `emplace` never meets an
id that is taken, as long as the counter does not wrap around (`Numbered`).
-/
import Evlampy.Keys
import Evlampy.Passwords

namespace Evlampy

open Cxx UnorderedMap

/-! ### Lists in strict order -/

/-- Sorting texts that are all different. -/
theorem sort_strict {l : List Str} (hl : l.Nodup) : (sort l).Pairwise (· < ·) := by
  have hnodup : (sort l).Nodup := (List.perm_insertionSort _ l).nodup_iff.mpr hl
  refine (sort_pairwise l).imp₂ (fun x y hle hne => ?_) hnodup
  exact (List.le_iff_lt_or_eq.mp hle).resolve_right hne

theorem sortedFromSet_strict (input : Finset Str) : (sortedFromSet input).Pairwise (· < ·) := by
  obtain ⟨⟨l⟩, hl⟩ := input
  exact sort_strict hl

/-! ### Looking things up -/

namespace ChatServer

variable {s : ChatServer} {u g : Str}

theorem mem_getGroupMembers_iff :
    u ∈ s.getGroupMembers g ↔ ∃ record, s.groups.lookup g = some record ∧ u ∈ record.members := by
  unfold getGroupMembers
  rcases s.groups.lookup g with - | record
  · simp
  · simp

/-- `listGroups` walks over all entries; `getGroupMembers` looks one up. -/
theorem mem_listGroups : g ∈ s.listGroups u ↔ u ∈ s.getGroupMembers g := by
  rw [mem_getGroupMembers_iff, listGroups, mem_sort, List.mem_map]
  constructor
  · rintro ⟨⟨g', record⟩, hmem, rfl⟩
    obtain ⟨hentry, hu⟩ := List.mem_filter.mp hmem
    exact ⟨record, AList.mem_lookup_iff.mpr hentry, of_decide_eq_true hu⟩
  · rintro ⟨record, hg, hu⟩
    exact ⟨⟨g, record⟩, List.mem_filter.mpr ⟨AList.mem_lookup_iff.mp hg, decide_eq_true hu⟩, rfl⟩

theorem listUsers_strict : s.listUsers.Pairwise (· < ·) := sort_strict s.users.keys_nodup

theorem listContacts_strict : (s.listContacts u).Pairwise (· < ·) := by
  unfold listContacts
  split
  · exact .nil
  · exact sortedFromSet_strict _

theorem getGroupMembers_strict : (s.getGroupMembers g).Pairwise (· < ·) := by
  unfold getGroupMembers
  split
  · exact .nil
  · exact sortedFromSet_strict _

theorem listGroups_strict : (s.listGroups u).Pairwise (· < ·) :=
  sort_strict (s.groups.keys_nodup.sublist (List.filter_sublist.map Sigma.fst))

end ChatServer

/-! ### What the directory keeps to -/

/-- Everybody mentioned is registered, and owners are members. -/
structure Directory (s : ChatServer) : Prop where
  contacts : ∀ u record, s.users.lookup u = some record → ∀ v ∈ record.contacts, v ∈ s.users
  owner : ∀ g record, s.groups.lookup g = some record → record.owner ∈ record.members
  members : ∀ g record, s.groups.lookup g = some record → ∀ u ∈ record.members, u ∈ s.users

variable {q : ServerCall} {s s' : ChatServer} {g : Str}

theorem Directory.congr (hd : Directory s) (husers : s'.users = s.users)
    (hgroups : s'.groups = s.groups) : Directory s' := by
  obtain ⟨hcontacts, howner, hmembers⟩ := hd
  rw [← husers] at hcontacts hmembers
  rw [← hgroups] at howner hmembers
  exact ⟨hcontacts, howner, hmembers⟩

/-- A new contact list is still a list of users. -/
theorem Directory.contacts_insert (hd : Directory s) {o : Str} {record : UserRecord}
    (hrecord : ∀ v ∈ record.contacts, v ∈ s.users) :
    Directory { s with users := s.users.insert o record } := by
  have hgrow : ∀ {v}, v ∈ s.users → v ∈ s.users.insert o record :=
    fun hv => (AList.mem_insert s.users).mpr (Or.inr hv)
  refine ⟨fun u record' hu v hv => hgrow ?_, hd.owner,
    fun g group hg u hu => hgrow (hd.members g group hg u hu)⟩
  rcases lookup_insert_cases hu with ⟨-, rfl⟩ | ⟨-, hold⟩
  · exact hrecord v hv
  · exact hd.contacts u record' hold v hv

/-- Every call of the server keeps to it. -/
theorem Directory.change (hd : Directory s) (h : ServerCall.Change s q s') : Directory s' := by
  cases h with
  | nothing q => exact hd
  | user u hash pem free => exact hd.contacts_insert fun v hv => absurd hv (Finset.notMem_empty v)
  | contactAdded owner contact record old known new =>
      refine hd.contacts_insert fun v hv => ?_
      rcases Finset.mem_insert.mp hv with rfl | hv
      · exact known
      · exact hd.contacts owner record old v hv
  | contactRemoved owner contact record old mem =>
      exact hd.contacts_insert fun v hv =>
        hd.contacts owner record old v (Finset.mem_of_mem_erase hv)
  | group owner groupName members record known owned member =>
      have hcases : ∀ g group, (emplace (ChatServer.makeGroupId s.nextGroupId groupName) record
          s.groups).2.lookup g = some group → s.groups.lookup g = some group ∨ group = record :=
        fun g group hg => (lookup_emplace_cases hg).imp_right And.right
      refine ⟨hd.contacts, fun g group hg => ?_, fun g group hg u hu => ?_⟩
      · rcases hcases g group hg with hold | rfl
        · exact hd.owner g group hold
        · exact (member _).mpr (Or.inl owned)
      · rcases hcases g group hg with hold | rfl
        · exact hd.members g group hold u hu
        · rcases (member u).mp hu with rfl | ⟨-, hregistered⟩
          · exact known
          · exact hregistered
  | stored m => exact hd.congr (s.storeMessage_users m) (s.storeMessage_groups m)
  | deleted requester messageId => exact hd.congr rfl rfl

/-- So does every run of clients. -/
theorem directory_run (env : Env) (names : ClientId → Str) (disk : Str → Option Str)
    (ms : List (Callback.Move Exn Call)) :
    Directory (env.run names disk ms).hist.1.server := by
  have hempty : Directory ChatServer.empty :=
    ⟨(fun u record hu => by cases hu), (fun g record hg => by cases hg),
      fun g record hg => by cases hg⟩
  refine Callback.System.run_keeps env.system (I := fun h : History => Directory h.1.server) hempty
    (fun q => .of_push (fun i a h hd => ?_) _) (fun i a h ha hd => ?_) ms
  · cases a with
    | did e =>
        cases e with
        | server q => exact hd.change (q.exec_change h.1.server)
        | tcp q => exact hd.congr rfl rfl
        | _ => exact hd
    | _ => exact hd
  · cases a with
    | did e => exact absurd rfl (ha e)
    | _ => exact hd

/-! ### Runs of the server -/

/-- The server after the calls, one after the other. -/
def ChatServer.reached (calls : List ServerCall) : ChatServer :=
  calls.foldl (fun s q => (q.exec s).2) .empty

theorem reached_append_singleton (calls : List ServerCall) (q : ServerCall) :
    ChatServer.reached (calls ++ [q]) = (q.exec (ChatServer.reached calls)).2 := by
  rw [ChatServer.reached, List.foldl_append]
  rfl

/-- What every call keeps, later calls keep. -/
theorem reached_keeps {K : ChatServer → Prop}
    (hkeep : ∀ {s q s'}, ServerCall.Change s q s' → K s → K s') (before later : List ServerCall)
    (hK : K (ChatServer.reached before)) : K (ChatServer.reached (before ++ later)) := by
  induction later using List.reverseRecOn with
  | nil =>
      rw [List.append_nil]
      exact hK
  | append_singleton later q ih =>
      rw [← List.append_assoc, reached_append_singleton]
      exact hkeep (q.exec_change _) ih

/-- The calls of `createGroup`. -/
def ServerCall.createsGroup : ServerCall → Bool
  | .createGroup .. => true
  | _ => false

/-! ### Group ids -/

/-- The number of a group can be read off its id, whatever its name is. -/
theorem makeGroupId_number {m n : UInt64} {groupName groupName' : Str}
    (h : ChatServer.makeGroupId m groupName = ChatServer.makeGroupId n groupName') : m = n := by
  have hdash : ∀ k, ∀ c ∈ Digits.text 10 k, decide (c ≠ 45) = true := by
    intro k c hmem
    obtain ⟨d, hd, rfl⟩ := Digits.mem_text (by decide) hmem
    interval_cases d <;> rfl
  -- what stands before the first dash
  have hnumber : ∀ k name, (Digits.text 10 k ++ 45 :: name).takeWhile (· ≠ 45) = Digits.text 10 k := by
    intro k name
    rw [List.takeWhile_append_of_pos (hdash k), List.takeWhile_cons]
    exact List.append_nil _
  unfold ChatServer.makeGroupId at h
  simp only [List.append_assoc] at h
  have hstr : str "-" = [45] := by decide
  have htexts := List.append_cancel_left h
  simp only [hstr, List.singleton_append] at htexts
  have hnumbers := congrArg (List.takeWhile (· ≠ 45)) htexts
  rw [hnumber, hnumber] at hnumbers
  exact UInt64.toNat_inj.mp (Digits.text_injective (by decide) (by decide) hnumbers)

/-- After `k` groups the counter is at `k + 1`, and every id has a number up to `k`. -/
structure Numbered (s : ChatServer) (k : Nat) : Prop where
  counter : s.nextGroupId = UInt64.ofNat (k + 1)
  ids : ∀ g ∈ s.groups, ∃ n groupName, n ≤ k ∧ g = ChatServer.makeGroupId (UInt64.ofNat n) groupName

/-- The id of the next group is free. -/
theorem Numbered.notMem {k : Nat} (hn : Numbered s k) (hk : k + 1 < 2 ^ 64) (groupName : Str) :
    ChatServer.makeGroupId s.nextGroupId groupName ∉ s.groups := by
  intro hmem
  obtain ⟨n, groupName', hle, hid⟩ := hn.ids _ hmem
  rw [hn.counter] at hid
  have hnumbers := congrArg UInt64.toNat (makeGroupId_number hid)
  have hsize : UInt64.size = 2 ^ 64 := rfl
  rw [UInt64.toNat_ofNat_of_lt' (by omega), UInt64.toNat_ofNat_of_lt' (by omega)] at hnumbers
  omega

theorem Numbered.congr {k : Nat} (hn : Numbered s k) (hgroups : s'.groups = s.groups)
    (hcounter : s'.nextGroupId = s.nextGroupId) : Numbered s' k := by
  refine ⟨hcounter.trans hn.counter, fun g hg => hn.ids g ?_⟩
  rw [← hgroups]
  exact hg

/-- Only `createGroup` counts. -/
theorem Numbered.change {k : Nat} (hn : Numbered s k) (h : ServerCall.Change s q s') :
    ∃ k', k' ≤ k + (if q.createsGroup then 1 else 0) ∧ Numbered s' k' := by
  cases h with
  | group owner groupName members record known owned member =>
      refine ⟨k + 1, Nat.le_refl _, ?_, fun g hg => ?_⟩
      · show s.nextGroupId + 1 = _
        rw [hn.counter, UInt64.ofNat_add (k + 1) 1]
        rfl
      · obtain ⟨group, hlookup⟩ := Option.isSome_iff_exists.mp (AList.lookup_isSome.mpr hg)
        rcases lookup_emplace_cases hlookup with hold | ⟨rfl, -⟩
        · obtain ⟨n, name, hle, hid⟩ := hn.ids g (AList.lookup_isSome.mp (by rw [hold]; rfl))
          exact ⟨n, name, Nat.le_succ_of_le hle, hid⟩
        · exact ⟨k + 1, groupName, Nat.le_refl _, by rw [hn.counter]⟩
  | stored m =>
      refine ⟨k, Nat.le_add_right _ _, hn.congr (s.storeMessage_groups m) ?_⟩
      unfold ChatServer.storeMessage
      split <;> rfl
  | _ => exact ⟨k, Nat.le_add_right _ _, hn.congr rfl rfl⟩

theorem numbered_reached (calls : List ServerCall) :
    ∃ k ≤ calls.countP ServerCall.createsGroup, Numbered (ChatServer.reached calls) k := by
  induction calls using List.reverseRecOn with
  | nil => exact ⟨0, Nat.le_refl _, rfl, fun g hg => absurd hg (AList.notMem_empty g)⟩
  | append_singleton calls q ih =>
      obtain ⟨k, hk, hn⟩ := ih
      obtain ⟨k', hk', hn'⟩ := hn.change (q.exec_change _)
      rw [reached_append_singleton]
      refine ⟨k', hk'.trans ?_, hn'⟩
      rw [List.countP_append, List.countP_singleton]
      omega

/-! ### Creating groups -/

theorem createGroup_eq_some {owner groupName g : Str} {members : List Str} :
    (s.createGroup owner groupName members).1 = some g ↔
      owner ∈ s.users ∧ g = ChatServer.makeGroupId s.nextGroupId groupName := by
  unfold ChatServer.createGroup
  split
  · next howner =>
      constructor
      · intro e
        exact ⟨howner, (Option.some.inj e).symm⟩
      · rintro ⟨-, rfl⟩
        rfl
  · next howner =>
      constructor
      · intro e
        cases e
      · rintro ⟨hmem, -⟩
        exact absurd hmem howner

/-- What is put on record for a group: the requested members that have an account,
and the owner. -/
structure Recorded (s : ChatServer) (owner groupName : Str) (members : List Str)
    (record : GroupRecord) : Prop where
  named : record.groupName = groupName
  owned : record.owner = owner
  member : ∀ u, u ∈ record.members ↔ u = owner ∨ (u ∈ members ∧ u ∈ s.users)

/-- What the function puts on record. -/
theorem recorded_createGroup (s : ChatServer) (owner groupName : Str) (members : List Str) :
    Recorded s owner groupName members
      ⟨groupName, owner, insert owner (members.filter (· ∈ s.users)).toFinset⟩ := by
  refine ⟨rfl, rfl, fun u => ?_⟩
  simp only [Finset.mem_insert, List.mem_toFinset, List.mem_filter, decide_eq_true_eq]

theorem Recorded.unique {owner groupName : Str} {members : List Str} {record record' : GroupRecord}
    (h : Recorded s owner groupName members record)
    (h' : Recorded s owner groupName members record') : record = record' := by
  obtain ⟨name, o, ms⟩ := record
  obtain ⟨name', o', ms'⟩ := record'
  have hname : name = name' := h.named.trans h'.named.symm
  have howner : o = o' := h.owned.trans h'.owned.symm
  have hmembers : ms = ms' := Finset.ext fun u => (h.member u).trans (h'.member u).symm
  rw [hname, howner, hmembers]

/-- A new group is put under its id, if that is free. -/
theorem lookup_createGroup {owner groupName : Str} (members : List Str) (howner : owner ∈ s.users)
    (hfree : ChatServer.makeGroupId s.nextGroupId groupName ∉ s.groups) :
    ∃ record, Recorded s owner groupName members record ∧
      (s.createGroup owner groupName members).2.groups.lookup
        (ChatServer.makeGroupId s.nextGroupId groupName) = some record := by
  refine ⟨_, recorded_createGroup s owner groupName members, ?_⟩
  unfold ChatServer.createGroup
  rw [if_pos howner]
  show (emplace _ _ s.groups).2.lookup _ = _
  rw [emplace_of_notMem _ hfree]
  exact AList.lookup_insert s.groups

/-- Nothing else touches the groups. -/
theorem ServerCall.Change.groups_eq (h : ServerCall.Change s q s') (hq : q.createsGroup = false) :
    s'.groups = s.groups := by
  cases h with
  | group owner groupName members => cases hq
  | stored m => exact s.storeMessage_groups m
  | _ => rfl

/-- The group `g` is the one a successful call of the run has created. -/
def CreatedAs (calls : List ServerCall) (g : Str) (record : GroupRecord) : Prop :=
  ∃ before owner groupName members later,
    calls = before ++ .createGroup owner groupName members :: later ∧
    ((ChatServer.reached before).createGroup owner groupName members).1 = some g ∧
    Recorded (ChatServer.reached before) owner groupName members record

theorem CreatedAs.append {calls : List ServerCall} {record : GroupRecord}
    (h : CreatedAs calls g record) (later' : List ServerCall) :
    CreatedAs (calls ++ later') g record := by
  obtain ⟨before, owner, groupName, members, later, rfl, hg, hrecord⟩ := h
  refine ⟨before, owner, groupName, members, later ++ later', ?_, hg, hrecord⟩
  rw [List.append_assoc, List.cons_append]

/-- Whatever group is there was created by a call. -/
theorem createdAs_of_lookup {calls : List ServerCall} :
    ∀ {record}, (ChatServer.reached calls).groups.lookup g = some record →
      CreatedAs calls g record := by
  induction calls using List.reverseRecOn with
  | nil =>
      intro record hg
      cases hg
  | append_singleton calls q ih =>
      intro record hg
      rw [reached_append_singleton] at hg
      rcases hq : q.createsGroup with - | -
      · rw [(q.exec_change _).groups_eq hq] at hg
        exact (ih hg).append _
      · cases q with
        | createGroup owner groupName members =>
            replace hg : ((ChatServer.reached calls).createGroup owner groupName
              members).2.groups.lookup g = some record := hg
            unfold ChatServer.createGroup at hg
            split at hg
            · next howner =>
                rcases lookup_emplace_cases hg with hold | ⟨rfl, rfl⟩
                · exact (ih hold).append _
                · exact ⟨calls, owner, groupName, members, [], rfl,
                    createGroup_eq_some.mpr ⟨howner, rfl⟩, recorded_createGroup _ _ _ _⟩
            · exact (ih hg).append _
        | _ => cases hq

/-! ### The whole directory -/

theorem Directory.reached (calls : List ServerCall) : Directory (ChatServer.reached calls) := by
  have hempty : Directory (ChatServer.reached []) :=
    ⟨(fun u record hu => by cases hu), (fun g record hg => by cases hg),
      fun g record hg => by cases hg⟩
  exact reached_keeps (fun h hd => hd.change h) [] calls hempty

/-- Accounts are made by `registerUser`. -/
theorem ServerCall.Change.mem_users (h : ServerCall.Change s q s') {u : Str} (hu : u ∈ s'.users) :
    u ∈ s.users ∨ ∃ passwordHash pem, q = .registerUser u passwordHash pem := by
  cases h with
  | user v passwordHash pem free =>
      rcases (AList.mem_insert s.users).mp hu with rfl | hold
      · exact Or.inr ⟨passwordHash, pem, rfl⟩
      · exact Or.inl hold
  | contactAdded owner contact record old known new =>
      have howner : owner ∈ s.users := AList.lookup_isSome.mp (by rw [old]; rfl)
      rcases (AList.mem_insert s.users).mp hu with rfl | hold
      · exact Or.inl howner
      · exact Or.inl hold
  | contactRemoved owner contact record old mem =>
      have howner : owner ∈ s.users := AList.lookup_isSome.mp (by rw [old]; rfl)
      rcases (AList.mem_insert s.users).mp hu with rfl | hold
      · exact Or.inl howner
      · exact Or.inl hold
  | stored m =>
      rw [ChatServer.storeMessage_users] at hu
      exact Or.inl hu
  | _ => exact Or.inl hu

/-- A user without a call of `registerUser` has no account. -/
theorem notMem_users_reached {calls : List ServerCall} {u : Str}
    (hcalls : ∀ passwordHash pem, .registerUser u passwordHash pem ∉ calls) :
    u ∉ (ChatServer.reached calls).users := by
  induction calls using List.reverseRecOn with
  | nil => exact AList.notMem_empty u
  | append_singleton calls q ih =>
      intro hu
      rw [reached_append_singleton] at hu
      rcases (q.exec_change _).mem_users hu with hold | ⟨passwordHash, pem, rfl⟩
      · exact ih (fun passwordHash pem hmem => hcalls _ _ (List.mem_append_left _ hmem)) hold
      · exact hcalls passwordHash pem (List.mem_append_right _ List.mem_cons_self)

/-- An account stays as it was first registered. -/
theorem account_reached {before later : List ServerCall} {u passwordHash pem : Str}
    (hfirst : ∀ passwordHash' pem', .registerUser u passwordHash' pem' ∉ before) :
    ∃ record,
      (ChatServer.reached (before ++ .registerUser u passwordHash pem :: later)).users.lookup u
        = some record ∧ record.passwordHash = passwordHash ∧ record.publicKeyPem = pem := by
  rw [List.append_cons]
  refine reached_keeps (K := fun s => ∃ record, s.users.lookup u = some record ∧
    record.passwordHash = passwordHash ∧ record.publicKeyPem = pem) ?_ _ later ?_
  · rintro s q s' hchange ⟨record, hu, rfl, rfl⟩
    obtain ⟨contacts, hu'⟩ := hchange.users_of_some hu
    exact ⟨_, hu', rfl, rfl⟩
  · rw [reached_append_singleton]
    refine ⟨⟨passwordHash, pem, ∅⟩, ?_, rfl, rfl⟩
    show ((ChatServer.reached before).registerUser u passwordHash pem).2.users.lookup u = _
    unfold ChatServer.registerUser
    rw [if_neg (notMem_users_reached hfirst)]
    exact AList.lookup_insert _

/-- The id a call of `createGroup` is about to give. -/
theorem createGroup_free {before later : List ServerCall} {owner groupName : Str}
    {members : List Str} (hfew : (before ++ .createGroup owner groupName members :: later).countP
      ServerCall.createsGroup < 2 ^ 64) :
    ChatServer.makeGroupId (ChatServer.reached before).nextGroupId groupName
      ∉ (ChatServer.reached before).groups := by
  obtain ⟨k, hk, hn⟩ := numbered_reached before
  refine hn.notMem ?_ groupName
  rw [List.countP_append, List.countP_cons_of_pos (by rfl)] at hfew
  omega

/-- A group that a call has created is there from then on. -/
theorem CreatedAs.lookup {calls : List ServerCall} {record : GroupRecord}
    (hfew : calls.countP ServerCall.createsGroup < 2 ^ 64) (h : CreatedAs calls g record) :
    (ChatServer.reached calls).groups.lookup g = some record := by
  obtain ⟨before, owner, groupName, members, later, rfl, hg, hrecord⟩ := h
  obtain ⟨howner, rfl⟩ := createGroup_eq_some.mp hg
  rw [List.append_cons]
  refine reached_keeps (K := fun s => s.groups.lookup _ = some record)
    (fun hchange hlookup => hchange.groups_of_some hlookup) _ later ?_
  rw [reached_append_singleton]
  obtain ⟨record', hrecord', hlookup⟩ := lookup_createGroup members howner (createGroup_free hfew)
  rw [hrecord.unique hrecord']
  exact hlookup

/-- What the directory is after a run of the server. -/
structure Consistent (calls : List ServerCall) : Prop where
  /-- Contacts, owners and members have an account, and owners are members. -/
  registered : Directory (ChatServer.reached calls)
  /-- A group is what its call has created, from then on. -/
  created : ∀ g record, (ChatServer.reached calls).groups.lookup g = some record ↔
    CreatedAs calls g record
  /-- Two calls create two groups. -/
  distinct : ∀ before owner groupName members between owner' groupName' members' later g g',
    calls = before ++ .createGroup owner groupName members :: between ++
      .createGroup owner' groupName' members' :: later →
    ((ChatServer.reached before).createGroup owner groupName members).1 = some g →
    ((ChatServer.reached (before ++ .createGroup owner groupName members :: between)).createGroup
      owner' groupName' members').1 = some g' → g ≠ g'
  listed : ∀ g u, g ∈ (ChatServer.reached calls).listGroups u ↔
    u ∈ (ChatServer.reached calls).getGroupMembers g
  /-- An account stays as it was first registered. -/
  account : ∀ before u passwordHash pem later,
    calls = before ++ .registerUser u passwordHash pem :: later →
    (∀ passwordHash' pem', .registerUser u passwordHash' pem' ∉ before) →
    ∃ record, (ChatServer.reached calls).users.lookup u = some record ∧
      record.passwordHash = passwordHash ∧ record.publicKeyPem = pem
  users_sorted : (ChatServer.reached calls).listUsers.Pairwise (· < ·)
  contacts_sorted : ∀ u, ((ChatServer.reached calls).listContacts u).Pairwise (· < ·)
  groups_sorted : ∀ u, ((ChatServer.reached calls).listGroups u).Pairwise (· < ·)
  members_sorted : ∀ g, ((ChatServer.reached calls).getGroupMembers g).Pairwise (· < ·)

/-- **The directory stays consistent.** -/
theorem directory_consistent (calls : List ServerCall)
    (hfew : calls.countP ServerCall.createsGroup < 2 ^ 64) : Consistent calls where
  registered := .reached calls
  created _ _ := ⟨createdAs_of_lookup, CreatedAs.lookup hfew⟩
  distinct := by
    rintro before owner groupName members between owner' groupName' members' later g g' rfl hg hg'
    rintro rfl
    -- the first group is on record when the second call is made
    obtain ⟨record, hrecord⟩ : ∃ record, CreatedAs
        (before ++ .createGroup owner groupName members :: between) g record :=
      ⟨_, before, owner, groupName, members, between, rfl, hg, recorded_createGroup _ _ _ _⟩
    have hfew' : (before ++ .createGroup owner groupName members :: between).countP
        ServerCall.createsGroup < 2 ^ 64 := by
      rw [List.countP_append] at hfew
      omega
    have hlookup := hrecord.lookup hfew'
    obtain ⟨-, hid⟩ := createGroup_eq_some.mp hg'
    have hfree := createGroup_free hfew
    rw [← hid] at hfree
    rw [AList.lookup_eq_none.mpr hfree] at hlookup
    cases hlookup
  listed _ _ := ChatServer.mem_listGroups
  account := by
    rintro before u passwordHash pem later rfl hfirst
    exact account_reached hfirst
  users_sorted := ChatServer.listUsers_strict
  contacts_sorted _ := ChatServer.listContacts_strict
  groups_sorted _ := ChatServer.listGroups_strict
  members_sorted _ := ChatServer.getGroupMembers_strict

/-- Alice makes two groups; the name of the first looks like the id of the second. -/
theorem directory_consistent_names : Consistent
    [.registerUser (str "alice") (str "hash") (str "pem"),
      .createGroup (str "alice") (str "2-x") [str "bob"],
      .createGroup (str "alice") (str "x") [str "alice"]] :=
  directory_consistent _ (by decide)

end Evlampy
