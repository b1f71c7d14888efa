/-
Evlampy/UnorderedMap.lean

Hash maps as association lists.  A `std::unordered_map` is an `AList`: a list
of entries with pairwise different keys.  Only what a program can observe is
kept (which key holds which value, and a walk over all entries); the order of
the walk is the list's, and no result below depends on it.

The second half is about maps of *buckets*.  A program that files every
record under a computed key keeps, in effect, an index of one log.
`Indexes key M L` says so: every bucket of `M` is the sub-list of `L` with that
key, in the order of `L`.  Filing a record and filtering all the buckets are
the two operations that keep an index in step with its log
(`Indexes.pushBack`, `Indexes.filterValues`).
-/
import Mathlib.Data.List.AList

/-- A hash map: at most one entry per key. -/
abbrev UnorderedMap (κ ν : Type*) := AList (fun _ : κ => ν)

namespace UnorderedMap

variable {κ ν : Type*} [DecidableEq κ]

/-- What is found after an insertion: the new value, or what another key has held. -/
theorem lookup_insert_cases {k k' : κ} {v v' : ν} {M : UnorderedMap κ ν}
    (h : (M.insert k v).lookup k' = some v') :
    k' = k ∧ v' = v ∨ k' ≠ k ∧ M.lookup k' = some v' := by
  rcases eq_or_ne k' k with rfl | hne
  · rw [AList.lookup_insert] at h
    exact Or.inl ⟨rfl, (Option.some.inj h).symm⟩
  · rw [AList.lookup_insert_ne hne] at h
    exact Or.inr ⟨hne, h⟩

/-! ### Insertion without overwriting -/

/-- `emplace`: insert where the key is free, and say whether that happened. -/
def emplace (k : κ) (v : ν) (M : UnorderedMap κ ν) : Bool × UnorderedMap κ ν :=
  if k ∈ M then (false, M) else (true, M.insert k v)

theorem emplace_of_mem {k : κ} {M : UnorderedMap κ ν} (v : ν) (h : k ∈ M) :
    emplace k v M = (false, M) := by
  simp [emplace, h]

theorem emplace_of_notMem {k : κ} {M : UnorderedMap κ ν} (v : ν) (h : k ∉ M) :
    emplace k v M = (true, M.insert k v) := by
  simp [emplace, h]

/-- `emplace` never changes a value that is already there. -/
theorem lookup_emplace_of_some {k k' : κ} {v v' : ν} {M : UnorderedMap κ ν}
    (h : M.lookup k' = some v') : (emplace k v M).2.lookup k' = some v' := by
  by_cases hk : k ∈ M
  · rw [emplace_of_mem v hk]
    exact h
  · rw [emplace_of_notMem v hk]
    have hne : k' ≠ k := by
      rintro rfl
      exact hk (AList.lookup_isSome.mp (by simp [h]))
    rw [AList.lookup_insert_ne hne]
    exact h

/-- What is found after `emplace` was there, or has just been put there. -/
theorem lookup_emplace_cases {k k' : κ} {v v' : ν} {M : UnorderedMap κ ν}
    (h : (emplace k v M).2.lookup k' = some v') :
    M.lookup k' = some v' ∨ (k' = k ∧ v' = v) := by
  by_cases hk : k ∈ M
  · rw [emplace_of_mem v hk] at h
    exact Or.inl h
  · rw [emplace_of_notMem v hk] at h
    rcases lookup_insert_cases h with hnew | ⟨-, hold⟩
    · exact Or.inr hnew
    · exact Or.inl hold

/-! ### Acting on every value -/

/-- Replace every value by its image. -/
def mapValues {μ : Type*} (f : ν → μ) (M : UnorderedMap κ ν) : UnorderedMap κ μ where
  entries := M.entries.map fun e => ⟨e.1, f e.2⟩
  nodupKeys := by
    have h : M.entries.keys.Nodup := M.nodupKeys
    rw [List.NodupKeys]
    simpa [List.keys, Function.comp_def] using h

@[simp] theorem lookup_mapValues {μ : Type*} (f : ν → μ) (M : UnorderedMap κ ν) (k : κ) :
    (mapValues f M).lookup k = (M.lookup k).map f := by
  obtain ⟨l, hl⟩ := M
  simp only [AList.lookup, mapValues]
  clear hl
  induction l with
  | nil => rfl
  | cons e l ih =>
      obtain ⟨k', v⟩ := e
      by_cases h : k = k'
      · subst h
        simp
      · simp only [List.map_cons, List.dlookup_cons_ne _ (⟨k', f v⟩ : (_ : κ) × μ) h,
          List.dlookup_cons_ne _ (⟨k', v⟩ : (_ : κ) × ν) h, ih]

/-! ### Maps of buckets -/

variable {α : Type*}

/-- The bucket under a key, empty where there is none. -/
def bucket (M : UnorderedMap κ (List α)) (k : κ) : List α :=
  (M.lookup k).getD []

/-- `M[k].push_back(a)`: create the bucket where it is missing. -/
def pushBack (k : κ) (a : α) (M : UnorderedMap κ (List α)) : UnorderedMap κ (List α) :=
  M.insert k (bucket M k ++ [a])

theorem bucket_pushBack_self (k : κ) (a : α) (M : UnorderedMap κ (List α)) :
    bucket (pushBack k a M) k = bucket M k ++ [a] := by
  rw [bucket, pushBack, AList.lookup_insert, Option.getD_some]

theorem bucket_pushBack_ne {k k' : κ} (h : k' ≠ k) (a : α) (M : UnorderedMap κ (List α)) :
    bucket (pushBack k a M) k' = bucket M k' := by
  rw [bucket, pushBack, AList.lookup_insert_ne h, bucket]

/-- Keep, in every bucket, the elements `p` accepts. -/
def filterValues (p : α → Bool) (M : UnorderedMap κ (List α)) : UnorderedMap κ (List α) :=
  mapValues (List.filter p) M

@[simp] theorem bucket_filterValues (p : α → Bool) (M : UnorderedMap κ (List α)) (k : κ) :
    bucket (filterValues p M) k = (bucket M k).filter p := by
  rw [bucket, filterValues, lookup_mapValues, bucket]
  rcases M.lookup k with - | l <;> simp

/-- Some bucket gets shorter when every bucket is filtered by `p`. -/
def shrinks (p : α → Bool) (M : UnorderedMap κ (List α)) : Bool :=
  M.entries.any fun e => (e.2.filter p).length != e.2.length

theorem mem_bucket_iff {M : UnorderedMap κ (List α)} {k : κ} {a : α} :
    a ∈ bucket M k ↔ ∃ l, ⟨k, l⟩ ∈ M.entries ∧ a ∈ l := by
  simp only [← AList.mem_lookup_iff, bucket, Option.mem_def]
  rcases h : M.lookup k with - | l
  · simp
  · simp

/-- Filtering shortens some bucket exactly where some bucket holds an element
`p` refuses. -/
theorem shrinks_iff {p : α → Bool} {M : UnorderedMap κ (List α)} :
    shrinks p M = true ↔ ∃ k, ∃ a ∈ bucket M k, p a = false := by
  have hlen : ∀ l : List α, (l.filter p).length ≠ l.length ↔ ∃ a ∈ l, p a = false := by
    intro l
    rw [Ne, List.length_filter_eq_length_iff]
    simp
  constructor
  · intro h
    obtain ⟨⟨k, l⟩, he, hl⟩ := List.any_eq_true.mp h
    obtain ⟨a, ha, hp⟩ := (hlen l).mp (bne_iff_ne.mp hl)
    exact ⟨k, a, mem_bucket_iff.mpr ⟨l, he, ha⟩, hp⟩
  · rintro ⟨k, a, ha, hp⟩
    obtain ⟨l, he, hl⟩ := mem_bucket_iff.mp ha
    exact List.any_eq_true.mpr ⟨⟨k, l⟩, he, bne_iff_ne.mpr ((hlen l).mpr ⟨a, hl, hp⟩)⟩

omit [DecidableEq κ] in
/-- A map none of whose buckets shrinks is left as it is. -/
theorem filterValues_eq_self {p : α → Bool} {M : UnorderedMap κ (List α)}
    (hs : shrinks p M = false) : filterValues p M = M := by
  have hid : ∀ e ∈ M.entries, e.2.filter p = e.2 := by
    intro e he
    have hlen := List.any_eq_false.mp hs e he
    rw [bne_iff_ne, ne_eq, not_not, List.length_filter_eq_length_iff] at hlen
    exact List.filter_eq_self.mpr hlen
  refine AList.ext ?_
  show M.entries.map (fun e => ⟨e.1, e.2.filter p⟩) = M.entries
  refine (List.map_congr_left fun e he => ?_).trans (List.map_id _)
  rw [hid e he]
  rfl

/-- The loop over all buckets that erases what `q` accepts and notes in
`removed` whether a bucket got shorter. -/
def eraseIf (q : α → Bool) (removed : Bool) (M : UnorderedMap κ (List α)) :
    Bool × UnorderedMap κ (List α) :=
  (M.entries.foldl
      (fun removed e => removed || (e.2.filter fun a => !q a).length != e.2.length) removed,
    filterValues (fun a => !q a) M)

omit [DecidableEq κ] in
theorem eraseIf_fst (q : α → Bool) (removed : Bool) (M : UnorderedMap κ (List α)) :
    (eraseIf q removed M).1 = (removed || shrinks (fun a => !q a) M) := by
  simp only [eraseIf, shrinks]
  generalize M.entries = l
  induction l generalizing removed with
  | nil => simp
  | cons e l ih => rw [List.foldl_cons, ih, List.any_cons, Bool.or_assoc]

/-! ### Indexes of a log -/

/-- `M` indexes the log `L` by `key`: each bucket is the sub-list of `L` with
that key.  Records without a key (`none`) are in no bucket. -/
def Indexes (key : α → Option κ) (M : UnorderedMap κ (List α)) (L : List α) : Prop :=
  ∀ k, bucket M k = L.filter fun a => key a = some k

variable {key : α → Option κ} {M : UnorderedMap κ (List α)} {L : List α}

/-- An empty map indexes the empty log. -/
theorem Indexes.empty : Indexes key (∅ : UnorderedMap κ (List α)) [] :=
  fun _ => rfl

/-- Filing a record under its key follows appending it to the log. -/
theorem Indexes.pushBack (h : Indexes key M L) {a : α} {k : κ} (ha : key a = some k) :
    Indexes key (pushBack k a M) (L ++ [a]) := by
  intro k'
  rw [List.filter_append, ← h k']
  by_cases hk : k' = k
  · subst hk
    simp [bucket_pushBack_self, ha]
  · have hne : k ≠ k' := Ne.symm hk
    simp [bucket_pushBack_ne hk, ha, hne]

/-- A record without a key may be logged without touching the map. -/
theorem Indexes.append_of_none (h : Indexes key M L) {a : α} (ha : key a = none) :
    Indexes key M (L ++ [a]) := by
  intro k
  rw [List.filter_append, ← h k]
  simp [ha]

/-- Filtering every bucket follows filtering the log. -/
theorem Indexes.filterValues (h : Indexes key M L) (p : α → Bool) :
    Indexes key (filterValues p M) (L.filter p) := by
  intro k
  rw [bucket_filterValues, h k, List.filter_filter, List.filter_filter]
  simp only [Bool.and_comm]

/-- Every element of a bucket is in the log, under that key. -/
theorem Indexes.mem_bucket (h : Indexes key M L) {k : κ} {a : α} :
    a ∈ bucket M k ↔ a ∈ L ∧ key a = some k := by
  rw [h k, List.mem_filter, decide_eq_true_eq]

/-- A bucket shrinks exactly where `p` refuses a record of the log that has a
key. -/
theorem Indexes.shrinks_iff (h : Indexes key M L) {p : α → Bool} :
    shrinks p M = true ↔ ∃ a ∈ L, (key a).isSome ∧ p a = false := by
  rw [UnorderedMap.shrinks_iff]
  constructor
  · rintro ⟨k, a, ha, hp⟩
    obtain ⟨hL, hk⟩ := h.mem_bucket.mp ha
    exact ⟨a, hL, by simp [hk], hp⟩
  · rintro ⟨a, hL, hk, hp⟩
    obtain ⟨k, hk⟩ := Option.isSome_iff_exists.mp hk
    exact ⟨k, a, h.mem_bucket.mpr ⟨hL, hk⟩, hp⟩

end UnorderedMap
