/-
Evlampy/Cxx.lean

The parts of the C++ language and its standard library the model rests on:
byte strings, exceptions, conversions to `int`, `std::stoll` and `std::stoi`,
and writing into a buffer.

A `std::string` is a list of bytes, so it may hold any byte, and `<=` on strings
is the byte-wise lexicographic order of `char_traits<char>`.  A
`std::vector<uint8_t>` is the same type under another name.
-/
import Evlampy.Digits
import Mathlib.Data.List.Sort
import Mathlib.Data.Finset.Basic

/-- `std::string`. -/
abbrev Str := List UInt8

/-- `std::vector<uint8_t>`. -/
abbrev Bytes := List UInt8

/-- A string literal. -/
def str (s : String) : Str := s.toUTF8.data.toList

namespace Cxx

/-! ### Strings in order -/

instance : Std.Total (fun a b : Str => a ≤ b) := ⟨fun a b => List.le_total a b⟩

instance : Std.Antisymm (fun a b : Str => a ≤ b) := ⟨fun _ _ => List.le_antisymm⟩

instance : IsTrans Str (fun a b : Str => a ≤ b) := ⟨fun _ _ _ => List.le_trans⟩

/-- `std::sort` on strings. -/
def sort (l : List Str) : List Str := l.insertionSort (· ≤ ·)

@[simp] theorem mem_sort {l : List Str} {x : Str} : x ∈ sort l ↔ x ∈ l :=
  List.mem_insertionSort _

theorem sort_pairwise (l : List Str) : (sort l).Pairwise (· ≤ ·) :=
  List.pairwise_insertionSort _ l

/-- Sorting forgets the order it is given. -/
theorem sort_eq_of_perm {l l' : List Str} (h : l.Perm l') : sort l = sort l' :=
  (((List.perm_insertionSort _ l).trans h).trans (List.perm_insertionSort _ l').symm).eq_of_pairwise'
    (sort_pairwise l) (sort_pairwise l')

/-- `sortedFromSet`: the elements of a `std::unordered_set` in ascending order. -/
def sortedFromSet (input : Finset Str) : List Str :=
  Quot.liftOn input.val sort fun _ _ h => sort_eq_of_perm h

@[simp] theorem mem_sortedFromSet {input : Finset Str} {x : Str} :
    x ∈ sortedFromSet input ↔ x ∈ input := by
  obtain ⟨⟨l⟩, hl⟩ := input
  exact mem_sort

theorem sortedFromSet_nodup (input : Finset Str) : (sortedFromSet input).Nodup := by
  obtain ⟨⟨l⟩, hl⟩ := input
  exact (List.perm_insertionSort _ l).nodup_iff.mpr hl

/-! ### Exceptions -/

/-- The exceptions derived from `std::exception`, with their `what()`. -/
inductive StdException
  | invalidArgument (what : String)
  | outOfRange (what : String)
  | runtimeError (what : String)
  | lengthError (what : String)
  deriving DecidableEq

/-- The text given to the constructor. -/
def StdException.what : StdException → String
  | invalidArgument what => what
  | outOfRange what => what
  | runtimeError what => what
  | lengthError what => what

/-- How an evaluation can fail to return: by a standard exception, by any other
thrown value, or by undefined behaviour. -/
inductive Exn
  | std (e : StdException)
  | other
  | undefinedBehaviour
  deriving DecidableEq

/-- A computation that returns, or throws something a handler for
`std::exception` catches. -/
def ThrowsStd {α : Type} (r : Except Exn α) : Prop := ∀ x, r = .error x → ∃ e, x = .std e

theorem bind_eq_ok {α β : Type} {r : Except Exn α} {f : α → Except Exn β} {b : β} :
    r >>= f = .ok b ↔ ∃ a, r = .ok a ∧ f a = .ok b := by
  rcases r with x | a
  · simp [bind, Except.bind]
  · simp [bind, Except.bind]

theorem throwsStd_ok {α : Type} (a : α) : ThrowsStd (.ok a) := by
  intro x h
  cases h

theorem throwsStd_std {α : Type} (e : StdException) : ThrowsStd (.error (.std e) : Except Exn α) := by
  intro x h
  cases h
  exact ⟨e, rfl⟩

theorem ThrowsStd.bind {α β : Type} {r : Except Exn α} {f : α → Except Exn β} (hr : ThrowsStd r)
    (hf : ∀ a, ThrowsStd (f a)) : ThrowsStd (r >>= f) := by
  rcases r with x | a
  · intro y h
    cases h
    exact hr x rfl
  · exact hf a

/-- What does not return throws. -/
theorem ThrowsStd.exists_error {α : Type} {r : Except Exn α} (hr : ThrowsStd r)
    (hne : ∀ a, r ≠ .ok a) : ∃ e, r = .error (.std e) := by
  rcases r with x | a
  · obtain ⟨e, rfl⟩ := hr x rfl
    exact ⟨e, rfl⟩
  · exact absurd rfl (hne a)

/-- What holds of the result, if there is one. -/
def Gives {α : Type} (r : Except Exn α) (post : α → Prop) : Prop := ∀ a, r = .ok a → post a

@[simp] theorem gives_ok {α : Type} {a : α} {post : α → Prop} : Gives (.ok a) post ↔ post a := by
  constructor
  · exact fun h => h a rfl
  · rintro h b hb
    cases hb
    exact h

theorem gives_bind {α β : Type} {r : Except Exn α} {f : α → Except Exn β} {post : β → Prop} :
    Gives (r >>= f) post ↔ Gives r fun a => Gives (f a) post := by
  constructor
  · intro h a ha b hb
    exact h b (bind_eq_ok.mpr ⟨a, ha, hb⟩)
  · intro h b hb
    obtain ⟨a, ha, hb⟩ := bind_eq_ok.mp hb
    exact h a ha b hb

theorem gives_mono {α : Type} {r : Except Exn α} {post post' : α → Prop}
    (hpost : ∀ a, post a → post' a) (hr : Gives r post) : Gives r post' :=
  fun a ha => hpost a (hr a ha)

theorem gives_and {α : Type} {r : Except Exn α} {post post' : α → Prop} (hr : Gives r post)
    (hr' : Gives r post') : Gives r fun a => post a ∧ post' a :=
  fun a ha => ⟨hr a ha, hr' a ha⟩

/-! ### Integers -/

/-- `static_cast<int>` of a `std::size_t`: the value modulo `2^32`. -/
def toInt (n : Nat) : Int := Int.bmod n (2 ^ 32)

/-- The value of an `int` operation; overflow is undefined. -/
def checkedInt (z : Int) : Except Exn Int :=
  if -2 ^ 31 ≤ z ∧ z < 2 ^ 31 then .ok z else .error .undefinedBehaviour

theorem toInt_of_lt {n : Nat} (h : n < 2 ^ 31) : toInt n = n := by
  unfold toInt
  rw [Int.bmod_eq_of_le_mul_two] <;> omega

theorem toInt_lt (n : Nat) : toInt n < 2 ^ 31 := by
  have h := Int.bmod_lt (x := (n : Int)) (m := 2 ^ 32) (by omega)
  unfold toInt
  omega

/-- `std::stoll`. -/
def stoll (s : Str) : Except Exn Int64 :=
  match Digits.scan s with
  | none => .error (.std (.invalidArgument "stoll"))
  | some z =>
      if -2 ^ 63 ≤ z ∧ z < 2 ^ 63 then .ok (Int64.ofInt z)
      else .error (.std (.outOfRange "stoll"))

/-- `std::stoi`. -/
def stoi (s : Str) : Except Exn Int32 :=
  match Digits.scan s with
  | none => .error (.std (.invalidArgument "stoi"))
  | some z =>
      if -2 ^ 31 ≤ z ∧ z < 2 ^ 31 then .ok (Int32.ofInt z)
      else .error (.std (.outOfRange "stoi"))

/-- What `stoll` accepts. -/
theorem stoll_eq_ok {s : Str} {n : Int64} :
    stoll s = .ok n ↔
      ∃ z, Digits.Numeral s z ∧ (-2 ^ 63 ≤ z ∧ z < 2 ^ 63) ∧ n = Int64.ofInt z := by
  simp only [← Digits.scan_eq_some]
  rcases h : Digits.scan s with - | z
  · simp [stoll, h]
  · simp only [stoll, h, Option.some.injEq, exists_eq_left']
    split
    · next hz => simp only [Except.ok.injEq, hz, and_self, true_and, eq_comm]
    · next hz => simp only [reduceCtorEq, hz, false_and]

/-- What `stoi` accepts. -/
theorem stoi_eq_ok {s : Str} {n : Int32} :
    stoi s = .ok n ↔
      ∃ z, Digits.Numeral s z ∧ (-2 ^ 31 ≤ z ∧ z < 2 ^ 31) ∧ n = Int32.ofInt z := by
  simp only [← Digits.scan_eq_some]
  rcases h : Digits.scan s with - | z
  · simp [stoi, h]
  · simp only [stoi, h, Option.some.injEq, exists_eq_left']
    split
    · next hz => simp only [Except.ok.injEq, hz, and_self, true_and, eq_comm]
    · next hz => simp only [reduceCtorEq, hz, false_and]

theorem throwsStd_stoll (s : Str) : ThrowsStd (stoll s) := by
  unfold stoll
  split
  · exact throwsStd_std _
  · split
    · exact throwsStd_ok _
    · exact throwsStd_std _

theorem throwsStd_stoi (s : Str) : ThrowsStd (stoi s) := by
  unfold stoi
  split
  · exact throwsStd_std _
  · split
    · exact throwsStd_ok _
    · exact throwsStd_std _

/-- `stoll` reads back what `operator<<` prints. -/
theorem stoll_signed (n : Int64) : stoll (Digits.signed n.toInt) = .ok n := by
  have hlo := n.le_toInt
  have hhi := n.toInt_lt
  rw [stoll, Digits.scan_signed]
  simp only [hlo, hhi, and_self, if_true, Int64.ofInt_toInt]

theorem stoi_signed (n : Int32) : stoi (Digits.signed n.toInt) = .ok n := by
  have hlo := n.le_toInt
  have hhi := n.toInt_lt
  rw [stoi, Digits.scan_signed]
  simp only [hlo, hhi, and_self, if_true, Int32.ofInt_toInt]

/-! ### Buffers -/

/-- Overwrite the front of a buffer. -/
def writeFront (data buffer : Bytes) : Bytes := data ++ buffer.drop data.length

/-- `resize`, with zero bytes where the vector grows. -/
def resize (n : Nat) (buffer : Bytes) : Bytes :=
  buffer.take n ++ List.replicate (n - buffer.length) 0

/-- Shrinking a buffer to what was written leaves just that. -/
theorem resize_writeFront {n : Nat} {data : Bytes} (buffer : Bytes) (h : n ≤ data.length) :
    resize n (writeFront data buffer) = data.take n := by
  have hlen : n ≤ (writeFront data buffer).length := by
    rw [writeFront, List.length_append]
    omega
  rw [resize, Nat.sub_eq_zero_of_le hlen, writeFront, List.take_append_of_le_length h]
  simp

end Cxx
