/-
Evlampy/Digits.lean

Numbers as text, over bytes.  Printing is the usual positional notation in a
base up to sixteen (`Digits.text`), with a minus sign for negative integers
(`Digits.signed`).  Reading follows the C library's `strtoll` in base ten: skip
leading white space, accept one sign, take the longest run of digits and ignore
whatever comes after it (`Digits.scan`).

`scan_signed` is the round trip, and `scan_eq_some` says which texts are read.
`mem_text` bounds the characters a printed number is made of, which is what keeps
numbers from being confused with a separator placed between them.
-/
import Mathlib.Data.Nat.Basic
import Mathlib.Tactic.IntervalCases

namespace Digits

/-! ### Printing -/

/-- The character of one digit below sixteen. -/
def digit (d : Nat) : UInt8 := (Nat.digitChar d).toNat.toUInt8

/-- The digits of `n` in base `b`, most significant first. -/
def text (b n : Nat) : List UInt8 := (Nat.toDigits b n).map fun c => c.toNat.toUInt8

/-- Decimal text of an integer. -/
def signed (z : Int) : List UInt8 :=
  if z < 0 then 45 :: text 10 z.natAbs else text 10 z.natAbs

/-- The last digit comes off the end. -/
theorem text_eq {b : Nat} (hb : 1 < b) (n : Nat) :
    text b n = (if n < b then [] else text b (n / b)) ++ [digit (n % b)] := by
  unfold text
  rw [Nat.toDigits_eq_if hb]
  split
  · next h => simp [digit, Nat.mod_eq_of_lt h]
  · simp [digit]

theorem text_ne_nil {b : Nat} (hb : 1 < b) (n : Nat) : text b n ≠ [] := by
  rw [text_eq hb]
  simp

/-- A printed number consists of digits of its base. -/
theorem mem_text {b : Nat} (hb : 1 < b) {n : Nat} {c : UInt8} (h : c ∈ text b n) :
    ∃ d < b, c = digit d := by
  induction n using Nat.strongRecOn with
  | ind n ih =>
      rw [text_eq hb, List.mem_append, List.mem_singleton] at h
      rcases h with h | h
      · split at h
        · simp at h
        · next hn => exact ih (n / b) (Nat.div_lt_self (by omega) hb) h
      · exact ⟨n % b, Nat.mod_lt n (by omega), h⟩

theorem digit_injOn {d e : Nat} (hd : d < 16) (he : e < 16) (h : digit d = digit e) : d = e := by
  interval_cases d <;> interval_cases e <;> first | rfl | exact absurd h (by decide)

/-- Different numbers have different texts. -/
theorem text_injective {b : Nat} (hb : 1 < b) (hb' : b ≤ 16) : Function.Injective (text b) := by
  intro m
  induction m using Nat.strongRecOn with
  | ind m ih =>
      intro n h
      rw [text_eq hb m, text_eq hb n] at h
      obtain ⟨hfront, hlast⟩ := List.append_inj' h rfl
      -- the last digits agree, and so do the texts in front of them
      have hmod : m % b = n % b :=
        digit_injOn (lt_of_lt_of_le (Nat.mod_lt m (by omega)) hb')
          (lt_of_lt_of_le (Nat.mod_lt n (by omega)) hb') (List.cons.inj hlast).1
      have hdiv : m / b = n / b := by
        split at hfront
        · next hm =>
          split at hfront
          · next hn => rw [Nat.div_eq_of_lt hm, Nat.div_eq_of_lt hn]
          · exact absurd hfront.symm (text_ne_nil hb _)
        · next hm =>
          split at hfront
          · exact absurd hfront (text_ne_nil hb _)
          · exact ih (m / b) (Nat.div_lt_self (by omega) hb) hfront
      rw [← Nat.div_add_mod m b, ← Nat.div_add_mod n b, hdiv, hmod]

/-- The digits below sixteen are decimal digits and the letters `a` to `f`. -/
theorem digit_range {d : Nat} (h : d < 16) :
    (48 ≤ digit d ∧ digit d ≤ 57) ∨ (97 ≤ digit d ∧ digit d ≤ 102) := by
  interval_cases d <;> decide

/-- The bytes of a decimal text are digits and possibly a minus sign. -/
theorem mem_signed {z : Int} {c : UInt8} (h : c ∈ signed z) :
    c = 45 ∨ (48 ≤ c ∧ c ≤ 57) := by
  have key : c ∈ text 10 z.natAbs → 48 ≤ c ∧ c ≤ 57 := by
    intro hc
    obtain ⟨d, hd, rfl⟩ := mem_text (by omega) hc
    interval_cases d <;> decide
  unfold signed at h
  split at h
  · rcases List.mem_cons.mp h with h | h
    · exact Or.inl h
    · exact Or.inr (key h)
  · exact Or.inr (key h)

/-! ### Reading -/

/-- `std::isdigit` of the C locale. -/
def isDigit (c : UInt8) : Bool := 48 ≤ c && c ≤ 57

/-- White space of the C locale: blank, tab, line feed, vertical tab, form feed,
carriage return. -/
def isSpace (c : UInt8) : Bool := c == 32 || (9 ≤ c && c ≤ 13)

/-- Accumulate a run of decimal digits and stop at the first other character. -/
def scanDigits : Nat → List UInt8 → Nat
  | acc, [] => acc
  | acc, c :: cs => if isDigit c then scanDigits (10 * acc + (c.toNat - 48)) cs else acc

/-- At least one digit is required. -/
def scanUnsigned : List UInt8 → Option Nat
  | [] => none
  | c :: cs => if isDigit c then some (scanDigits 0 (c :: cs)) else none

/-- `strtoll` in base ten, without its range check: `none` where no conversion
is possible. -/
def scan (s : List UInt8) : Option Int :=
  match s.dropWhile isSpace with
  | [] => none
  | c :: cs =>
      if c = 45 then (scanUnsigned cs).map fun n : Nat => -(n : Int)
      else if c = 43 then (scanUnsigned cs).map fun n : Nat => (n : Int)
      else (scanUnsigned (c :: cs)).map fun n : Nat => (n : Int)

theorem isDigit_digit {d : Nat} (h : d < 10) : isDigit (digit d) = true := by
  interval_cases d <;> decide

theorem toNat_digit {d : Nat} (h : d < 10) : (digit d).toNat - 48 = d := by
  interval_cases d <;> decide

/-- Reading a run of digits one after another is reading it in two parts. -/
theorem scanDigits_append {l : List UInt8} (hl : ∀ c ∈ l, isDigit c = true) (acc : Nat)
    (r : List UInt8) : scanDigits acc (l ++ r) = scanDigits (scanDigits acc l) r := by
  induction l generalizing acc with
  | nil => rfl
  | cons c l ih =>
      have hc : isDigit c = true := hl c (by simp)
      simp only [List.cons_append, scanDigits, hc, if_true]
      exact ih (fun x hx => hl x (by simp [hx])) _

theorem isDigit_of_mem_text {n : Nat} {c : UInt8} (h : c ∈ text 10 n) : isDigit c = true := by
  obtain ⟨d, hd, rfl⟩ := mem_text (by omega) h
  exact isDigit_digit hd

theorem scanDigits_text (n : Nat) : scanDigits 0 (text 10 n) = n := by
  induction n using Nat.strongRecOn with
  | ind n ih =>
      have hlast : n % 10 < 10 := Nat.mod_lt n (by omega)
      rw [text_eq (by omega)]
      split
      · next hn =>
          simp only [List.nil_append, scanDigits, isDigit_digit hlast, toNat_digit hlast, if_true]
          omega
      · next hn =>
          -- all digits but the last are those of `n / 10`
          rw [scanDigits_append (fun c hc => isDigit_of_mem_text hc),
            ih (n / 10) (by omega)]
          simp only [scanDigits, isDigit_digit hlast, toNat_digit hlast, if_true]
          omega

theorem scanUnsigned_text (n : Nat) : scanUnsigned (text 10 n) = some n := by
  rcases e : text 10 n with - | ⟨c, cs⟩
  · exact absurd e (text_ne_nil (by omega) n)
  · have hc : isDigit c = true := isDigit_of_mem_text (n := n) (by simp [e])
    rw [scanUnsigned, if_pos hc, ← e, scanDigits_text]

/-- A digit is neither white space nor a sign. -/
theorem isSpace_of_isDigit {c : UInt8} (h : isDigit c = true) : isSpace c = false ∧ c ≠ 45 ∧
    c ≠ 43 := by
  have hc : 48 ≤ c ∧ c ≤ 57 := by simpa [isDigit] using h
  obtain ⟨h1, h2⟩ := hc
  rw [UInt8.le_iff_toNat_le] at h1 h2
  refine ⟨?_, ?_, ?_⟩
  · by_contra hspace
    simp only [isSpace, Bool.not_eq_false, Bool.or_eq_true, beq_iff_eq, Bool.and_eq_true,
      decide_eq_true_eq, UInt8.le_iff_toNat_le, ← UInt8.toNat_inj] at hspace
    simp at h1 h2 hspace
    omega
  · rintro rfl
    exact absurd h1 (by decide)
  · rintro rfl
    exact absurd h1 (by decide)

/-- **Round trip**: reading a printed integer gives it back. -/
theorem scan_signed (z : Int) : scan (signed z) = some z := by
  unfold signed
  split
  · next hz =>
      have hdrop : (45 :: text 10 z.natAbs).dropWhile isSpace = 45 :: text 10 z.natAbs :=
        List.dropWhile_cons_of_neg (by decide)
      rw [scan, hdrop]
      simp only [if_true, scanUnsigned_text, Option.map_some, Option.some.injEq]
      omega
  · next hz =>
      rcases e : text 10 z.natAbs with - | ⟨c, cs⟩
      · exact absurd e (text_ne_nil (by omega) _)
      · have hc : isDigit c = true := isDigit_of_mem_text (n := z.natAbs) (by simp [e])
        obtain ⟨hspace, h45, h43⟩ := isSpace_of_isDigit hc
        rw [scan, List.dropWhile_cons_of_neg (by simp [hspace])]
        simp only [h45, h43, if_false]
        rw [← e, scanUnsigned_text, Option.map_some]
        congr 1
        omega

example : scan [32, 45, 52, 50, 120] = some (-42) := by decide

/-! ### What is read -/

/-- The number a run of digits stands for. -/
def valueOf (digits : List UInt8) : Nat := scanDigits 0 digits

/-- The texts `strtoll` reads: white space, one sign at most, the longest run of
digits, of which there is at least one, and anything behind it. -/
inductive Numeral : List UInt8 → Int → Prop
  | mk {blanks sign digits rest : List UInt8} (hblanks : ∀ c ∈ blanks, isSpace c = true)
      (hsign : sign = [] ∨ sign = [43] ∨ sign = [45]) (hne : digits ≠ [])
      (hdigits : ∀ c ∈ digits, isDigit c = true)
      (hrest : ∀ c ∈ rest.head?, isDigit c = false) :
      Numeral (blanks ++ sign ++ digits ++ rest)
        (if sign = [45] then -(valueOf digits : Int) else valueOf digits)

theorem scanDigits_rest {rest : List UInt8} (h : ∀ c ∈ rest.head?, isDigit c = false) (acc : Nat) :
    scanDigits acc rest = acc := by
  cases rest with
  | nil => rfl
  | cons c cs => simp [scanDigits, h c (by simp)]

theorem scanUnsigned_append {digits rest : List UInt8} (hne : digits ≠ [])
    (hdigits : ∀ c ∈ digits, isDigit c = true) (hrest : ∀ c ∈ rest.head?, isDigit c = false) :
    scanUnsigned (digits ++ rest) = some (valueOf digits) := by
  cases digits with
  | nil => exact absurd rfl hne
  | cons c cs =>
      rw [List.cons_append, scanUnsigned, if_pos (hdigits c (by simp)), ← List.cons_append,
        scanDigits_append hdigits, scanDigits_rest hrest, valueOf]

/-- What is read as a number starts with a run of digits. -/
theorem exists_of_scanUnsigned {s : List UInt8} {n : Nat} (h : scanUnsigned s = some n) :
    ∃ digits rest, s = digits ++ rest ∧ digits ≠ [] ∧ (∀ c ∈ digits, isDigit c = true) ∧
      (∀ c ∈ rest.head?, isDigit c = false) ∧ n = valueOf digits := by
  cases s with
  | nil => cases h
  | cons c cs =>
      rw [scanUnsigned] at h
      split at h
      · next hc =>
        have hsplit := List.takeWhile_append_dropWhile (p := isDigit) (l := c :: cs)
        have hall : ∀ x ∈ (c :: cs).takeWhile isDigit, isDigit x = true :=
          List.all_eq_true.mp List.all_takeWhile
        have hstop : ∀ x ∈ ((c :: cs).dropWhile isDigit).head?, isDigit x = false := by
          intro x hx
          have hhead := List.head?_dropWhile_not isDigit (c :: cs)
          rw [Option.mem_def.mp hx] at hhead
          simpa using hhead
        refine ⟨(c :: cs).takeWhile isDigit, (c :: cs).dropWhile isDigit, hsplit.symm, ?_, hall,
          hstop, ?_⟩
        · simp [hc]
        · rw [← Option.some.inj h]
          nth_rewrite 1 [← hsplit]
          rw [scanDigits_append hall, scanDigits_rest hstop, valueOf]
      · cases h

/-- **What `strtoll` reads**, and as which number. -/
theorem scan_eq_some {s : List UInt8} {z : Int} : scan s = some z ↔ Numeral s z := by
  constructor
  · intro h
    have hsplit := List.takeWhile_append_dropWhile (p := isSpace) (l := s)
    have hblanks : ∀ c ∈ s.takeWhile isSpace, isSpace c = true :=
      List.all_eq_true.mp List.all_takeWhile
    rw [← hsplit]
    rw [scan] at h
    split at h
    · cases h
    · next c cs hdrop =>
      rw [hdrop]
      split at h
      -- a sign, which the numeral keeps in front of its digits
      · next hc =>
        obtain ⟨n, hn, rfl⟩ := Option.map_eq_some_iff.mp h
        obtain ⟨digits, rest, rfl, hne, hdigits, hrest, rfl⟩ := exists_of_scanUnsigned hn
        have := Numeral.mk hblanks (Or.inr (Or.inr rfl)) hne hdigits hrest
        simpa [hc] using this
      · split at h
        · next hc =>
          obtain ⟨n, hn, rfl⟩ := Option.map_eq_some_iff.mp h
          obtain ⟨digits, rest, rfl, hne, hdigits, hrest, rfl⟩ := exists_of_scanUnsigned hn
          have := Numeral.mk hblanks (Or.inr (Or.inl rfl)) hne hdigits hrest
          simpa [hc] using this
        · obtain ⟨n, hn, rfl⟩ := Option.map_eq_some_iff.mp h
          obtain ⟨digits, rest, hcs, hne, hdigits, hrest, rfl⟩ := exists_of_scanUnsigned hn
          have := Numeral.mk hblanks (Or.inl rfl) hne hdigits hrest
          rw [hcs]
          simpa using this
  · rintro ⟨hblanks, hsign, hne, hdigits, hrest⟩
    rename_i blanks sign digits rest
    have hscan := scanUnsigned_append hne hdigits hrest
    -- the first digit is no blank and no sign, so the scan reads the parts where they are
    obtain ⟨d, ds, rfl⟩ := List.exists_cons_of_ne_nil hne
    obtain ⟨hspace, h45, h43⟩ := isSpace_of_isDigit (hdigits d (by simp))
    rw [List.append_assoc, List.append_assoc]
    rw [scan, List.dropWhile_append_of_pos hblanks]
    rcases hsign with rfl | rfl | rfl
    · rw [List.nil_append, List.cons_append, List.dropWhile_cons_of_neg (by simp [hspace])]
      simp only [h45, h43, if_false]
      rw [← List.cons_append, hscan]
      rfl
    · rw [List.singleton_append, List.dropWhile_cons_of_neg (by decide)]
      show (scanUnsigned (d :: ds ++ rest)).map _ = _
      rw [hscan]
      rfl
    · rw [List.singleton_append, List.dropWhile_cons_of_neg (by decide)]
      show (scanUnsigned (d :: ds ++ rest)).map _ = _
      rw [hscan]
      rfl

end Digits
