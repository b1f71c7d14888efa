/-
Evlampy/Base64.lean

RFC 4648 base64 with padding, over bytes.  `encode` groups the input in threes
and pads the last group; `decodeQuads` reads groups of four characters back,
three bytes a group, with `=` read as six zero bits.  Decoding therefore yields
the encoded bytes followed by one zero byte per padding character
(`decodeQuads_encode`): whoever wants exactly the original bytes has to drop
that many.  The texts an encoder writes are described without it by `Canonical`
(`canonical_iff`).

Six-bit groups are natural numbers below 64, so the bit shifts of the format
are quotients and remainders.
-/
import Mathlib.Data.List.Basic

namespace Base64

/-! ### The alphabet -/

/-- The character of a six-bit group. -/
def symbol (n : Nat) : UInt8 :=
  if n < 26 then (65 + n).toUInt8
  else if n < 52 then (71 + n).toUInt8
  else if n < 62 then (n - 4).toUInt8
  else if n = 62 then 43 else 47

/-- The six-bit group of a character of the alphabet. -/
def value (c : UInt8) : Option Nat :=
  if 65 ≤ c ∧ c ≤ 90 then some (c.toNat - 65)
  else if 97 ≤ c ∧ c ≤ 122 then some (c.toNat - 71)
  else if 48 ≤ c ∧ c ≤ 57 then some (c.toNat + 4)
  else if c = 43 then some 62
  else if c = 47 then some 63 else none

/-- The padding character `=`. -/
def padChar : UInt8 := 61

/-- A character base64 text may contain: the alphabet and the padding. -/
def isText (c : UInt8) : Bool := (value c).isSome || c == padChar

/-- The six bits a character stands for; padding stands for zero bits. -/
def sextet (c : UInt8) : Nat := (value c).getD 0

theorem value_symbol : ∀ n < 64, value (symbol n) = some n := by decide

@[simp] theorem sextet_symbol {n : Nat} (h : n < 64) : sextet (symbol n) = n := by
  rw [sextet, value_symbol n h, Option.getD_some]

@[simp] theorem sextet_padChar : sextet padChar = 0 := by decide

theorem isText_symbol {n : Nat} (h : n < 64) : isText (symbol n) = true := by
  rw [isText, value_symbol n h]
  rfl

theorem symbol_ne_padChar {n : Nat} (h : n < 64) : symbol n ≠ padChar := by
  intro e
  have hv := value_symbol n h
  rw [e] at hv
  exact absurd hv (by simp [value, padChar])

/-! ### Encoding and decoding -/

/-- Padded base64. -/
def encode : List UInt8 → List UInt8
  | [] => []
  | [a] => [symbol (a.toNat / 4), symbol (a.toNat % 4 * 16), padChar, padChar]
  | [a, b] =>
      [symbol (a.toNat / 4), symbol (a.toNat % 4 * 16 + b.toNat / 16),
        symbol (b.toNat % 16 * 4), padChar]
  | a :: b :: c :: rest =>
      symbol (a.toNat / 4) :: symbol (a.toNat % 4 * 16 + b.toNat / 16) ::
        symbol (b.toNat % 16 * 4 + c.toNat / 64) :: symbol (c.toNat % 64) :: encode rest

/-- The three bytes of four six-bit groups. -/
def quad (x y z w : Nat) : List UInt8 :=
  [(x * 4 + y / 16).toUInt8, (y % 16 * 16 + z / 4).toUInt8, (z % 4 * 64 + w).toUInt8]

/-- Read groups of four characters, three bytes each. -/
def decodeQuads : List UInt8 → List UInt8
  | x :: y :: z :: w :: rest => quad (sextet x) (sextet y) (sextet z) (sextet w) ++ decodeQuads rest
  | _ => []

/-- Padding characters for `n` bytes. -/
def padLength (n : Nat) : Nat := (3 - n % 3) % 3

theorem length_encode (v : List UInt8) : (encode v).length = 4 * ((v.length + 2) / 3) := by
  fun_induction encode v with
  | case1 => rfl
  | case2 a => simp
  | case3 a b => simp
  | case4 a b c rest ih =>
      simp only [List.length_cons, ih]
      omega

theorem length_decodeQuads (s : List UInt8) : (decodeQuads s).length = 3 * (s.length / 4) := by
  fun_induction decodeQuads s with
  | case1 x y z w rest ih =>
      simp only [quad, List.length_append, List.length_cons, List.length_nil, ih]
      omega
  | case2 s h =>
      have hs : s.length < 4 := by
        rcases s with - | ⟨a, - | ⟨b, - | ⟨c, - | ⟨d, l⟩⟩⟩⟩
        · simp
        · simp
        · simp
        · simp
        · exact absurd rfl (h a b c d l)
      rw [Nat.div_eq_of_lt hs]
      rfl

/-- Encoded text stays inside the alphabet and the padding. -/
theorem isText_of_mem_encode {v : List UInt8} {ch : UInt8} (h : ch ∈ encode v) :
    isText ch = true := by
  have hpad : isText padChar = true := by decide
  fun_induction encode v with
  | case1 => simp at h
  | case2 a =>
      have ha := a.toNat_lt
      simp only [List.mem_cons, List.not_mem_nil, or_false] at h
      rcases h with rfl | rfl | rfl | rfl
      · exact isText_symbol (by omega)
      · exact isText_symbol (by omega)
      · exact hpad
      · exact hpad
  | case3 a b =>
      have ha := a.toNat_lt
      have hb := b.toNat_lt
      simp only [List.mem_cons, List.not_mem_nil, or_false] at h
      rcases h with rfl | rfl | rfl | rfl
      · exact isText_symbol (by omega)
      · exact isText_symbol (by omega)
      · exact isText_symbol (by omega)
      · exact hpad
  | case4 a b c rest ih =>
      have ha := a.toNat_lt
      have hb := b.toNat_lt
      have hc := c.toNat_lt
      simp only [List.mem_cons] at h
      rcases h with rfl | rfl | rfl | rfl | h
      · exact isText_symbol (by omega)
      · exact isText_symbol (by omega)
      · exact isText_symbol (by omega)
      · exact isText_symbol (by omega)
      · exact ih h

theorem toUInt8_of_eq {n : Nat} {a : UInt8} (h : n = a.toNat) : n.toUInt8 = a := by
  subst h
  exact UInt8.ofNat_toNat

/-- **Decoding an encoding** gives the bytes back, followed by one zero byte per
padding character. -/
theorem decodeQuads_encode (v : List UInt8) :
    decodeQuads (encode v) = v ++ List.replicate (padLength v.length) 0 := by
  fun_induction encode v with
  | case1 => rfl
  | case2 a =>
      have ha := a.toNat_lt
      rw [decodeQuads, sextet_symbol (by omega), sextet_symbol (by omega), sextet_padChar, quad,
        toUInt8_of_eq (a := a) (by omega), toUInt8_of_eq (a := 0) (by simp)]
      rfl
  | case3 a b =>
      have ha := a.toNat_lt
      have hb := b.toNat_lt
      rw [decodeQuads, sextet_symbol (by omega), sextet_symbol (by omega),
        sextet_symbol (by omega), sextet_padChar, quad, toUInt8_of_eq (a := a) (by omega),
        toUInt8_of_eq (a := b) (by omega), toUInt8_of_eq (a := 0) (by simp)]
      rfl
  | case4 a b c rest ih =>
      have ha := a.toNat_lt
      have hb := b.toNat_lt
      have hc := c.toNat_lt
      -- three bytes more leave the padding as it is
      have hpad : padLength (rest.length + 1 + 1 + 1) = padLength rest.length := by
        simp only [padLength]
        omega
      rw [decodeQuads, sextet_symbol (by omega), sextet_symbol (by omega),
        sextet_symbol (by omega), sextet_symbol (by omega), quad, toUInt8_of_eq (a := a) (by omega),
        toUInt8_of_eq (a := b) (by omega), toUInt8_of_eq (a := c) (by omega), ih]
      simp only [List.length_cons, hpad]
      rfl

/-! ### Trailing padding -/

/-- The number of padding characters among the last two of a text. -/
def trailingPads (s : List UInt8) : Nat :=
  if s.getLast? = some padChar then
    if s.dropLast.getLast? = some padChar then 2 else 1
  else 0

theorem trailingPads_append {l r : List UInt8} (h : 2 ≤ r.length) :
    trailingPads (l ++ r) = trailingPads r := by
  have hne : r ≠ [] := by rintro rfl; simp at h
  have hdrop : r.dropLast ≠ [] := by
    intro e
    have := congrArg List.length e
    simp at this
    omega
  rw [trailingPads, List.getLast?_append_of_ne_nil l hne, List.dropLast_append_of_ne_nil hne,
    List.getLast?_append_of_ne_nil l hdrop, trailingPads]

/-- The last two characters of an encoding tell its padding. -/
theorem trailingPads_encode (v : List UInt8) : trailingPads (encode v) = padLength v.length := by
  fun_induction encode v with
  | case1 => rfl
  | case2 a => simp [trailingPads, padLength]
  | case3 a b =>
      have hb := b.toNat_lt
      have h := symbol_ne_padChar (n := b.toNat % 16 * 4) (by omega)
      simp [trailingPads, padLength, h]
  | case4 a b c rest ih =>
      have hc := c.toNat_lt
      have hlen := length_encode rest
      rcases e : rest with - | ⟨d, tail⟩
      · -- nothing follows, and the last character is a symbol
        have h := symbol_ne_padChar (n := c.toNat % 64) (by omega)
        simp [trailingPads, padLength, encode, h]
      · have hr : 2 ≤ (encode rest).length := by
          rw [hlen, e, List.length_cons]
          omega
        have hsplit := trailingPads_append (l := [symbol (a.toNat / 4),
          symbol (a.toNat % 4 * 16 + b.toNat / 16), symbol (b.toNat % 16 * 4 + c.toNat / 64),
          symbol (c.toNat % 64)]) hr
        rw [← e]
        simp only [List.cons_append, List.nil_append] at hsplit
        rw [hsplit, ih]
        simp only [padLength, List.length_cons]
        omega

example : encode [104, 105] = [97, 71, 107, 61] := by decide

/-! ### Canonical text -/

/-- A character of the alphabet, padding apart. -/
def isSymbol (c : UInt8) : Bool := (value c).isSome

/-- Padded base64 without leftover bits: groups of four symbols, the last of which
may stand for one byte or two. -/
inductive Canonical : List UInt8 → Prop
  | nil : Canonical []
  | one {x y : UInt8} (hx : isSymbol x = true) (hy : isSymbol y = true)
      (bits : sextet y % 16 = 0) : Canonical [x, y, padChar, padChar]
  | two {x y z : UInt8} (hx : isSymbol x = true) (hy : isSymbol y = true)
      (hz : isSymbol z = true) (bits : sextet z % 4 = 0) : Canonical [x, y, z, padChar]
  | three {x y z w : UInt8} {rest : List UInt8} (hx : isSymbol x = true)
      (hy : isSymbol y = true) (hz : isSymbol z = true) (hw : isSymbol w = true)
      (hrest : Canonical rest) : Canonical (x :: y :: z :: w :: rest)

theorem isSymbol_symbol {n : Nat} (h : n < 64) : isSymbol (symbol n) = true := by
  rw [isSymbol, value_symbol n h]
  rfl

theorem symbol_sextet_lt : ∀ n < 256, isSymbol (UInt8.ofNat n) = true →
    sextet (UInt8.ofNat n) < 64 ∧ symbol (sextet (UInt8.ofNat n)) = UInt8.ofNat n := by
  decide +kernel

theorem sextet_lt {c : UInt8} (h : isSymbol c = true) : sextet c < 64 := by
  have hc := (symbol_sextet_lt c.toNat c.toNat_lt)
  rw [UInt8.ofNat_toNat] at hc
  exact (hc h).1

/-- A symbol is the symbol of its six bits. -/
theorem symbol_sextet {c : UInt8} (h : isSymbol c = true) : symbol (sextet c) = c := by
  have hc := (symbol_sextet_lt c.toNat c.toNat_lt)
  rw [UInt8.ofNat_toNat] at hc
  exact (hc h).2

theorem canonical_encode (v : List UInt8) : Canonical (encode v) := by
  fun_induction encode v with
  | case1 => exact Canonical.nil
  | case2 a =>
      have ha := a.toNat_lt
      apply Canonical.one (isSymbol_symbol (by omega)) (isSymbol_symbol (by omega))
      rw [sextet_symbol (by omega)]
      omega
  | case3 a b =>
      have ha := a.toNat_lt
      have hb := b.toNat_lt
      apply Canonical.two (isSymbol_symbol (by omega)) (isSymbol_symbol (by omega))
        (isSymbol_symbol (by omega))
      rw [sextet_symbol (by omega)]
      omega
  | case4 a b c rest ih =>
      have ha := a.toNat_lt
      have hb := b.toNat_lt
      have hc := c.toNat_lt
      exact Canonical.three (isSymbol_symbol (by omega)) (isSymbol_symbol (by omega))
        (isSymbol_symbol (by omega)) (isSymbol_symbol (by omega)) ih

theorem toNat_toUInt8 {n : Nat} (h : n < 256) : n.toUInt8.toNat = n :=
  UInt8.toNat_ofNat_of_lt h

/-- Canonical text is the encoding of some bytes. -/
theorem Canonical.exists_encode {s : List UInt8} (h : Canonical s) : ∃ v, encode v = s := by
  induction h with
  | nil => exact ⟨[], rfl⟩
  | @one x y hx hy bits =>
      have hx' := sextet_lt hx
      have hy' := sextet_lt hy
      refine ⟨[(sextet x * 4 + sextet y / 16).toUInt8], ?_⟩
      rw [encode, toNat_toUInt8 (by omega),
        show (sextet x * 4 + sextet y / 16) / 4 = sextet x by omega,
        show (sextet x * 4 + sextet y / 16) % 4 * 16 = sextet y by omega,
        symbol_sextet hx, symbol_sextet hy]
  | @two x y z hx hy hz bits =>
      have hx' := sextet_lt hx
      have hy' := sextet_lt hy
      have hz' := sextet_lt hz
      refine ⟨[(sextet x * 4 + sextet y / 16).toUInt8,
        (sextet y % 16 * 16 + sextet z / 4).toUInt8], ?_⟩
      rw [encode, toNat_toUInt8 (by omega), toNat_toUInt8 (by omega),
        show (sextet x * 4 + sextet y / 16) / 4 = sextet x by omega,
        show (sextet x * 4 + sextet y / 16) % 4 * 16 +
          (sextet y % 16 * 16 + sextet z / 4) / 16 = sextet y by omega,
        show (sextet y % 16 * 16 + sextet z / 4) % 16 * 4 = sextet z by omega,
        symbol_sextet hx, symbol_sextet hy, symbol_sextet hz]
  | @three x y z w rest hx hy hz hw hrest ih =>
      obtain ⟨v, rfl⟩ := ih
      have hx' := sextet_lt hx
      have hy' := sextet_lt hy
      have hz' := sextet_lt hz
      have hw' := sextet_lt hw
      refine ⟨quad (sextet x) (sextet y) (sextet z) (sextet w) ++ v, ?_⟩
      rw [quad, List.cons_append, List.cons_append, List.cons_append, List.nil_append, encode,
        toNat_toUInt8 (by omega), toNat_toUInt8 (by omega), toNat_toUInt8 (by omega),
        show (sextet x * 4 + sextet y / 16) / 4 = sextet x by omega,
        show (sextet x * 4 + sextet y / 16) % 4 * 16 +
          (sextet y % 16 * 16 + sextet z / 4) / 16 = sextet y by omega,
        show (sextet y % 16 * 16 + sextet z / 4) % 16 * 4 +
          (sextet z % 4 * 64 + sextet w) / 64 = sextet z by omega,
        show (sextet z % 4 * 64 + sextet w) % 64 = sextet w by omega,
        symbol_sextet hx, symbol_sextet hy, symbol_sextet hz, symbol_sextet hw]

/-- **The canonical texts** are exactly the encodings. -/
theorem canonical_iff {s : List UInt8} : Canonical s ↔ ∃ v, encode v = s := by
  constructor
  · exact Canonical.exists_encode
  · rintro ⟨v, rfl⟩
    exact canonical_encode v

end Base64
