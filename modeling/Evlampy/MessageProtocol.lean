/-
Evlampy/MessageProtocol.lean

The wire format.  A message is one line of text, its fields separated by `|`:
four strings, four numbers and three base64 texts.  A wire with ten fields, from
before the sender kept a copy of the session key, is accepted too.

OpenSSL's `EVP_EncodeBlock` and `EVP_DecodeBlock` are parameters
(`EvpBase64`); what the code relies on is collected in `EvpBase64.Documented`.
The wrappers around them compute buffer sizes, conversions and padding
themselves, and are modelled step by step.
-/
import Evlampy.Base64
import Evlampy.Message
import Mathlib.Data.List.DropRight

namespace Evlampy

open Cxx

/-- The two OpenSSL functions.  `encodeBlock f n` is the text written for the
first `n` bytes of `f`, whose length is the return value; `decodeBlock f n` is
the bytes written, or `none` for the return value `-1`. -/
structure EvpBase64 where
  encodeBlock : Bytes → Int → Str
  decodeBlock : Str → Int → Option Bytes

/-- What `EVP_DecodeBlock` skips in front: blanks and tabs. -/
def EvpBase64.isLeading (c : UInt8) : Bool := c == 32 || c == 9

/-- What `EVP_DecodeBlock` drops at the end: blanks, line ends and `-`. -/
def EvpBase64.isTrailing (c : UInt8) : Bool :=
  c == 32 || c == 9 || c == 10 || c == 13 || c == 45

/-- The text that is left to decode. -/
def EvpBase64.trim (f : Str) : Str := (f.dropWhile isLeading).rdropWhile isTrailing

/-- The documented behaviour of the two functions, as far as the code uses it. -/
structure EvpBase64.Documented (evp : EvpBase64) : Prop where
  /-- The encoder is padded RFC 4648 base64 of the first `n` bytes. -/
  encodeBlock_eq : ∀ (data : Bytes) (n : Nat), n ≤ data.length → n < 2 ^ 31 →
    evp.encodeBlock data n = Base64.encode (data.take n)
  /-- For a length that is not positive the encoder writes nothing. -/
  encodeBlock_nonpos : ∀ (data : Bytes) (n : Int), n ≤ 0 → evp.encodeBlock data n = []
  /-- The decoder needs a multiple of four characters after trimming. -/
  decodeBlock_misaligned : ∀ f : Str, f.length < 2 ^ 31 → (EvpBase64.trim f).length % 4 ≠ 0 →
    evp.decodeBlock f f.length = none
  /-- The decoder reads four characters as three bytes, `=` as zero bits. -/
  decodeBlock_quads : ∀ f : Str, f.length < 2 ^ 31 → f.length % 4 = 0 →
    (∀ c ∈ f, Base64.isText c = true) → evp.decodeBlock f f.length = some (Base64.decodeQuads f)
  /-- The decoder returns at most three bytes for four of the `n` characters. -/
  decodeBlock_length : ∀ (f : Str) (n : Int) (out : Bytes),
    evp.decodeBlock f n = some out → out.length ≤ 3 * (n.toNat / 4)

/-- What OpenSSL leaves of a text: three of its characters stay, whatever they are. -/
def EvpBase64.strip (f : Str) : Str :=
  let text := f.dropWhile isLeading
  text.take 3 ++ (text.drop 3).rdropWhile isTrailing

/-- A reference implementation of the two functions. -/
def EvpBase64.reference : EvpBase64 where
  encodeBlock data n := Base64.encode (data.take n.toNat)
  decodeBlock f n :=
    let text := strip (f.take n.toNat)
    if text.length % 4 = 0 ∧ text.all Base64.isText then some (Base64.decodeQuads text) else none

/-- Both leave the same, or there are at most three characters to leave. -/
theorem EvpBase64.strip_cases (f : Str) :
    strip f = trim f ∨ (trim f).length < (strip f).length ∧ (strip f).length ≤ 3 := by
  rw [strip, trim]
  generalize f.dropWhile isLeading = text
  have happend : text.rdropWhile isTrailing =
      if ((text.drop 3).rdropWhile isTrailing).isEmpty then (text.take 3).rdropWhile isTrailing
      else text.take 3 ++ (text.drop 3).rdropWhile isTrailing := by
    conv_lhs => rw [← List.take_append_drop 3 text]
    rw [List.rdropWhile, List.reverse_append, List.dropWhile_append]
    simp only [List.rdropWhile, List.isEmpty_reverse]
    split
    · rfl
    · rw [List.reverse_append, List.reverse_reverse]
  rw [happend]
  split
  · next hnil =>
    -- only the three characters are left, and some of them may be dropped
    rw [List.isEmpty_iff.mp hnil, List.append_nil]
    have hpre := List.rdropWhile_prefix isTrailing (l := text.take 3)
    rcases hpre.length_le.eq_or_lt with heq | hlt
    · exact Or.inl (hpre.eq_of_length heq).symm
    · exact Or.inr ⟨hlt, List.length_take_le 3 text⟩
  · exact Or.inl rfl

theorem EvpBase64.length_strip_le (f : Str) : (strip f).length ≤ f.length := by
  have hdrop := (List.dropWhile_suffix isLeading (l := f)).length_le
  have htrail := (List.rdropWhile_prefix isTrailing
    (l := (f.dropWhile isLeading).drop 3)).length_le
  rw [strip, List.length_append, List.length_take]
  rw [List.length_drop] at htrail
  omega

/-- What is left of a text that can be decoded is the same. -/
theorem EvpBase64.strip_eq_trim {f : Str} (h : (strip f).length % 4 = 0) : strip f = trim f := by
  rcases strip_cases f with heq | ⟨hlt, hle⟩
  · exact heq
  · omega

/-- No blank, line end or dash is base64 text. -/
theorem EvpBase64.not_isTrailing_of_isText {c : UInt8} (hc : Base64.isText c = true) :
    isTrailing c = false := by
  by_contra h
  simp only [isTrailing, Bool.not_eq_false, Bool.or_eq_true, beq_iff_eq] at h
  rcases h with (((rfl | rfl) | rfl) | rfl) | rfl
  all_goals exact absurd hc (by decide)

theorem EvpBase64.not_isLeading_of_isText {c : UInt8} (hc : Base64.isText c = true) :
    isLeading c = false := by
  have h := not_isTrailing_of_isText hc
  simp only [isTrailing, Bool.or_eq_false_iff] at h
  simp only [isLeading, h.1.1.1.1, h.1.1.1.2, Bool.or_self]

/-- Base64 text has nothing to trim. -/
theorem EvpBase64.trim_eq_self {f : Str} (hf : ∀ c ∈ f, Base64.isText c = true) :
    trim f = f := by
  have hdrop : f.dropWhile isLeading = f := by
    cases f with
    | nil => rfl
    | cons c f =>
        apply List.dropWhile_cons_of_neg
        simp [not_isLeading_of_isText (hf c (by simp))]
  rw [trim, hdrop, List.rdropWhile_eq_self_iff]
  intro hne
  simp [not_isTrailing_of_isText (hf _ (List.getLast_mem hne))]

theorem EvpBase64.strip_eq_self {f : Str} (hf : ∀ c ∈ f, Base64.isText c = true) :
    strip f = f := by
  have htrim := trim_eq_self hf
  rcases strip_cases f with heq | ⟨hlt, -⟩
  · exact heq.trans htrim
  · have hle := length_strip_le f
    rw [htrim] at hlt
    omega

theorem EvpBase64.reference_documented : reference.Documented where
  encodeBlock_eq data n _ _ := by simp [reference]
  encodeBlock_nonpos data n hn := by simp [reference, Int.toNat_of_nonpos hn, Base64.encode]
  decodeBlock_misaligned f _ hf := by
    simp only [reference, Int.toNat_natCast, List.take_length]
    refine if_neg fun h => hf ?_
    rw [← strip_eq_trim h.1]
    exact h.1
  decodeBlock_quads f _ hlen hf := by
    simp only [reference, Int.toNat_natCast, List.take_length, strip_eq_self hf, hlen,
      List.all_eq_true.mpr hf, and_self, if_true]
  decodeBlock_length f n out h := by
    simp only [reference] at h
    split at h
    · have hlen := length_strip_le (f.take n.toNat)
      have htake : (f.take n.toNat).length ≤ n.toNat := by simp
      rw [← Option.some.inj h, Base64.length_decodeQuads]
      omega
    · simp at h

namespace MessageProtocol

/-! ### Fields -/

/-- The field separator. -/
def bar : UInt8 := 124

/-- The loop of `split`: the finished parts and the part being read. -/
def splitLoop (delimiter : UInt8) : Str → List Str → Str → List Str
  | [], parts, current => parts ++ [current]
  | ch :: text, parts, current =>
      if ch = delimiter then splitLoop delimiter text (parts ++ [current]) []
      else splitLoop delimiter text parts (current ++ [ch])

/-- The parts between the delimiters, empty ones included. -/
def split (text : Str) (delimiter : UInt8) : List Str := splitLoop delimiter text [] []

/-! ### Base64 -/

/-- All length arithmetic is done on `int`. -/
def base64Encode (evp : EvpBase64) (data : Bytes) : Except Exn Str :=
  if data.isEmpty then .ok []
  else do
    let size := toInt data.length
    let rounded ← checkedInt (size + 2)
    let outLen ← checkedInt (4 * (rounded.tdiv 3))
    -- a negative `int` becomes a size no string can have
    if outLen < 0 then .error (.std (.lengthError "basic_string::_M_create"))
    else
      let out : Str := List.replicate outLen.toNat 0
      let text := evp.encodeBlock data size
      if text.length = 0 then .error (.std (.runtimeError "Base64 encode failed"))
      else .ok (resize text.length (writeFront text out))

/-- The padding the decoder takes off: the `=` among the last two characters. -/
def base64Pad (base64 : Str) : Nat :=
  if base64.getLast? = some 61 then
    if base64.dropLast.getLast? = some 61 then 2 else 1
  else 0

/-- The library's count includes the bytes that padding stands for; the wrapper takes them off. -/
def base64Decode (evp : EvpBase64) (base64 : Str) : Except Exn Bytes :=
  if base64.isEmpty then .ok []
  else
    let out : Bytes := List.replicate (base64.length * 3 / 4 + 2) 0
    match evp.decodeBlock base64 (toInt base64.length) with
    | none => .error (.std (.runtimeError "Base64 decode failed"))
    | some bytes =>
        let pad := base64Pad base64
        -- `written - pad` is a `size_t`: below zero it exceeds every vector
        if bytes.length < pad then .error (.std (.lengthError "vector::_M_default_append"))
        else .ok (resize (bytes.length - pad) (writeFront bytes out))

/-! ### Messages -/

/-- `flag ? 1 : 0`, printed. -/
def flagText (flag : Bool) : Str := if flag then str "1" else str "0"

/-- Eleven fields; nothing is escaped. -/
def serialize (evp : EvpBase64) (message : Message) : Except Exn Str := do
  let encryptedSessionKey ← base64Encode evp message.encryptedSessionKey
  let encryptedPayload ← base64Encode evp message.encryptedPayload
  let encryptedSelfSessionKey ← base64Encode evp message.encryptedSelfSessionKey
  return message.messageId ++ [bar] ++ message.sender ++ [bar] ++ message.receiver ++ [bar] ++
    message.chatId ++ [bar] ++ Digits.signed message.timestamp.toInt ++ [bar] ++
    Digits.signed message.status.value.toInt ++ [bar] ++ flagText message.isGroupMessage ++
    [bar] ++ flagText message.deletedForAll ++ [bar] ++ encryptedSessionKey ++ [bar] ++
    encryptedPayload ++ [bar] ++ encryptedSelfSessionKey

/-- The eleventh field may be missing, as in the wires of older versions. -/
def deserialize (evp : EvpBase64) (wireData : Str) : Except Exn Message := do
  let parts := split wireData bar
  if parts.length ≠ 10 ∧ parts.length ≠ 11 then
    .error (.std (.invalidArgument "Wire message has invalid field count"))
  else
  let timestamp ← stoll (parts.getD 4 [])
  let status ← stoi (parts.getD 5 [])
  let isGroupMessage ← stoi (parts.getD 6 [])
  let deletedForAll ← stoi (parts.getD 7 [])
  let encryptedSessionKey ← base64Decode evp (parts.getD 8 [])
  let encryptedPayload ← base64Decode evp (parts.getD 9 [])
  -- without the eleventh field the self key stays empty
  let encryptedSelfSessionKey ←
    (if parts.length = 11 then base64Decode evp (parts.getD 10 []) else .ok [])
  return {
    messageId := parts.getD 0 []
    sender := parts.getD 1 []
    receiver := parts.getD 2 []
    chatId := parts.getD 3 []
    encryptedSessionKey := encryptedSessionKey
    encryptedSelfSessionKey := encryptedSelfSessionKey
    encryptedPayload := encryptedPayload
    timestamp := timestamp
    status := ⟨status⟩
    isGroupMessage := isGroupMessage ≠ 0
    deletedForAll := deletedForAll ≠ 0 }

end MessageProtocol

end Evlampy
