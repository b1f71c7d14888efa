/-
Evlampy/Buffers.lean

The base64 functions and the memory they hand to the library.  The encoder writes
its text and a zero byte behind it, the decoder three bytes for four characters;
here a write outside the buffer that was allocated for it is undefined behaviour.

The formulas for the two sizes are enough for every length there is
(`base64EncodeInto_eq`, `base64DecodeInto_eq`), and whatever fits the `int`
arithmetic comes back from a round trip (`base64_round_trip`).
-/
import Evlampy.Lengths

namespace Evlampy

open Cxx

namespace MessageProtocol

variable {evp : EvpBase64}

/-- `base64Encode`, with the characters of the string and the zero that ends it. -/
def base64EncodeInto (evp : EvpBase64) (data : Bytes) : Except Exn Str :=
  if data.isEmpty then .ok []
  else do
    let size := toInt data.length
    let rounded ← checkedInt (size + 2)
    let outLen ← checkedInt (4 * (rounded.tdiv 3))
    if outLen < 0 then .error (.std (.lengthError "basic_string::_M_create"))
    else do
      let out : Str := List.replicate (outLen.toNat + 1) 0
      let text := evp.encodeBlock data size
      -- the library ends its text with a zero, which may overwrite the string's own
      let out ← writeAt 0 (text ++ [0]) out
      if text.length = 0 then .error (.std (.runtimeError "Base64 encode failed"))
      else .ok (resize text.length (out.take outLen.toNat))

/-- `base64Decode`, with the vector the decoder writes into. -/
def base64DecodeInto (evp : EvpBase64) (base64 : Str) : Except Exn Bytes :=
  if base64.isEmpty then .ok []
  else
    let out : Bytes := List.replicate (base64.length * 3 / 4 + 2) 0
    match evp.decodeBlock base64 (toInt base64.length) with
    | none => .error (.std (.runtimeError "Base64 decode failed"))
    | some bytes => do
        let out ← writeAt 0 bytes out
        let pad := base64Pad base64
        if bytes.length < pad then .error (.std (.lengthError "vector::_M_default_append"))
        else .ok (resize (bytes.length - pad) out)

/-- A count is never more than the bytes there are. -/
theorem toNat_toInt_le (n : Nat) : (toInt n).toNat ≤ n := by
  unfold toInt
  rw [Int.bmod_def]
  split <;> omega

/-- The encoder's text fits the string it is written to. -/
theorem length_encodeBlock_le (hevp : evp.Documented) (data : Bytes) :
    (evp.encodeBlock data (toInt data.length)).length ≤ (outLength (toInt data.length)).toNat := by
  rcases Int.lt_or_le 0 (toInt data.length) with hpos | hneg
  · obtain ⟨n, hn⟩ := Int.eq_ofNat_of_zero_le (Int.le_of_lt hpos)
    have hle := toNat_toInt_le data.length
    have hlt := toInt_lt data.length
    rw [hn] at hle hlt ⊢
    rw [hevp.encodeBlock_eq data n (by omega) (by omega), Base64.length_encode, List.length_take,
      Nat.min_eq_left (by omega), outLength_natCast]
    omega
  · rw [hevp.encodeBlock_nonpos data _ hneg]
    exact Nat.zero_le _

/-- The decoder's bytes fit the vector they are written to. -/
theorem length_decodeBlock_le (hevp : evp.Documented) {base64 : Str} {bytes : Bytes}
    (h : evp.decodeBlock base64 (toInt base64.length) = some bytes) :
    bytes.length ≤ base64.length * 3 / 4 + 2 := by
  have hlen := hevp.decodeBlock_length _ _ _ h
  have hle := toNat_toInt_le base64.length
  omega

/-- What is left of a text and its zero in a buffer with room for both. -/
theorem writeAt_text {text : Str} {n : Nat} (h : text.length ≤ n) :
    ∃ out, writeAt 0 (text ++ [0]) (List.replicate (n + 1) 0) = .ok out ∧
      resize text.length (out.take n) = text := by
  have hfit : (text ++ [0]).length ≤ (List.replicate (n + 1) (0 : UInt8)).length := by
    rw [List.length_append, List.length_singleton, List.length_replicate]
    omega
  refine ⟨_, writeAt_zero hfit, ?_⟩
  have hlen : text.length ≤ (List.take n (text ++ [0] ++
      (List.replicate (n + 1) (0 : UInt8)).drop (text ++ [0]).length)).length := by
    rw [List.length_take, List.append_assoc, List.length_append]
    omega
  rw [resize, Nat.sub_eq_zero_of_le hlen, List.replicate_zero, List.append_nil, List.take_take,
    Nat.min_eq_left h, List.append_assoc, List.take_left' rfl]

/-- The encoder never writes outside its buffer. -/
theorem base64EncodeInto_eq (hevp : evp.Documented) (data : Bytes) :
    base64EncodeInto evp data = base64Encode evp data := by
  have hfit := length_encodeBlock_le hevp data
  unfold outLength at hfit
  simp only [base64EncodeInto, base64Encode]
  split
  · rfl
  rcases hround : checkedInt (toInt data.length + 2) with x | rounded
  · simp only [bind, Except.bind]
  have hrounded := (checkedInt_eq_ok.mp hround).1
  simp only [ok_bind, hrounded]
  rcases hout : checkedInt (4 * ((toInt data.length + 2).tdiv 3)) with x | outLen
  · simp only [bind, Except.bind]
  have houtLen := (checkedInt_eq_ok.mp hout).1
  simp only [ok_bind, houtLen]
  split
  · rfl
  · obtain ⟨out, hwrite, hresize⟩ := writeAt_text hfit
    rw [hwrite, ok_bind, hresize, resize_writeFront _ le_rfl, List.take_length]

/-- The decoder never writes outside its buffer. -/
theorem base64DecodeInto_eq (hevp : evp.Documented) (base64 : Str) :
    base64DecodeInto evp base64 = base64Decode evp base64 := by
  unfold base64DecodeInto base64Decode
  split
  · rfl
  rcases hbytes : evp.decodeBlock base64 (toInt base64.length) with - | bytes
  · rfl
  · have hfit : bytes.length
        ≤ (List.replicate (base64.length * 3 / 4 + 2) (0 : UInt8)).length := by
      rw [List.length_replicate]
      exact length_decodeBlock_le hevp hbytes
    dsimp only
    rw [writeAt_zero hfit]
    rfl

/-- **Base64 round trip.**  A vector of at most `maxBytes` bytes is encoded without
an overflow and inside the buffer, and decoding the text, inside its buffer too,
gives the vector back. -/
theorem base64_round_trip (hevp : evp.Documented) {data : Bytes} (h : data.length ≤ maxBytes) :
    ∃ text, base64EncodeInto evp data = .ok text ∧ base64DecodeInto evp text = .ok data ∧
      base64Encode evp data = .ok text ∧ base64Decode evp text = .ok data := by
  have hencode := base64Encode_eq hevp h
  have hdecode := base64Decode_encode hevp h
  refine ⟨Base64.encode data, ?_, ?_, hencode, hdecode⟩
  · rw [base64EncodeInto_eq hevp, hencode]
  · rw [base64DecodeInto_eq hevp, hdecode]

/-- Bytes that end in a zero, which is not taken for padding. -/
theorem base64_round_trip_zero : ∃ text,
    base64EncodeInto .reference [104, 105, 0, 0] = .ok text ∧
      base64DecodeInto .reference text = .ok [104, 105, 0, 0] := by
  obtain ⟨text, hencode, hdecode, -⟩ := base64_round_trip EvpBase64.reference_documented
    (show ([104, 105, 0, 0] : Bytes).length ≤ maxBytes by decide)
  exact ⟨text, hencode, hdecode⟩

end MessageProtocol

end Evlampy
