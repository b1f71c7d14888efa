/-
Evlampy/Lengths.lean

Lengths that do not fit an `int`.  All four functions pass the size of a vector to
the library as an `int` and check none of them.  A size from `2^31` on is
converted to a negative count, one from `2^32` on may be small and positive
again, and then only a part of the vector is processed (`lengths_exact_iff`).
-/
import Evlampy.Canonical
import Evlampy.Gcm

namespace Evlampy

open Cxx

/-! ### Counts -/

theorem toInt_eq_self_iff {n : Nat} : toInt n = n ↔ n < 2 ^ 31 := by
  constructor
  · intro h
    have hlt := toInt_lt n
    omega
  · exact toInt_of_lt

theorem replicate_ne_nil {n : Nat} {b : UInt8} (h : 0 < n) : List.replicate n b ≠ [] := by
  rw [ne_eq, List.replicate_eq_nil_iff]
  omega

theorem neg_le_toInt (n : Nat) : -2 ^ 31 ≤ toInt n := by
  have h := Int.le_bmod (x := (n : Int)) (m := 2 ^ 32) (by omega)
  unfold toInt
  omega

/-- What the library does with a count is done to that many bytes, and to no
more. -/
structure EvpBase64.Counted (evp : EvpBase64) : Prop extends evp.Described where
  decodeBlock_take : ∀ (f : Str) (n : Nat), n ≤ f.length → n < 2 ^ 31 →
    evp.decodeBlock f n = evp.decodeBlock (f.take n) n

/-- The same for the cipher; and once all data have been taken, sealing cannot
fail any more and some tag is the right one. -/
structure EvpGcm.Counted {Ctx : Type} (evp : EvpGcm Ctx) : Prop where
  encryptUpdate_take : ∀ ctx data (n : Nat), n ≤ data.length → n < 2 ^ 31 →
    evp.encryptUpdate ctx data n = evp.encryptUpdate ctx (data.take n) n
  decryptUpdate_take : ∀ ctx data (n : Nat), n ≤ data.length → n < 2 ^ 31 →
    evp.decryptUpdate ctx data n = evp.decryptUpdate ctx (data.take n) n
  encryptFinal : ∀ ctx ctx' data (n : Int) out, evp.encryptUpdate ctx data n = some (ctx', out) →
    ∃ ctx'' out' tag, evp.encryptFinal ctx' = some (ctx'', out') ∧ evp.getTag ctx'' = some tag
  decryptFinal : ∀ ctx ctx' data (n : Int) out, evp.decryptUpdate ctx data n = some (ctx', out) →
    ∃ (tag : Buffer 16) (ctx'' : Ctx) (out' : Bytes), evp.setTag ctx' tag.val = some ctx'' ∧
      evp.decryptFinal ctx'' = some out'

namespace MessageProtocol

variable {evp : EvpBase64}

/-! ### `base64Encode` -/

/-- On vectors of `n` bytes the encoder throws or encodes all of them. -/
def EncodesWhole (evp : EvpBase64) (n : Nat) : Prop :=
  ∀ data : Bytes, data.length = n →
    (∃ e, base64Encode evp data = .error (.std e)) ∨
      (toInt n = n ∧ base64Encode evp data = .ok (Base64.encode data))

theorem outLength_of_nonneg {t : Int} (h : 0 ≤ t + 2) : outLength t = 4 * ((t + 2) / 3) := by
  rw [outLength, Int.tdiv_eq_ediv_of_nonneg h]

theorem outLength_of_neg {t : Int} (h : t + 2 < 0) : outLength t = -(4 * (-(t + 2) / 3)) := by
  rw [outLength, ← Int.neg_neg (t + 2), Int.neg_tdiv, Int.tdiv_eq_ediv_of_nonneg (by omega)]
  omega

/-- The counts for which no `int` operation of the encoder overflows. -/
def InRange (t : Int) : Prop := -1610612740 ≤ t ∧ t ≤ maxBytes

theorem inRange_iff {t : Int} (hlow : -2 ^ 31 ≤ t) :
    InRange t ↔ t + 2 < 2 ^ 31 ∧ -2 ^ 31 ≤ outLength t ∧ outLength t < 2 ^ 31 := by
  unfold InRange maxBytes
  by_cases h : 0 ≤ t + 2
  · rw [outLength_of_nonneg h]
    omega
  · rw [outLength_of_neg (by omega)]
    omega

theorem base64Encode_overflow {data : Bytes} (hne : data ≠ [])
    (h : ¬ InRange (toInt data.length)) :
    base64Encode evp data = .error .undefinedBehaviour := by
  have hlow := neg_le_toInt data.length
  have hempty : data.isEmpty = false := by simp [hne]
  rw [inRange_iff hlow] at h
  simp only [base64Encode, hempty, Bool.false_eq_true, if_false]
  by_cases hround : toInt data.length + 2 < 2 ^ 31
  · rw [checkedInt, if_pos ⟨by omega, hround⟩, ok_bind, checkedInt, if_neg]
    · rfl
    · exact fun hout => h ⟨hround, hout⟩
  · rw [checkedInt, if_neg (by omega)]
    rfl

/-- A count that is not positive ends in an exception: the buffer cannot be made,
or nothing is written. -/
theorem base64Encode_nonpos (hevp : evp.Documented) {data : Bytes} (hne : data ≠ [])
    (hrange : InRange (toInt data.length)) (hpos : toInt data.length ≤ 0) :
    ∃ e, base64Encode evp data = .error (.std e) := by
  have hempty : data.isEmpty = false := by simp [hne]
  obtain ⟨hround, hlow, hhigh⟩ := (inRange_iff (neg_le_toInt data.length)).mp hrange
  simp only [base64Encode, hempty, Bool.false_eq_true, if_false]
  rw [checkedInt, if_pos ⟨by have := neg_le_toInt data.length; omega, hround⟩, ok_bind, checkedInt,
    if_pos ⟨hlow, hhigh⟩, ok_bind]
  split
  · exact ⟨_, rfl⟩
  · rw [hevp.encodeBlock_nonpos data _ hpos]
    exact ⟨_, rfl⟩

/-- **Which lengths the encoder processes.** -/
theorem encodesWhole_iff (hevp : evp.Documented) {n : Nat} :
    EncodesWhole evp n ↔ n ≤ maxBytes ∨ (-1610612740 ≤ toInt n ∧ toInt n ≤ 0) := by
  constructor
  · intro h
    -- a vector of zeros of a length outside both ranges is the counterexample
    by_contra hno
    rw [not_or, not_le] at hno
    obtain ⟨hbig, hcount⟩ := hno
    have hlen : (List.replicate n (0 : UInt8)).length = n := List.length_replicate
    have hne : List.replicate n (0 : UInt8) ≠ [] := replicate_ne_nil (by omega)
    have hwhole := h (List.replicate n 0) hlen
    generalize List.replicate n (0 : UInt8) = data at hlen hne hwhole
    subst hlen
    by_cases hrange : InRange (toInt data.length)
    · -- the count is positive and belongs to a shorter vector
      have hpos : 0 < toInt data.length := by
        by_contra hle
        exact hcount ⟨hrange.1, by omega⟩
      obtain ⟨t, ht, hle, hlt⟩ := exists_count (le_of_lt hpos)
      have hmax : t ≤ maxBytes := by
        have := hrange.2
        omega
      have henc : base64Encode evp data = .ok (Base64.encode (data.take t)) := by
        have hlen := Base64.length_encode (data.take t)
        rw [List.length_take, Nat.min_eq_left hle] at hlen
        unfold maxBytes at hmax
        rw [base64Encode_eq_ok hne, ht, outLength_natCast, hevp.encodeBlock_eq data t hle hlt]
        refine ⟨by omega, by omega, by omega, rfl, ?_⟩
        intro e
        rw [e, List.length_nil] at hlen
        omega
      rcases hwhole with ⟨e, he⟩ | ⟨hcount, -⟩
      · rw [henc] at he
        cases he
      · omega
    -- the count overflows, which is neither answer
    · rw [base64Encode_overflow hne hrange] at hwhole
      rcases hwhole with ⟨e, he⟩ | ⟨-, he⟩
      · cases he
      · cases he
  · rintro h data rfl
    rcases eq_or_ne data [] with rfl | hne
    · exact Or.inr ⟨rfl, rfl⟩
    · rcases h with h | ⟨hlow, hpos⟩
      · have hlt : data.length < 2 ^ 31 := by
          unfold maxBytes at h
          omega
        exact Or.inr ⟨toInt_of_lt hlt, base64Encode_eq hevp h⟩
      · exact Or.inl (base64Encode_nonpos hevp hne ⟨hlow, by unfold maxBytes; omega⟩ hpos)

/-! ### `base64Decode` -/

/-- The bytes all of a text stands for. -/
def decodedText (base64 : Str) : Bytes :=
  (Base64.decodeQuads (EvpBase64.trim base64)).take
    ((Base64.decodeQuads (EvpBase64.trim base64)).length - base64Pad base64)

/-- On texts of `n` characters the decoder throws or decodes all of them, and it
never takes off more padding than was written. -/
def DecodesWhole (evp : EvpBase64) (n : Nat) : Prop :=
  ∀ base64 : Str, base64.length = n →
    (∀ bytes, evp.decodeBlock base64 (toInt n) = some bytes → base64Pad base64 ≤ bytes.length) ∧
      ((∃ e, base64Decode evp base64 = .error (.std e)) ∨
        (toInt n = n ∧ base64Decode evp base64 = .ok (decodedText base64)))

/-- Blanks in front are trimmed away. -/
theorem trim_append {blanks text : Str} (h : ∀ c ∈ blanks, EvpBase64.isLeading c = true) :
    EvpBase64.trim (blanks ++ text) = EvpBase64.trim text := by
  rw [EvpBase64.trim, List.dropWhile_append_of_pos h, EvpBase64.trim]

/-- A text of length `n` whose first `t` characters the library decodes. -/
def prefixText (n t : Nat) : Str := List.replicate (t % 4) 32 ++ List.replicate (n - t % 4) 65

theorem length_prefixText {n t : Nat} (h : t ≤ n) : (prefixText n t).length = n := by
  rw [prefixText, List.length_append, List.length_replicate, List.length_replicate]
  omega

theorem take_prefixText {n t : Nat} (h : t ≤ n) :
    (prefixText n t).take t = List.replicate (t % 4) 32 ++ List.replicate (t - t % 4) 65 := by
  rw [prefixText, List.take_append, List.take_replicate, List.take_replicate,
    List.length_replicate]
  congr 2
  · omega
  · omega

theorem decodeBlock_prefixText (hevp : evp.Counted) {n t : Nat} (hle : t ≤ n) (hlt : t < 2 ^ 31) :
    ∃ bytes, evp.decodeBlock (prefixText n t) t = some bytes := by
  have hlen : ((prefixText n t).take t).length = t := by
    rw [List.length_take, length_prefixText hle, Nat.min_eq_left hle]
  have hdec := hevp.decodeBlock_accepts ((prefixText n t).take t) (by omega)
  rw [hlen] at hdec
  have htext : ∀ c ∈ List.replicate (t - t % 4) (65 : UInt8), Base64.isText c = true := by
    intro c hc
    rw [List.eq_of_mem_replicate hc]
    decide
  have htrim : EvpBase64.trim ((prefixText n t).take t) = List.replicate (t - t % 4) 65 := by
    rw [take_prefixText hle, trim_append, EvpBase64.trim_eq_self htext]
    intro c hc
    rw [List.eq_of_mem_replicate hc]
    decide
  rw [htrim, List.length_replicate] at hdec
  rw [hevp.decodeBlock_take _ t (by rw [length_prefixText hle]; exact hle) hlt]
  refine Option.isSome_iff_exists.mp (hdec (by omega) (List.all_eq_true.mpr htext) fun hnil => ?_)
  -- no letter is left, so the text is blank
  rw [take_prefixText hle, hnil, List.append_nil]
  refine List.all_eq_true.mpr fun c hc => ?_
  rw [List.eq_of_mem_replicate hc]
  decide

/-- Text the library decodes is decoded, unless there is less of it than padding. -/
theorem base64Decode_of_decodeBlock {base64 : Str} {bytes : Bytes} (hne : base64 ≠ [])
    (h : evp.decodeBlock base64 (toInt base64.length) = some bytes)
    (hpad : base64Pad base64 ≤ bytes.length) :
    base64Decode evp base64 = .ok (bytes.take (bytes.length - base64Pad base64)) :=
  (base64Decode_eq_ok hne).mpr ⟨bytes, h, hpad, rfl⟩

/-- **Which lengths the decoder processes.** -/
theorem decodesWhole_iff (hevp : evp.Counted) {n : Nat} :
    DecodesWhole evp n ↔ n < 2 ^ 31 ∨
      (toInt n < 0 ∧ ∀ base64 : Str, base64.length = n →
        evp.decodeBlock base64 (toInt n) = none) := by
  constructor
  · intro h
    by_contra hno
    rw [not_or, not_lt] at hno
    obtain ⟨hbig, hneg⟩ := hno
    -- an accepted text of this length is a contradiction
    have hrefuse : ∀ base64 : Str, base64.length = n → ∀ bytes,
        evp.decodeBlock base64 (toInt n) ≠ some bytes := by
      intro base64 hlen bytes hbytes
      obtain ⟨hpad, hwhole⟩ := h base64 hlen
      have hne : base64 ≠ [] := by
        rintro rfl
        rw [List.length_nil] at hlen
        omega
      have hok := base64Decode_of_decodeBlock hne (by rw [hlen]; exact hbytes) (hpad bytes hbytes)
      rcases hwhole with ⟨e, he⟩ | ⟨hcount, -⟩
      · rw [hok] at he
        cases he
      · exact absurd (toInt_eq_self_iff.mp hcount) (by omega)
    by_cases hcount : toInt n < 0
    · apply hneg
      refine ⟨hcount, fun base64 hlen => ?_⟩
      rcases hbytes : evp.decodeBlock base64 (toInt n) with - | bytes
      · rfl
      · exact absurd hbytes (hrefuse base64 hlen bytes)
    · obtain ⟨t, ht, hle, hlt⟩ := exists_count (not_lt.mp hcount)
      obtain ⟨bytes, hbytes⟩ := decodeBlock_prefixText hevp hle hlt
      exact hrefuse (prefixText n t) (length_prefixText hle) bytes (by rw [ht, hbytes])
  · rintro (hlt | ⟨hneg, hrefuse⟩) base64 rfl
    · have hcount := toInt_of_lt hlt
      constructor
      · intro bytes hbytes
        rw [hcount] at hbytes
        exact base64Pad_le hevp.toDescribed hlt hbytes
      · rcases eq_or_ne base64 [] with rfl | hne
        · exact Or.inr ⟨rfl, rfl⟩
        · rcases hdec : base64Decode evp base64 with x | out
          · obtain ⟨e, rfl⟩ := throwsStd_base64Decode base64 x hdec
            exact Or.inl ⟨e, rfl⟩
          · obtain ⟨bytes, hbytes, hpad, rfl⟩ := (base64Decode_eq_ok hne).mp hdec
            rw [hcount] at hbytes
            obtain ⟨-, -, rfl⟩ := hevp.decodeBlock_reads base64 bytes hlt hbytes
            exact Or.inr ⟨hcount, rfl⟩
    · constructor
      · intro bytes hbytes
        rw [hrefuse base64 rfl] at hbytes
        cases hbytes
      · apply Or.inl
        apply (throwsStd_base64Decode base64).exists_error
        intro out hout
        have hne : base64 ≠ [] := by
          rintro rfl
          exact absurd hneg (by decide)
        obtain ⟨bytes, hbytes, -⟩ := (base64Decode_eq_ok hne).mp hout
        rw [hrefuse base64 rfl] at hbytes
        cases hbytes

end MessageProtocol

namespace AES256GCMStrategy

open OpenSSL

variable {Ctx : Type} {evp : EvpGcm Ctx} {gcm : Bytes → Bytes → Bytes → Bytes × Buffer 16} {n : Nat}

/-! ### `encrypt` -/

/-- On vectors of `n` bytes `encrypt` throws or encrypts all of them. -/
def SealsWhole (evp : EvpGcm Ctx) (gcm : Bytes → Bytes → Bytes → Bytes × Buffer 16) (n : Nat) :
    Prop :=
  ∀ (newCtx : Option Ctx) (rand : Option (Buffer gcmIvLen)) (plaintext key : Bytes),
    plaintext.length = n →
    (∃ e, encryptWith evp newCtx rand plaintext key = .error (.std e)) ∨
      (toInt n = n ∧ ∃ c, encryptWith evp newCtx rand plaintext key = .ok c ∧
        Envelope gcm key plaintext c)

/-- `EVP_EncryptUpdate` refuses the count that is passed for `n` bytes. -/
def RefusesToSeal (evp : EvpGcm Ctx) (n : Nat) : Prop :=
  ∀ (ctx ctx' : Ctx) (key data : Bytes) (iv : Buffer gcmIvLen), key.length = 32 →
    evp.encryptInit ctx key iv.val = some ctx' → data.length = n →
    evp.encryptUpdate ctx' data (toInt n) = none

theorem throwsStd_encryptWith (h : evp.Bounded) {plaintext : Bytes}
    (hlen : plaintext.length < 2 ^ 31) (newCtx : Option Ctx) (rand : Option (Buffer gcmIvLen))
    (key : Bytes) : ThrowsStd (encryptWith evp newCtx rand plaintext key) := by
  by_cases hkey : key.length = 32
  · rcases newCtx with - | ctx
    · simp only [encryptWith, hkey, ne_eq, not_true_eq_false, if_false, ofCall_none_bind]
      exact throwsStd_std _
    · rcases rand with - | iv
      · simp only [encryptWith, hkey, ne_eq, not_true_eq_false, if_false, ofCall_some_bind,
          ofCall_none_bind]
        exact throwsStd_std _
      · rw [encryptWith_some h hkey (by rw [toInt_of_lt hlen]; omega)]
        rcases evp.sealCalls ctx key iv.val plaintext (toInt plaintext.length) with call | ⟨c, tag⟩
        · exact throwsStd_std _
        · exact throwsStd_ok _
  · simp only [encryptWith, hkey, ne_eq, not_false_eq_true, if_true]
    exact throwsStd_std _

theorem sealCalls_take (hcount : evp.Counted) (ctx : Ctx) (key iv : Bytes) {data : Bytes} {t : Nat}
    (hle : t ≤ data.length) (hlt : t < 2 ^ 31) :
    evp.sealCalls ctx key iv data t = evp.sealCalls ctx key iv (data.take t) t := by
  simp only [EvpGcm.sealCalls, hcount.encryptUpdate_take _ data t hle hlt]

/-- A count that belongs to a shorter vector is accepted. -/
theorem encryptWith_take (h : evp.Bounded) (haead : evp.Aead gcm) (hcount : evp.Counted)
    (ctx : Ctx) (iv : Buffer gcmIvLen) {plaintext key : Bytes} (hkey : key.length = 32)
    (hpos : 0 ≤ toInt plaintext.length) :
    ∃ c, encryptWith evp (some ctx) (some iv) plaintext key = .ok c := by
  obtain ⟨t, ht, hle, hlt⟩ := exists_count hpos
  have htake : (plaintext.take t).length = t := by
    rw [List.length_take, Nat.min_eq_left hle]
  have hcalls := haead.sealCalls_eq ctx key iv.val (plaintext.take t) hkey iv.property (by omega)
  rw [htake, ← sealCalls_take hcount ctx key iv.val hle hlt, ← ht] at hcalls
  rw [encryptWith_some h hkey hpos, hcalls]
  exact ⟨_, rfl⟩

/-- Once the library has taken the data, nothing is left to throw. -/
theorem encryptWith_accepted (hcount : evp.Counted) {ctx ctx' ctx'' : Ctx}
    {plaintext key out : Bytes} {iv : Buffer gcmIvLen} (hkey : key.length = 32)
    (hinit : evp.encryptInit ctx key iv.val = some ctx')
    (hupdate : evp.encryptUpdate ctx' plaintext (toInt plaintext.length) = some (ctx'', out))
    (e : StdException) :
    encryptWith evp (some ctx) (some iv) plaintext key ≠ .error (.std e) := by
  obtain ⟨ctx₃, out', tag, hfinal, htag⟩ := hcount.encryptFinal _ _ _ _ _ hupdate
  simp only [encryptWith, hkey, ne_eq, not_true_eq_false, if_false, ofCall_some_bind, hinit,
    hupdate]
  rcases writeAt_cases 0 out (List.replicate (plaintext.length + gcmTagLen) 0) with h₁ | ⟨b₁, h₁⟩
  · rw [h₁]
    intro he
    cases he
  · rw [h₁, ok_bind, hfinal, ofCall_some_bind]
    rcases writeAt_cases out.length out' b₁ with h₂ | ⟨b₂, h₂⟩
    · rw [h₂]
      intro he
      cases he
    · rw [h₂, ok_bind]
      rcases checkedInt_cases ((out.length : Int) + out'.length) with h₃ | ⟨z, h₃⟩
      · rw [h₃]
        intro he
        cases he
      · rw [h₃, ok_bind, htag, ofCall_some_bind]
        intro he
        cases he

theorem encryptWith_refused {plaintext : Bytes} (hrefuse : RefusesToSeal evp plaintext.length)
    (newCtx : Option Ctx) (rand : Option (Buffer gcmIvLen)) (key : Bytes) :
    ∃ e, encryptWith evp newCtx rand plaintext key = .error (.std e) := by
  by_cases hkey : key.length = 32
  · simp only [encryptWith, hkey, ne_eq, not_true_eq_false, if_false]
    rcases newCtx with - | ctx
    · exact ⟨_, ofCall_none_bind _ _⟩
    · rw [ofCall_some_bind]
      rcases rand with - | iv
      · exact ⟨_, ofCall_none_bind _ _⟩
      · rw [ofCall_some_bind]
        rcases hinit : evp.encryptInit ctx key iv.val with - | ctx'
        · exact ⟨_, ofCall_none_bind _ _⟩
        · rw [ofCall_some_bind, hrefuse ctx ctx' key plaintext iv hkey hinit rfl]
          exact ⟨_, ofCall_none_bind _ _⟩
  · simp only [encryptWith, hkey, ne_eq, not_false_eq_true, if_true]
    exact ⟨_, rfl⟩

/-- **Which lengths `encrypt` processes.** -/
theorem sealsWhole_iff (h : evp.Bounded) (haead : evp.Aead gcm) (hcount : evp.Counted) (ctx : Ctx) :
    SealsWhole evp gcm n ↔ n < 2 ^ 31 ∨ (toInt n < 0 ∧ RefusesToSeal evp n) := by
  constructor
  · intro hwhole
    by_contra hno
    rw [not_or, not_lt] at hno
    obtain ⟨hbig, hneg⟩ := hno
    have hcast : toInt n ≠ n := fun e => absurd (toInt_eq_self_iff.mp e) (by omega)
    by_cases hpos : toInt n < 0
    · -- the library has taken a negative count somewhere
      apply hneg
      refine ⟨hpos, ?_⟩
      rintro c c' key data iv hkey hinit rfl
      rcases hupdate : evp.encryptUpdate c' data (toInt data.length) with - | ⟨c'', out⟩
      · rfl
      · rcases hwhole (some c) (some iv) data key rfl with ⟨e, he⟩ | ⟨hcount', -⟩
        · exact absurd he (encryptWith_accepted hcount hkey hinit hupdate e)
        · exact absurd hcount' hcast
    · have hlen : (List.replicate n (0 : UInt8)).length = n := List.length_replicate
      obtain ⟨c, hc⟩ := encryptWith_take h haead hcount ctx ⟨List.replicate 12 0, rfl⟩
        (show (List.replicate 32 (0 : UInt8)).length = 32 from rfl)
        (show 0 ≤ toInt (List.replicate n (0 : UInt8)).length by rw [hlen]; exact not_lt.mp hpos)
      rcases hwhole _ _ _ _ hlen with ⟨e, he⟩ | ⟨hcount', -⟩
      · rw [hc] at he
        cases he
      · exact absurd hcount' hcast
  · rintro (hlt | ⟨-, hrefuse⟩) newCtx rand plaintext key rfl
    · rcases henc : encryptWith evp newCtx rand plaintext key with x | c
      · obtain ⟨e, rfl⟩ := throwsStd_encryptWith h hlt newCtx rand key x henc
        exact Or.inl ⟨e, rfl⟩
      · have hkey : key.length = 32 := by
          by_contra hkey
          simp [encryptWith, hkey] at henc
        obtain ⟨-, iv, -, rfl⟩ := (encryptWith_eq_ok h haead hkey hlt).mp henc
        exact Or.inr ⟨toInt_of_lt hlt, _, rfl, iv, _, _, rfl, rfl⟩
    · exact Or.inl (encryptWith_refused hrefuse newCtx rand key)

/-! ### `decrypt` -/

/-- On envelopes of `n` bytes `decrypt` throws or decrypts all that is between the
nonce and the tag. -/
def UnsealsWhole (evp : EvpGcm Ctx) (gcm : Bytes → Bytes → Bytes → Bytes × Buffer 16) (n : Nat) :
    Prop :=
  ∀ (newCtx : Option Ctx) (ciphertext key : Bytes), ciphertext.length = n →
    (∃ e, decryptWith evp newCtx ciphertext key = .error (.std e)) ∨
      (toInt (n - 28) = (n - 28 : Nat) ∧ ∃ p, decryptWith evp newCtx ciphertext key = .ok p ∧
        Envelope gcm key p ciphertext)

/-- `EVP_DecryptUpdate` refuses the count that is passed for an envelope of `n`
bytes. -/
def RefusesToUnseal (evp : EvpGcm Ctx) (n : Nat) : Prop :=
  ∀ (ctx ctx' : Ctx) (key data : Bytes) (iv : Buffer gcmIvLen), key.length = 32 →
    evp.decryptInit ctx key iv.val = some ctx' → data.length + 28 = n →
    evp.decryptUpdate ctx' data (toInt (n - 28)) = none

theorem unsealCalls_take (hcount : evp.Counted) (ctx : Ctx) (key iv tag : Bytes) {data : Bytes}
    {t : Nat} (hle : t ≤ data.length) (hlt : t < 2 ^ 31) :
    evp.unsealCalls ctx key iv data t tag = evp.unsealCalls ctx key iv (data.take t) t tag := by
  simp only [EvpGcm.unsealCalls, hcount.decryptUpdate_take _ data t hle hlt]

/-- What `t` zero bytes are sealed to. -/
def zeroSealed (gcm : Bytes → Bytes → Bytes → Bytes × Buffer 16) (t : Nat) : Bytes × Buffer 16 :=
  gcm (List.replicate 32 0) (List.replicate 12 0) (List.replicate t 0)

theorem length_zeroSealed (haead : evp.Aead gcm) (t : Nat) : (zeroSealed gcm t).1.length = t := by
  rw [zeroSealed, haead.length_eq, List.length_replicate]

/-- The envelope of `t` zero bytes, with more bytes in front of its tag. -/
def paddedEnvelope (gcm : Bytes → Bytes → Bytes → Bytes × Buffer 16) (n t : Nat) : Bytes :=
  List.replicate 12 0 ++ ((zeroSealed gcm t).1 ++ List.replicate (n - t) 0) ++
    (zeroSealed gcm t).2.val

theorem length_paddedEnvelope (haead : evp.Aead gcm) {t : Nat} (h : t ≤ n) :
    (paddedEnvelope gcm n t).length = n + 28 := by
  simp only [paddedEnvelope, List.length_append, List.length_replicate, length_zeroSealed haead,
    (zeroSealed gcm t).2.property]
  omega

/-- A count that belongs to a shorter envelope is accepted. -/
theorem decryptWith_paddedEnvelope (h : evp.Bounded) (haead : evp.Aead gcm)
    (hcount : evp.Counted) (ctx : Ctx) {t : Nat} (ht : toInt n = t) (hle : t ≤ n)
    (hlt : t < 2 ^ 31) :
    ∃ p, decryptWith evp (some ctx) (paddedEnvelope gcm n t) (List.replicate 32 0) = .ok p := by
  have hlen := length_paddedEnvelope haead hle
  have hct := length_zeroSealed haead t
  obtain ⟨hiv, hmid, htag⟩ := parts_of_append
    (c := (zeroSealed gcm t).1 ++ List.replicate (n - t) 0)
    (show (List.replicate 12 (0 : UInt8)).length = gcmIvLen from rfl) (zeroSealed gcm t).2.property
  rw [← paddedEnvelope] at hiv hmid htag
  have hsize : (encryptedPart (paddedEnvelope gcm n t)).length = n := by
    rw [hmid, List.length_append, List.length_replicate, hct]
    omega
  -- the library reads as much as was sealed
  have hopen := (haead.unsealCalls_eq ctx (List.replicate 32 0) (List.replicate 12 0)
    (zeroSealed gcm t).1 (zeroSealed gcm t).2 (List.replicate t 0) rfl rfl
    (by rw [hct]; exact hlt)).mpr rfl
  rw [hct] at hopen
  rw [decryptWith_some h rfl (by rw [hlen]; exact Nat.le_add_left _ _)
    (by rw [hsize, ht]; omega), hsize, ht, hiv, htag,
    unsealCalls_take hcount _ _ _ _ (by rw [hsize]; exact hle) hlt, hmid,
    List.take_left' hct, hopen]
  exact ⟨_, rfl⟩

/-- Once the library has taken the data, some tag is accepted. -/
theorem decryptWith_accepted (hcount : evp.Counted) {ctx ctx' ctx'' : Ctx} {data key out : Bytes}
    {iv : Buffer gcmIvLen} (hkey : key.length = 32)
    (hinit : evp.decryptInit ctx key iv.val = some ctx')
    (hupdate : evp.decryptUpdate ctx' data (toInt data.length) = some (ctx'', out)) :
    ∃ ciphertext : Bytes, ciphertext.length = data.length + 28 ∧
      ∀ e, decryptWith evp (some ctx) ciphertext key ≠ .error (.std e) := by
  obtain ⟨tag, ctx₃, out', htag, hfinal⟩ := hcount.decryptFinal _ _ _ _ _ hupdate
  have hlen : (iv.val ++ data ++ tag.val).length = data.length + 28 := by
    have h1 := iv.property
    have h2 := tag.property
    simp only [gcmIvLen] at h1
    rw [List.length_append, List.length_append, h1, h2]
    omega
  have hlong : ¬ (iv.val ++ data ++ tag.val).length < gcmIvLen + gcmTagLen := by
    rw [hlen]
    simp only [gcmIvLen, gcmTagLen]
    omega
  obtain ⟨h1, h2, h3⟩ := parts_of_append (c := data) iv.property tag.property
  refine ⟨iv.val ++ data ++ tag.val, hlen, fun e => ?_⟩
  simp only [decryptWith, hkey, hlong, ne_eq, not_true_eq_false, if_false, ofCall_some_bind, h1,
    h2, h3, hinit, hupdate]
  rcases writeAt_cases 0 out (List.replicate data.length 0) with h₁ | ⟨b₁, h₁⟩
  · rw [h₁]
    intro he
    cases he
  · rw [h₁, ok_bind, htag, ofCall_some_bind, hfinal, ofCall_some_bind]
    rcases writeAt_cases out.length out' b₁ with h₂ | ⟨b₂, h₂⟩
    · rw [h₂]
      intro he
      cases he
    · rw [h₂, ok_bind]
      rcases checkedInt_cases ((out.length : Int) + out'.length) with h₃ | ⟨z, h₃⟩
      · rw [h₃]
        intro he
        cases he
      · rw [h₃, ok_bind]
        intro he
        cases he

theorem decryptWith_refused {ciphertext : Bytes} (hrefuse : RefusesToUnseal evp ciphertext.length)
    (newCtx : Option Ctx) (key : Bytes) :
    ∃ e, decryptWith evp newCtx ciphertext key = .error (.std e) := by
  by_cases hkey : key.length = 32
  · by_cases hlong : gcmIvLen + gcmTagLen ≤ ciphertext.length
    · simp only [decryptWith, hkey, not_lt.mpr hlong, ne_eq, not_true_eq_false, if_false]
      rcases newCtx with - | ctx
      · exact ⟨_, ofCall_none_bind _ _⟩
      · rw [ofCall_some_bind]
        rcases hinit : evp.decryptInit ctx key (ivPart ciphertext) with - | ctx'
        · exact ⟨_, ofCall_none_bind _ _⟩
        · have hiv : (ivPart ciphertext).length = gcmIvLen := by
            rw [ivPart, List.length_take]
            omega
          have hmid := length_encryptedPart hlong
          have hnone := hrefuse ctx ctx' key (encryptedPart ciphertext) ⟨_, hiv⟩ hkey hinit hmid
          rw [← hmid, Nat.add_sub_cancel] at hnone
          rw [ofCall_some_bind, hnone]
          exact ⟨_, ofCall_none_bind _ _⟩
    · simp only [decryptWith, hkey, not_le.mp hlong, ne_eq, not_true_eq_false, if_false, if_true]
      exact ⟨_, rfl⟩
  · simp only [decryptWith, hkey, ne_eq, not_false_eq_true, if_true]
    exact ⟨_, rfl⟩

/-- **Which lengths `decrypt` processes.** -/
theorem unsealsWhole_iff (h : evp.Bounded) (haead : evp.Aead gcm) (hcount : evp.Counted)
    (ctx : Ctx) :
    UnsealsWhole evp gcm n ↔
      n < 2 ^ 31 + 28 ∨ (toInt (n - 28) < 0 ∧ RefusesToUnseal evp n) := by
  constructor
  · intro hwhole
    by_contra hno
    rw [not_or, not_lt] at hno
    obtain ⟨hbig, hneg⟩ := hno
    have hcast : toInt (n - 28) ≠ (n - 28 : Nat) :=
      fun e => absurd (toInt_eq_self_iff.mp e) (by omega)
    by_cases hpos : toInt (n - 28) < 0
    · apply hneg
      refine ⟨hpos, ?_⟩
      intro c c' key data iv hkey hinit hlen
      have hsub : n - 28 = data.length := by omega
      rw [hsub]
      rcases hupdate : evp.decryptUpdate c' data (toInt data.length) with - | ⟨c'', out⟩
      · rfl
      · obtain ⟨ciphertext, hclen, haccept⟩ := decryptWith_accepted hcount hkey hinit hupdate
        rcases hwhole (some c) ciphertext key (by omega) with ⟨e, he⟩ | ⟨hcount', -⟩
        · exact absurd he (haccept e)
        · exact absurd hcount' hcast
    · obtain ⟨t, ht, hle, hlt⟩ := exists_count (not_lt.mp hpos)
      obtain ⟨p, hp⟩ := decryptWith_paddedEnvelope h haead hcount ctx ht hle hlt
      have hlen := length_paddedEnvelope haead hle
      rcases hwhole _ _ _ (hlen.trans (by omega)) with ⟨e, he⟩ | ⟨hcount', -⟩
      · rw [hp] at he
        cases he
      · exact absurd hcount' hcast
  · rintro (hlt | ⟨-, hrefuse⟩) newCtx ciphertext key rfl
    · rcases hdec : decryptWith evp newCtx ciphertext key with x | p
      · obtain ⟨e, rfl⟩ := throwsStd_decryptWith h (by omega) newCtx key x hdec
        exact Or.inl ⟨e, rfl⟩
      · obtain ⟨hkey, c, rfl⟩ := exists_ctx_of_decryptWith hdec
        have henv := (decryptWith_eq_ok h haead hkey (by omega)).mp hdec
        exact Or.inr ⟨toInt_of_lt (by omega), p, rfl, henv⟩
    · exact Or.inl (decryptWith_refused hrefuse newCtx key)

end AES256GCMStrategy

open MessageProtocol AES256GCMStrategy

/-! ### All four -/

section
variable {Ctx : Type} {base64 : EvpBase64} {evp : EvpGcm Ctx}
  {gcm : Bytes → Bytes → Bytes → Bytes × Buffer 16}

/-- **Length arithmetic is exact or refused** for the lengths an `int` has room
for, and beyond them only where the count is negative and ends in an exception. -/
theorem lengths_exact_iff (hbase64 : base64.Counted) (hbounded : evp.Bounded)
    (haead : evp.Aead gcm) (hcounted : evp.Counted) (ctx : Ctx) (n : Nat) :
    (EncodesWhole base64 n ↔ n ≤ 1610612733 ∨ (-1610612740 ≤ toInt n ∧ toInt n ≤ 0)) ∧
    (DecodesWhole base64 n ↔ n < 2 ^ 31 ∨ (toInt n < 0 ∧
      ∀ text : Str, text.length = n → base64.decodeBlock text (toInt n) = none)) ∧
    (SealsWhole evp gcm n ↔ n < 2 ^ 31 ∨ (toInt n < 0 ∧ RefusesToSeal evp n)) ∧
    (UnsealsWhole evp gcm n ↔
      n < 2 ^ 31 + 28 ∨ (toInt (n - 28) < 0 ∧ RefusesToUnseal evp n)) :=
  ⟨encodesWhole_iff hbase64.toDocumented, decodesWhole_iff hbase64,
    sealsWhole_iff hbounded haead hcounted ctx, unsealsWhole_iff hbounded haead hcounted ctx⟩

theorem EvpBase64.reference_counted : EvpBase64.reference.Counted where
  toDescribed := EvpBase64.reference_described
  decodeBlock_take f n _ _ := by
    simp only [EvpBase64.reference, Int.toNat_natCast, List.take_take, Nat.min_self]

theorem EvpGcm.reference_counted : EvpGcm.reference.Counted where
  encryptUpdate_take ctx data n _ _ := by
    simp only [EvpGcm.reference, Int.toNat_natCast, List.take_take, Nat.min_self]
  decryptUpdate_take ctx data n _ _ := by
    simp only [EvpGcm.reference, Int.toNat_natCast, List.take_take, Nat.min_self]
  encryptFinal ctx ctx' data n out _ := ⟨ctx', [], keyTag ctx'.1, rfl, rfl⟩
  decryptFinal ctx ctx' data n out _ :=
    ⟨keyTag ctx'.1, (ctx'.1, (keyTag ctx'.1).val), [], rfl, if_pos rfl⟩

theorem lengths_exact_iff_reference :
    EncodesWhole .reference 5 ∧ DecodesWhole .reference 8 ∧
      SealsWhole .reference referenceGcm 5 ∧ UnsealsWhole .reference referenceGcm 33 := by
  have h := lengths_exact_iff EvpBase64.reference_counted EvpGcm.reference_bounded
    EvpGcm.reference_aead EvpGcm.reference_counted ([], [])
  exact ⟨(h 5).1.mpr (Or.inl (by decide)), (h 8).2.1.mpr (Or.inl (by decide)),
    (h 5).2.2.1.mpr (Or.inl (by decide)), (h 33).2.2.2.mpr (Or.inl (by decide))⟩

/-- Of a vector of `2^32 + 1` bytes only the first is encoded, and from 1610612734
bytes on the computation of the buffer size overflows. -/
theorem lengths_exact_not :
    base64Encode .reference (List.replicate (2 ^ 32 + 1) 0) = .ok (str "AA==") ∧
      base64Encode .reference (List.replicate 1610612734 0) = .error .undefinedBehaviour ∧
      ¬ ∀ n < 2 ^ 64, EncodesWhole .reference n ∧ DecodesWhole .reference n ∧
        SealsWhole .reference referenceGcm n ∧ UnsealsWhole .reference referenceGcm n := by
  have hone : toInt (2 ^ 32 + 1) = 1 := by decide
  have hmore : toInt 1610612734 = 1610612734 := by decide
  refine ⟨?_, ?_, fun h => ?_⟩
  · rw [base64Encode_eq_ok (replicate_ne_nil (by decide)), List.length_replicate, hone]
    refine ⟨by decide, by decide, by decide, ?_, by decide⟩
    simp only [EvpBase64.reference, List.take_replicate]
    decide
  · apply base64Encode_overflow (replicate_ne_nil (by decide))
    rw [List.length_replicate, hmore]
    exact fun hrange => absurd hrange.2 (by decide)
  · have hwhole := (h (2 ^ 32 + 1) (by decide)).1
    rw [encodesWhole_iff EvpBase64.reference_documented, hone] at hwhole
    exact absurd hwhole (by decide)

end

end Evlampy
