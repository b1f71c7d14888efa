/-
Evlampy/Gcm.lean

`AES256GCMStrategy` call by call: the context handed from one EVP call to the
next, the output buffers and the two-part count of what was written to them.
`encryptWith_eq` and `decryptWith_eq` show that the functions of `Encryption` are
these with the calls of one direction taken together.

Over a library that is an AEAD (`EvpGcm.Aead`), `decrypt` returns a plaintext
exactly for the envelopes `encrypt` can make of it (`envelope_iff`).
-/
import Evlampy.Reference

namespace Evlampy

open Cxx

/-! ### The library -/

/-- EVP AES-256-GCM.  A call takes the context as the calls before it have left
it and returns the one it leaves, with the bytes it has written; `none` stands
for a return value other than 1. -/
structure EvpGcm (Ctx : Type) where
  encryptInit : Ctx → Bytes → Bytes → Option Ctx
  encryptUpdate : Ctx → Bytes → Int → Option (Ctx × Bytes)
  encryptFinal : Ctx → Option (Ctx × Bytes)
  getTag : Ctx → Option (Buffer 16)
  decryptInit : Ctx → Bytes → Bytes → Option Ctx
  decryptUpdate : Ctx → Bytes → Int → Option (Ctx × Bytes)
  setTag : Ctx → Bytes → Option Ctx
  decryptFinal : Ctx → Option Bytes

/-- The result of a call, or the error for it. -/
def ofCall {ε α : Type} (e : ε) : Option α → Except ε α
  | some a => .ok a
  | none => .error e

theorem ofCall_some_bind {ε α β : Type} (e : ε) (a : α) (f : α → Except ε β) :
    (ofCall e (some a) >>= f) = f a := by simp only [ofCall, bind, Except.bind]

theorem ofCall_none_bind {ε α β : Type} (e : ε) (f : α → Except ε β) :
    (ofCall e none >>= f) = .error e := by simp only [ofCall, bind, Except.bind]

theorem ok_bind {ε α β : Type} (a : α) (f : α → Except ε β) :
    ((.ok a : Except ε α) >>= f) = f a := by simp only [bind, Except.bind]

/-- The exception for a call that has failed. -/
def callFailed (what : String) : Exn := .std (.runtimeError what)

/-- Write into a buffer from an offset on. -/
def writeAt (offset : Nat) (data buffer : Bytes) : Except Exn Bytes :=
  if offset + data.length ≤ buffer.length then
    .ok (buffer.take offset ++ data ++ buffer.drop (offset + data.length))
  else .error .undefinedBehaviour

variable {Ctx : Type}

/-! ### `AES256GCMStrategy`, call by call -/

namespace AES256GCMStrategy

/-- `encrypt`, with what `EVP_CIPHER_CTX_new` and `RAND_bytes` give. -/
def encryptWith (evp : EvpGcm Ctx) (newCtx : Option Ctx) (rand : Option (Buffer gcmIvLen))
    (plaintext key : Bytes) : Except Exn Bytes :=
  if key.length ≠ 32 then .error (.std (.invalidArgument "AES-256 requires 32-byte key"))
  else do
    let ctx ← ofCall (callFailed "EVP_CIPHER_CTX_new failed") newCtx
    let iv ← ofCall (callFailed "RAND_bytes failed") rand
    let ctx ← ofCall (callFailed SealCall.encryptInit.what) (evp.encryptInit ctx key iv.val)
    let ciphertext : Bytes := List.replicate (plaintext.length + gcmTagLen) 0
    let (ctx, out) ← ofCall (callFailed SealCall.encryptUpdate.what)
      (evp.encryptUpdate ctx plaintext (toInt plaintext.length))
    let ciphertext ← writeAt 0 out ciphertext
    let len := out.length
    let (ctx, out) ← ofCall (callFailed SealCall.encryptFinal.what) (evp.encryptFinal ctx)
    let ciphertext ← writeAt len out ciphertext
    let ciphertextLen ← checkedInt (len + out.length)
    let tag ← ofCall (callFailed SealCall.getTag.what) (evp.getTag ctx)
    return iv.val ++ ciphertext.take ciphertextLen.toNat ++ tag.val

/-- `decrypt`, with what `EVP_CIPHER_CTX_new` gives. -/
def decryptWith (evp : EvpGcm Ctx) (newCtx : Option Ctx) (ciphertext key : Bytes) :
    Except Exn Bytes :=
  if key.length ≠ 32 then .error (.std (.invalidArgument "AES-256 requires 32-byte key"))
  else if ciphertext.length < gcmIvLen + gcmTagLen then
    .error (.std (.invalidArgument "Ciphertext is too short for AES-GCM envelope"))
  else do
    let iv := OpenSSL.ivPart ciphertext
    let tag := OpenSSL.tagPart ciphertext
    let encrypted := OpenSSL.encryptedPart ciphertext
    let ctx ← ofCall (callFailed "EVP_CIPHER_CTX_new failed") newCtx
    let ctx ← ofCall (callFailed UnsealCall.decryptInit.what) (evp.decryptInit ctx key iv)
    let plaintext : Bytes := List.replicate encrypted.length 0
    let (ctx, out) ← ofCall (callFailed UnsealCall.decryptUpdate.what)
      (evp.decryptUpdate ctx encrypted (toInt encrypted.length))
    let plaintext ← writeAt 0 out plaintext
    let len := out.length
    let ctx ← ofCall (callFailed UnsealCall.setTag.what) (evp.setTag ctx tag)
    let out ← ofCall (callFailed UnsealCall.decryptFinal.what) (evp.decryptFinal ctx)
    let plaintext ← writeAt len out plaintext
    let plaintextLen ← checkedInt (len + out.length)
    return resize plaintextLen.toNat plaintext

end AES256GCMStrategy

/-! ### The calls of one direction together -/

namespace EvpGcm

/-- Initialise, encrypt, finish and fetch the tag. -/
def sealCalls (evp : EvpGcm Ctx) (ctx : Ctx) (key iv plaintext : Bytes) (inl : Int) :
    Except SealCall (Bytes × Buffer 16) := do
  let ctx ← ofCall .encryptInit (evp.encryptInit ctx key iv)
  let (ctx, out) ← ofCall .encryptUpdate (evp.encryptUpdate ctx plaintext inl)
  let (ctx, out') ← ofCall .encryptFinal (evp.encryptFinal ctx)
  let tag ← ofCall .getTag (evp.getTag ctx)
  return (out ++ out', tag)

/-- The tag is set after the data have been decrypted, and checked by the last call. -/
def unsealCalls (evp : EvpGcm Ctx) (ctx : Ctx) (key iv encrypted : Bytes) (inl : Int)
    (tag : Bytes) : Except UnsealCall Bytes := do
  let ctx ← ofCall .decryptInit (evp.decryptInit ctx key iv)
  let (ctx, out) ← ofCall .decryptUpdate (evp.decryptUpdate ctx encrypted inl)
  let ctx ← ofCall .setTag (evp.setTag ctx tag)
  let out' ← ofCall .decryptFinal (evp.decryptFinal ctx)
  return out ++ out'

/-- GCM has blocks of one byte: an update writes at most as many bytes as it is
given, and the final call no more than the updates have kept back. -/
structure Bounded (evp : EvpGcm Ctx) : Prop where
  encryptUpdate : ∀ ctx ctx' data (n : Nat) out, n ≤ data.length →
    evp.encryptUpdate ctx data n = some (ctx', out) → out.length ≤ n
  encryptFinal : ∀ ctx ctx' ctx'' data (n : Nat) out out', n ≤ data.length →
    evp.encryptUpdate ctx data n = some (ctx', out) →
    evp.encryptFinal ctx' = some (ctx'', out') → out.length + out'.length ≤ n
  decryptUpdate : ∀ ctx ctx' data (n : Nat) out, n ≤ data.length →
    evp.decryptUpdate ctx data n = some (ctx', out) → out.length ≤ n
  decryptFinal : ∀ ctx ctx' ctx'' data (n : Nat) tag out out', n ≤ data.length →
    evp.decryptUpdate ctx data n = some (ctx', out) → evp.setTag ctx' tag = some ctx'' →
    evp.decryptFinal ctx'' = some out' → out.length + out'.length ≤ n

/-- The library is the AEAD `gcm`: from a new context, sealing gives its
ciphertext and tag, and opening gives `p` for what `p` is sealed to. -/
structure Aead (evp : EvpGcm Ctx) (gcm : Bytes → Bytes → Bytes → Bytes × Buffer 16) : Prop where
  length_eq : ∀ key iv p, (gcm key iv p).1.length = p.length
  sealCalls_eq : ∀ ctx key iv p, key.length = 32 → iv.length = 12 → p.length < 2 ^ 31 →
    evp.sealCalls ctx key iv p p.length = .ok (gcm key iv p)
  unsealCalls_eq : ∀ ctx key iv c (tag : Buffer 16) p, key.length = 32 → iv.length = 12 →
    c.length < 2 ^ 31 →
    (evp.unsealCalls ctx key iv c c.length tag.val = .ok p ↔ gcm key iv p = (c, tag))

/-- The same library under the interface of `Encryption`. -/
def toOpenSSL (evp : EvpGcm Ctx) (ctx : Ctx) (ssl : OpenSSL) : OpenSSL :=
  { ssl with sealGcm := evp.sealCalls ctx, unsealGcm := evp.unsealCalls ctx }

end EvpGcm

/-! ### Buffers -/

theorem writeAt_zero {data buffer : Bytes} (h : data.length ≤ buffer.length) :
    writeAt 0 data buffer = .ok (data ++ buffer.drop data.length) := by
  rw [writeAt, if_pos (by omega), List.take_zero, List.nil_append, Nat.zero_add]

theorem writeAt_length {data data' rest : Bytes} (h : data'.length ≤ rest.length) :
    writeAt data.length data' (data ++ rest) = .ok (data ++ data' ++ rest.drop data'.length) := by
  rw [writeAt, if_pos (by rw [List.length_append]; omega), List.take_left', List.drop_append]
  · simp
  · rfl

/-- Two writes in a row, the second where the first has ended. -/
theorem writeAt_writeAt (out out' : Bytes) {size : Nat} (h : out.length + out'.length ≤ size) :
    ∃ buffer rest, writeAt 0 out (List.replicate size 0) = .ok buffer ∧
      writeAt out.length out' buffer = .ok (out ++ out' ++ rest) := by
  have hsize : out.length ≤ (List.replicate size (0 : UInt8)).length := by
    rw [List.length_replicate]
    omega
  refine ⟨_, _, writeAt_zero hsize, writeAt_length ?_⟩
  rw [List.length_drop, List.length_replicate]
  omega

/-- Shrinking a buffer to what two writes have filled. -/
theorem resize_append_append (out out' rest : Bytes) :
    resize (out.length + out'.length) (out ++ out' ++ rest) = out ++ out' := by
  have hzero : out.length + out'.length - (out ++ out' ++ rest).length = 0 := by
    rw [List.length_append, List.length_append]
    omega
  rw [resize, List.take_left' List.length_append, hzero, List.replicate_zero, List.append_nil]

theorem writeAt_cases (offset : Nat) (data buffer : Bytes) :
    writeAt offset data buffer = .error .undefinedBehaviour ∨
      ∃ buffer', writeAt offset data buffer = .ok buffer' := by
  unfold writeAt
  split
  · exact Or.inr ⟨_, rfl⟩
  · exact Or.inl rfl

theorem checkedInt_cases (z : Int) :
    checkedInt z = .error .undefinedBehaviour ∨ ∃ w, checkedInt z = .ok w := by
  unfold checkedInt
  split
  · exact Or.inr ⟨_, rfl⟩
  · exact Or.inl rfl

theorem checkedInt_add {m n : Nat} (h : m + n < 2 ^ 31) :
    checkedInt ((m : Int) + n) = .ok ((m + n : Nat) : Int) := by
  rw [checkedInt, if_pos (by omega), Nat.cast_add]

/-- A count that is not negative fits an `int` and the vector it was taken from. -/
theorem exists_count {n : Nat} (h : 0 ≤ toInt n) :
    ∃ t : Nat, toInt n = t ∧ t ≤ n ∧ t < 2 ^ 31 := by
  obtain ⟨t, ht⟩ := Int.eq_ofNat_of_zero_le h
  have hlt := toInt_lt n
  have hle : toInt n ≤ n := by
    unfold toInt
    rw [Int.bmod_def]
    split <;> omega
  exact ⟨t, ht, by omega, by omega⟩

/-! ### The two models agree -/

namespace AES256GCMStrategy

open OpenSSL

variable {evp : EvpGcm Ctx} {ctx : Ctx} {iv : Buffer gcmIvLen} {plaintext ciphertext key : Bytes}

/-- What `encrypt` makes of the outcome of its calls. -/
def sealedAs (iv : Bytes) : Except SealCall (Bytes × Buffer 16) → Except Exn Bytes
  | .error call => .error (callFailed call.what)
  | .ok (c, tag) => .ok (iv ++ c ++ tag.val)

/-- What `decrypt` makes of the outcome of its calls. -/
def unsealedAs : Except UnsealCall Bytes → Except Exn Bytes
  | .error call => .error (callFailed call.what)
  | .ok plaintext => .ok plaintext

/-- As long as the count it passes is not negative, `encrypt` writes inside its
buffer and cuts out what was written. -/
theorem encryptWith_some (h : evp.Bounded) (hkey : key.length = 32)
    (hlen : 0 ≤ toInt plaintext.length) :
    encryptWith evp (some ctx) (some iv) plaintext key =
      sealedAs iv.val (evp.sealCalls ctx key iv.val plaintext (toInt plaintext.length)) := by
  obtain ⟨t, ht, hle, hlt⟩ := exists_count hlen
  simp only [encryptWith, hkey, ne_eq, not_true_eq_false, if_false, ht, EvpGcm.sealCalls,
    ofCall_some_bind]
  rcases hinit : evp.encryptInit ctx key iv.val with - | ctx₁
  · simp only [ofCall_none_bind, sealedAs]
  · rcases hupdate : evp.encryptUpdate ctx₁ plaintext t with - | ⟨ctx₂, out⟩
    · simp only [hupdate, ofCall_some_bind, ofCall_none_bind, sealedAs]
    · have hout := h.encryptUpdate _ _ _ _ _ hle hupdate
      rcases hfinal : evp.encryptFinal ctx₂ with - | ⟨ctx₃, out'⟩
      · obtain ⟨buffer, -, hwrite, -⟩ := writeAt_writeAt out []
          (show _ ≤ plaintext.length + gcmTagLen by rw [List.length_nil]; omega)
        simp only [hupdate, hfinal, hwrite, ofCall_some_bind, ofCall_none_bind, ok_bind, sealedAs]
      · have hboth := h.encryptFinal _ _ _ _ _ _ _ hle hupdate hfinal
        obtain ⟨buffer, rest, hwrite, hwrite'⟩ := writeAt_writeAt out out'
          (show _ ≤ plaintext.length + gcmTagLen by omega)
        have hsum := checkedInt_add (m := out.length) (n := out'.length) (by omega)
        rcases htag : evp.getTag ctx₃ with - | tag
        · simp only [hupdate, hfinal, hwrite, hwrite', hsum, htag, ofCall_some_bind,
            ofCall_none_bind, ok_bind, sealedAs]
        · simp only [hupdate, hfinal, hwrite, hwrite', hsum, htag, ofCall_some_bind, ok_bind,
            Int.toNat_natCast, List.take_left' List.length_append]
          rfl

/-- The same for `decrypt`. -/
theorem decryptWith_some (h : evp.Bounded) (hkey : key.length = 32)
    (hlong : gcmIvLen + gcmTagLen ≤ ciphertext.length)
    (hlen : 0 ≤ toInt (encryptedPart ciphertext).length) :
    decryptWith evp (some ctx) ciphertext key =
      unsealedAs (evp.unsealCalls ctx key (ivPart ciphertext) (encryptedPart ciphertext)
        (toInt (encryptedPart ciphertext).length) (tagPart ciphertext)) := by
  obtain ⟨t, ht, hle, hlt⟩ := exists_count hlen
  simp only [decryptWith, hkey, not_lt.mpr hlong, ne_eq, not_true_eq_false, if_false,
    EvpGcm.unsealCalls, ofCall_some_bind, ht]
  generalize encryptedPart ciphertext = encrypted at hle ⊢
  rcases hinit : evp.decryptInit ctx key (ivPart ciphertext) with - | ctx₁
  · simp only [ofCall_none_bind, unsealedAs]
  · rcases hupdate : evp.decryptUpdate ctx₁ encrypted t with - | ⟨ctx₂, out⟩
    · simp only [hupdate, ofCall_some_bind, ofCall_none_bind, unsealedAs]
    · have hout := h.decryptUpdate _ _ _ _ _ hle hupdate
      obtain ⟨buffer, -, hwrite, -⟩ := writeAt_writeAt out []
        (show _ ≤ encrypted.length by rw [List.length_nil]; omega)
      rcases htag : evp.setTag ctx₂ (tagPart ciphertext) with - | ctx₃
      · simp only [hupdate, htag, hwrite, ofCall_some_bind, ofCall_none_bind, ok_bind, unsealedAs]
      · rcases hfinal : evp.decryptFinal ctx₃ with - | out'
        · simp only [hupdate, htag, hwrite, hfinal, ofCall_some_bind, ofCall_none_bind, ok_bind,
            unsealedAs]
        · have hboth := h.decryptFinal _ _ _ _ _ _ _ _ hle hupdate htag hfinal
          obtain ⟨buffer', rest, hwrite₁, hwrite₂⟩ := writeAt_writeAt out out'
            (show _ ≤ encrypted.length by omega)
          have hsum := checkedInt_add (m := out.length) (n := out'.length) (by omega)
          simp only [hupdate, htag, hwrite₁, hwrite₂, hfinal, hsum, ofCall_some_bind, ok_bind,
            Int.toNat_natCast, resize_append_append]
          rfl

/-- **`encrypt` call by call** is the `encrypt` of a library whose calls are
taken together. -/
theorem encryptWith_eq (h : evp.Bounded) (ctx : Ctx) (ssl : OpenSSL) (n : Nat)
    (hlen : 0 ≤ toInt plaintext.length) :
    encryptWith evp (if ssl.newCipherCtx n then some ctx else none) (ssl.randBytes n gcmIvLen)
      plaintext key = encrypt (evp.toOpenSSL ctx ssl) n plaintext key := by
  by_cases hkey : key.length = 32
  · rcases hctx : ssl.newCipherCtx n with - | -
    · simp [encryptWith, encrypt, EvpGcm.toOpenSSL, hkey, hctx, ofCall_none_bind, callFailed]
    · rcases hiv : ssl.randBytes n gcmIvLen with - | iv
      · simp [encryptWith, encrypt, EvpGcm.toOpenSSL, hkey, hctx, hiv, ofCall_some_bind,
          ofCall_none_bind, callFailed]
      · rw [if_pos rfl, encryptWith_some h hkey hlen]
        simp only [encrypt, EvpGcm.toOpenSSL, hkey, hctx, hiv, ne_eq, not_true_eq_false, if_false,
          Bool.true_eq_false]
        rcases evp.sealCalls ctx key iv.val plaintext (toInt plaintext.length) with call | ⟨c, tag⟩
        · rfl
        · rfl
  · simp [encryptWith, encrypt, hkey]

/-- **`decrypt` call by call** is the `decrypt` of a library whose calls are
taken together. -/
theorem decryptWith_eq (h : evp.Bounded) (ctx : Ctx) (ssl : OpenSSL) (n : Nat)
    (hlen : 0 ≤ toInt (encryptedPart ciphertext).length) :
    decryptWith evp (if ssl.newCipherCtx n then some ctx else none) ciphertext key
      = decrypt (evp.toOpenSSL ctx ssl) n ciphertext key := by
  by_cases hkey : key.length = 32
  · by_cases hlong : gcmIvLen + gcmTagLen ≤ ciphertext.length
    · rcases hctx : ssl.newCipherCtx n with - | -
      · simp [decryptWith, decrypt, EvpGcm.toOpenSSL, hkey, not_lt.mpr hlong, hctx,
          ofCall_none_bind, callFailed]
      · rw [if_pos rfl, decryptWith_some h hkey hlong hlen]
        simp only [decrypt, EvpGcm.toOpenSSL, hkey, not_lt.mpr hlong, hctx, ne_eq,
          not_true_eq_false, if_false, Bool.true_eq_false]
        rw [← ivPart, ← encryptedPart, ← tagPart]
        rcases evp.unsealCalls ctx key (ivPart ciphertext) (encryptedPart ciphertext)
          (toInt (encryptedPart ciphertext).length) (tagPart ciphertext) with call | out
        · rfl
        · rfl
    · simp [decryptWith, decrypt, hkey, not_le.mp hlong]
  · simp [decryptWith, decrypt, hkey]

/-! ### Envelopes -/

variable {gcm : Bytes → Bytes → Bytes → Bytes × Buffer 16}

/-- `c` is the plaintext `p` in an envelope, under some nonce. -/
def Envelope (gcm : Bytes → Bytes → Bytes → Bytes × Buffer 16) (key p c : Bytes) : Prop :=
  ∃ (iv : Buffer 12) (ct : Bytes) (tag : Buffer 16),
    gcm key iv.val p = (ct, tag) ∧ c = iv.val ++ ct ++ tag.val

theorem Envelope.length_eq (haead : evp.Aead gcm) {p c : Bytes} (h : Envelope gcm key p c) :
    c.length = p.length + 28 := by
  obtain ⟨⟨iv, hiv⟩, ct, ⟨tag, htag⟩, hgcm, rfl⟩ := h
  have hlen := haead.length_eq key iv p
  rw [hgcm] at hlen
  simp only [List.length_append, hiv, htag, hlen]
  omega

/-- What `encrypt` returns. -/
theorem encryptWith_eq_ok (h : evp.Bounded) (haead : evp.Aead gcm) {newCtx : Option Ctx}
    {rand : Option (Buffer gcmIvLen)} {out : Bytes} (hkey : key.length = 32)
    (hlen : plaintext.length < 2 ^ 31) :
    encryptWith evp newCtx rand plaintext key = .ok out ↔
      (∃ ctx, newCtx = some ctx) ∧ ∃ iv, rand = some iv ∧
        out = iv.val ++ (gcm key iv.val plaintext).1 ++ (gcm key iv.val plaintext).2.val := by
  rcases newCtx with - | ctx
  · simp [encryptWith, hkey, ofCall_none_bind]
  · rcases rand with - | iv
    · simp [encryptWith, hkey, ofCall_some_bind, ofCall_none_bind]
    · rw [encryptWith_some h hkey (by rw [toInt_of_lt hlen]; omega), toInt_of_lt hlen,
        haead.sealCalls_eq ctx key iv.val plaintext hkey iv.property hlen]
      constructor
      · intro hout
        exact ⟨⟨ctx, rfl⟩, iv, rfl, (Except.ok.inj hout).symm⟩
      · rintro ⟨-, iv', hiv', rfl⟩
        cases hiv'
        rfl

/-- What `decrypt` returns. -/
theorem decryptWith_eq_ok (h : evp.Bounded) (haead : evp.Aead gcm) {p : Bytes}
    (hkey : key.length = 32) (hlen : ciphertext.length < 2 ^ 31 + 28) :
    decryptWith evp (some ctx) ciphertext key = .ok p ↔ Envelope gcm key p ciphertext := by
  by_cases hlong : gcmIvLen + gcmTagLen ≤ ciphertext.length
  · have hmid := length_encryptedPart hlong
    have hsize : toInt (encryptedPart ciphertext).length = (encryptedPart ciphertext).length :=
      toInt_of_lt (by omega)
    have hiv : (ivPart ciphertext).length = 12 := by
      simp only [gcmIvLen, gcmTagLen] at hlong
      rw [ivPart, List.length_take]
      simp only [gcmIvLen]
      omega
    have htag : (tagPart ciphertext).length = 16 := by
      simp only [gcmIvLen, gcmTagLen] at hlong
      rw [tagPart, List.length_drop]
      simp only [gcmTagLen]
      omega
    have hopen := haead.unsealCalls_eq ctx key (ivPart ciphertext) (encryptedPart ciphertext)
      ⟨tagPart ciphertext, htag⟩ p hkey hiv (by omega)
    rw [decryptWith_some h hkey hlong (by rw [hsize]; omega), hsize]
    constructor
    · intro hdec
      have hcalls : evp.unsealCalls ctx key (ivPart ciphertext) (encryptedPart ciphertext)
          (encryptedPart ciphertext).length (tagPart ciphertext) = .ok p := by
        rcases hr : evp.unsealCalls ctx key (ivPart ciphertext) (encryptedPart ciphertext)
          (encryptedPart ciphertext).length (tagPart ciphertext) with call | q
        · rw [hr] at hdec
          cases hdec
        · rw [hr] at hdec
          rw [Except.ok.inj hdec]
      exact ⟨⟨_, hiv⟩, _, ⟨_, htag⟩, hopen.mp hcalls, (parts_append hlong).symm⟩
    · rintro ⟨⟨iv, hiv'⟩, ct, ⟨tag, htag'⟩, hgcm, hc⟩
      -- the parts of the envelope are those it was put together from
      obtain ⟨h1, h2, h3⟩ := parts_of_append (c := ct) hiv' htag'
      rw [← hc] at h1 h2 h3
      simp only [h1, h2, h3] at hopen ⊢
      rw [hopen.mpr hgcm]
      rfl
  · have hshort := not_le.mp hlong
    constructor
    · intro hdec
      simp [decryptWith, hkey, hshort] at hdec
    · intro henv
      have hc := henv.length_eq haead
      simp only [gcmIvLen, gcmTagLen] at hshort
      omega

/-- Nothing is decrypted without a context. -/
theorem exists_ctx_of_decryptWith {newCtx : Option Ctx} {p : Bytes}
    (h : decryptWith evp newCtx ciphertext key = .ok p) :
    key.length = 32 ∧ ∃ ctx, newCtx = some ctx := by
  unfold decryptWith at h
  split at h
  · cases h
  · next hkey =>
    split at h
    · cases h
    · rcases newCtx with - | ctx
      · cases h
      · exact ⟨not_not.mp hkey, ctx, rfl⟩

theorem throwsStd_decryptWith (h : evp.Bounded) (hlen : ciphertext.length < 2 ^ 31 + 28)
    (newCtx : Option Ctx) (key : Bytes) : ThrowsStd (decryptWith evp newCtx ciphertext key) := by
  by_cases hkey : key.length = 32
  · by_cases hlong : gcmIvLen + gcmTagLen ≤ ciphertext.length
    · rcases newCtx with - | ctx
      · simp only [decryptWith, hkey, not_lt.mpr hlong, ne_eq, not_true_eq_false, if_false,
          ofCall_none_bind]
        exact throwsStd_std _
      · have hmid := length_encryptedPart hlong
        rw [decryptWith_some h hkey hlong (by rw [toInt_of_lt (by omega)]; omega)]
        rcases evp.unsealCalls ctx key (ivPart ciphertext) (encryptedPart ciphertext)
          (toInt (encryptedPart ciphertext).length) (tagPart ciphertext) with call | out
        · exact throwsStd_std _
        · exact throwsStd_ok _
    · simp only [decryptWith, hkey, not_le.mp hlong, ne_eq, not_true_eq_false, if_false, if_true]
      exact throwsStd_std _
  · simp only [decryptWith, hkey, ne_eq, not_false_eq_true, if_true]
    exact throwsStd_std _

/-- **The envelope decodes exactly what it encodes.**  `decrypt` returns `p` for
the envelopes of `p`, which are the possible outputs of `encrypt`; it throws on
whatever is no envelope, on everything shorter than 28 bytes and under keys of
another size; and it gives back what was encrypted. -/
theorem envelope_iff (h : evp.Bounded) (haead : evp.Aead gcm) (ctx : Ctx) :
    (∀ key c p : Bytes, key.length = 32 → c.length < 2 ^ 31 → p.length + 28 < 2 ^ 31 →
      (decryptWith evp (some ctx) c key = .ok p ↔
        ∃ (iv : Buffer 12) (ct : Bytes) (tag : Buffer 16),
          gcm key iv.val p = (ct, tag) ∧ c = iv.val ++ ct ++ tag.val) ∧
      (decryptWith evp (some ctx) c key = .ok p ↔
        ∃ newCtx rand, encryptWith evp newCtx rand p key = .ok c)) ∧
    (∀ key c : Bytes, key.length = 32 → c.length < 2 ^ 31 →
      (∀ p : Bytes, p.length + 28 < 2 ^ 31 → ¬ ∃ (iv : Buffer 12) (ct : Bytes) (tag : Buffer 16),
        gcm key iv.val p = (ct, tag) ∧ c = iv.val ++ ct ++ tag.val) →
      ∃ e, decryptWith evp (some ctx) c key = .error (.std e)) ∧
    (∀ (newCtx : Option Ctx) (key c : Bytes), key.length ≠ 32 ∨ c.length < 28 →
      ∃ e, decryptWith evp newCtx c key = .error (.std e)) ∧
    ∀ key p : Bytes, key.length = 32 → p.length + 28 < 2 ^ 31 →
      ∀ (ctx' : Ctx) (iv : Buffer gcmIvLen), ∃ c,
        encryptWith evp (some ctx') (some iv) p key = .ok c ∧
          decryptWith evp (some ctx) c key = .ok p := by
  refine ⟨fun key c p hkey hc hp => ⟨decryptWith_eq_ok h haead hkey (by omega), ?_⟩, ?_, ?_, ?_⟩
  · rw [decryptWith_eq_ok h haead hkey (by omega)]
    constructor
    · rintro ⟨iv, ct, tag, hgcm, rfl⟩
      refine ⟨some ctx, some iv, (encryptWith_eq_ok h haead hkey (by omega)).mpr ?_⟩
      exact ⟨⟨ctx, rfl⟩, iv, rfl, by rw [hgcm]⟩
    · rintro ⟨newCtx, rand, henc⟩
      obtain ⟨-, iv, -, rfl⟩ := (encryptWith_eq_ok h haead hkey (by omega)).mp henc
      exact ⟨iv, _, _, rfl, rfl⟩
  · intro key c hkey hc hno
    apply (throwsStd_decryptWith h (by omega) (some ctx) key).exists_error
    intro p hp
    -- what is decrypted is an envelope of that text, and as long as one
    have henv := (decryptWith_eq_ok h haead hkey (by omega)).mp hp
    have hlen := henv.length_eq haead
    exact hno p (by omega) henv
  · rintro newCtx key c (hkey | hshort)
    · exact ⟨_, by simp only [decryptWith, hkey, ne_eq, not_false_eq_true, if_true]; rfl⟩
    · by_cases hkey : key.length = 32
      · refine ⟨.invalidArgument "Ciphertext is too short for AES-GCM envelope", ?_⟩
        have hlt : c.length < gcmIvLen + gcmTagLen := hshort
        simp only [decryptWith, hkey, hlt, ne_eq, not_true_eq_false, if_false, if_true]
      · exact ⟨_, by simp only [decryptWith, hkey, ne_eq, not_false_eq_true, if_true]; rfl⟩
  · intro key p hkey hp ctx' iv
    -- what is encrypted is an envelope, hence decrypted to the same text
    have henv : Envelope gcm key p
        (iv.val ++ (gcm key iv.val p).1 ++ (gcm key iv.val p).2.val) := ⟨iv, _, _, rfl, rfl⟩
    have hlen := henv.length_eq haead
    refine ⟨_, (encryptWith_eq_ok h haead hkey (by omega)).mpr ⟨⟨ctx', rfl⟩, iv, rfl, rfl⟩, ?_⟩
    exact (decryptWith_eq_ok h haead hkey (by omega)).mpr henv

end AES256GCMStrategy

/-! ### A library to run -/

/-- A context is the key and the tag to compare with. -/
def EvpGcm.reference : EvpGcm (Bytes × Bytes) where
  encryptInit _ key _ := some (key, [])
  encryptUpdate ctx data n := if n < 0 then none else some (ctx, mask ctx.1 0 (data.take n.toNat))
  encryptFinal ctx := some (ctx, [])
  getTag ctx := some (keyTag ctx.1)
  decryptInit _ key _ := some (key, [])
  decryptUpdate ctx data n := if n < 0 then none else some (ctx, mask ctx.1 0 (data.take n.toNat))
  setTag ctx tag := some (ctx.1, tag)
  decryptFinal ctx := if ctx.2 = (keyTag ctx.1).val then some [] else none

/-- What it computes. -/
def referenceGcm (key _iv p : Bytes) : Bytes × Buffer 16 := (mask key 0 p, keyTag key)

theorem EvpGcm.reference_update {ctx ctx' : Bytes × Bytes} {data out : Bytes} {n : Nat}
    (h : reference.encryptUpdate ctx data n = some (ctx', out)) :
    ctx' = ctx ∧ out = mask ctx.1 0 (data.take n) := by
  simp only [reference, not_lt.mpr (Int.natCast_nonneg n), if_false, Option.some.injEq,
    Prod.mk.injEq, Int.toNat_natCast] at h
  exact ⟨h.1.symm, h.2.symm⟩

theorem EvpGcm.reference_bounded : reference.Bounded := by
  have hlen : ∀ {ctx ctx' : Bytes × Bytes} {data out : Bytes} {n : Nat},
      reference.encryptUpdate ctx data n = some (ctx', out) → out.length ≤ n := by
    intro ctx ctx' data out n hout
    rw [(reference_update hout).2, length_mask, List.length_take]
    exact min_le_left _ _
  constructor
  · intro ctx ctx' data n out _ hout
    exact hlen hout
  · intro ctx ctx' ctx'' data n out out' _ hout hfinal
    cases hfinal
    exact hlen hout
  · intro ctx ctx' data n out _ hout
    exact hlen (show reference.encryptUpdate ctx data n = some (ctx', out) from hout)
  · intro ctx ctx' ctx'' data n tag out out' _ hout _ hfinal
    have hnil : out' = [] := by
      simp only [reference] at hfinal
      split at hfinal
      · exact (Option.some.inj hfinal).symm
      · cases hfinal
    rw [hnil]
    exact hlen (show reference.encryptUpdate ctx data n = some (ctx', out) from hout)

theorem EvpGcm.reference_aead : reference.Aead referenceGcm where
  length_eq key _ p := length_mask key 0 p
  sealCalls_eq ctx key iv p _ _ _ := by
    have hnn : ¬ (p.length : Int) < 0 := by omega
    simp [sealCalls, reference, referenceGcm, ofCall_some_bind, pure, Except.pure, hnn]
  unsealCalls_eq ctx key iv c tag p _ _ _ := by
    have hnn : ¬ (c.length : Int) < 0 := by omega
    have hmask : mask key 0 c = p ↔ mask key 0 p = c := by
      constructor
      · rintro rfl
        exact mask_mask key 0 c
      · rintro rfl
        exact mask_mask key 0 p
    by_cases htag : tag.val = (keyTag key).val
    · have htag' : keyTag key = tag := (Subtype.ext htag).symm
      simp [unsealCalls, reference, referenceGcm, ofCall_some_bind, pure, Except.pure, hnn, htag',
        hmask]
    · have htag' : keyTag key ≠ tag := fun e => htag (by rw [e])
      simp only [unsealCalls, reference, referenceGcm, hnn, htag, htag', if_false,
        ofCall_some_bind, ofCall_none_bind, reduceCtorEq, Prod.mk.injEq, and_false]

open AES256GCMStrategy in
theorem AES256GCMStrategy.envelope_iff_greeting :
    ∃ c, encryptWith .reference (some ([], [])) (some ⟨List.replicate 12 5, rfl⟩) (str "hello")
        (List.replicate 32 7) = .ok c ∧
      decryptWith .reference (some ([], [])) c (List.replicate 32 7) = .ok (str "hello") :=
  (envelope_iff EvpGcm.reference_bounded EvpGcm.reference_aead ([], [])).2.2.2
    (List.replicate 32 7) (str "hello") (by decide) (by decide) ([], []) ⟨List.replicate 12 5, rfl⟩

end Evlampy
