/-
Evlampy/Encryption.lean

`AES256GCMStrategy` and `OpenSSLKeyFactory`.  OpenSSL itself is a parameter: the
record `OpenSSL` has one function for each block of library calls between two
decisions of the code, with the first call that fails as its error, so that the
texts of the exceptions are the code's own.  Where the library draws randomness
or allocates, it takes a number that is different for every use; nothing is
assumed about how the results depend on it.

`OpenSSL.Inverts` and `OpenSSL.Sized` name what the code relies on.
-/
import Evlampy.MessageProtocol

namespace Evlampy

open Cxx

/-- Both halves as PEM texts; empty ones before there is a pair. -/
structure KeyPair where
  publicKeyPem : Str
  privateKeyPem : Str
  deriving DecidableEq

/-- A vector of a fixed size, filled by the library. -/
abbrev Buffer (size : Nat) := { b : Bytes // b.length = size }

/-! ### The library -/

/-- The calls of `AES256GCMStrategy::encrypt`, as far as they can fail. -/
inductive SealCall
  | encryptInit
  | encryptUpdate
  | encryptFinal
  | getTag

/-- The text of the exception if this call fails. -/
def SealCall.what : SealCall → String
  | encryptInit => "EVP_EncryptInit_ex failed"
  | encryptUpdate => "EVP_EncryptUpdate failed"
  | encryptFinal => "EVP_EncryptFinal_ex failed"
  | getTag => "EVP_CTRL_GCM_GET_TAG failed"

/-- The calls of `AES256GCMStrategy::decrypt`. -/
inductive UnsealCall
  | decryptInit
  | decryptUpdate
  | setTag
  | decryptFinal

/-- The text of the exception if this call fails. -/
def UnsealCall.what : UnsealCall → String
  | decryptInit => "EVP_DecryptInit_ex failed"
  | decryptUpdate => "EVP_DecryptUpdate failed"
  | setTag => "EVP_CTRL_GCM_SET_TAG failed"
  | decryptFinal => "AES-GCM tag verification failed"

/-- The calls of `generateRsaKeyPair`. -/
inductive KeygenCall
  | newContext
  | init
  | keygen
  | newBio
  | writePem

/-- The text of the exception if this call fails; two calls share that of `init`. -/
def KeygenCall.what : KeygenCall → String
  | newContext => "Failed to create RSA keygen context"
  | init => "Failed to initialize RSA key generation"
  | keygen => "Failed to generate RSA key pair"
  | newBio => "Failed to allocate BIO"
  | writePem => "Failed to write PEM key pair"

/-- The calls of `encryptWithPublicKey`. -/
inductive PublicKeyCall
  | newBio
  | readPem
  | init
  | setPadding
  | getSize
  | encrypt

/-- The text of the exception if this call fails. -/
def PublicKeyCall.what : PublicKeyCall → String
  | newBio => "Failed to create BIO for public key"
  | readPem => "Failed to parse public key PEM"
  | init => "Failed to init public key encryption"
  | setPadding => "Failed to set RSA OAEP padding"
  | getSize => "Failed to compute encrypted size"
  | encrypt => "Public key encryption failed"

/-- The calls of `decryptWithPrivateKey`. -/
inductive PrivateKeyCall
  | newBio
  | readPem
  | init
  | setPadding
  | getSize
  | decrypt

/-- The text of the exception if this call fails. -/
def PrivateKeyCall.what : PrivateKeyCall → String
  | newBio => "Failed to create BIO for private key"
  | readPem => "Failed to parse private key PEM"
  | init => "Failed to init private key decryption"
  | setPadding => "Failed to set RSA OAEP padding"
  | getSize => "Failed to compute decrypted size"
  | decrypt => "Private key decryption failed"

/-- The library.  Where it may answer differently every time, the number of the use comes first. -/
structure OpenSSL where
  base64 : EvpBase64
  /-- `EVP_CIPHER_CTX_new` returns a context. -/
  newCipherCtx : Nat → Bool
  /-- `RAND_bytes` into a buffer. -/
  randBytes : Nat → (size : Nat) → Option (Buffer size)
  /-- AES-256-GCM: key, nonce, data and the `int` length passed for it, to the
  ciphertext and the tag. -/
  sealGcm : Bytes → Bytes → Bytes → Int → Except SealCall (Bytes × Buffer 16)
  /-- The inverse: key, nonce, ciphertext, its length, and the tag. -/
  unsealGcm : Bytes → Bytes → Bytes → Int → Bytes → Except UnsealCall Bytes
  /-- RSA key generation of the given size, printed as PEM. -/
  rsaKeygen : Nat → Int → Except KeygenCall KeyPair
  /-- RSA-OAEP under a PEM text and its `int` length. -/
  rsaEncrypt : Nat → Str → Int → Bytes → Except PublicKeyCall Bytes
  rsaDecrypt : Nat → Str → Int → Bytes → Except PrivateKeyCall Bytes
  /-- `EVP_Digest` with `EVP_sha256`. -/
  sha256 : Nat → Str → Option Bytes

/-! ### `AES256GCMStrategy` -/

namespace AES256GCMStrategy

/-- `GCM_IV_LEN`. -/
def gcmIvLen : Nat := 12

/-- `GCM_TAG_LEN`. -/
def gcmTagLen : Nat := 16

variable (ssl : OpenSSL)

/-- The envelope is the nonce, the ciphertext and the tag. -/
def encrypt (n : Nat) (plaintext key : Bytes) : Except Exn Bytes :=
  if key.length ≠ 32 then .error (.std (.invalidArgument "AES-256 requires 32-byte key"))
  else if ssl.newCipherCtx n = false then
    .error (.std (.runtimeError "EVP_CIPHER_CTX_new failed"))
  else
    match ssl.randBytes n gcmIvLen with
    | none => .error (.std (.runtimeError "RAND_bytes failed"))
    | some iv =>
        -- the size is passed for an `int` parameter
        match ssl.sealGcm key iv.val plaintext (toInt plaintext.length) with
        | .error call => .error (.std (.runtimeError call.what))
        | .ok (ciphertext, tag) => .ok (iv.val ++ ciphertext ++ tag.val)

/-- The tag is checked by the last call; without it nothing that was decrypted is given out. -/
def decrypt (n : Nat) (ciphertext key : Bytes) : Except Exn Bytes :=
  if key.length ≠ 32 then .error (.std (.invalidArgument "AES-256 requires 32-byte key"))
  else if ciphertext.length < gcmIvLen + gcmTagLen then
    .error (.std (.invalidArgument "Ciphertext is too short for AES-GCM envelope"))
  else
    let iv := ciphertext.take gcmIvLen
    let tag := ciphertext.drop (ciphertext.length - gcmTagLen)
    let encrypted := (ciphertext.drop gcmIvLen).take (ciphertext.length - gcmTagLen - gcmIvLen)
    if ssl.newCipherCtx n = false then .error (.std (.runtimeError "EVP_CIPHER_CTX_new failed"))
    else
      match ssl.unsealGcm key iv encrypted (toInt encrypted.length) tag with
      | .error call => .error (.std (.runtimeError call.what))
      | .ok plaintext => .ok plaintext

end AES256GCMStrategy

/-! ### `OpenSSLKeyFactory` -/

namespace OpenSSLKeyFactory

variable (ssl : OpenSSL)

/-- The size is passed on as it is; the pair must not have an empty half. -/
def generateRsaKeyPair (n : Nat) (bits : Int) : Except Exn KeyPair :=
  match ssl.rsaKeygen n bits with
  | .error call => .error (.std (.runtimeError call.what))
  | .ok keyPair =>
      if keyPair.publicKeyPem.length = 0 ∨ keyPair.privateKeyPem.length = 0 then
        .error (.std (.runtimeError "Failed to extract PEM from BIO"))
      else .ok keyPair

/-- Random bytes. -/
def generateSymmetricKey (n size : Nat) : Except Exn Bytes :=
  match ssl.randBytes n size with
  | none => .error (.std (.runtimeError "RAND_bytes failed"))
  | some key => .ok key.val

/-- The library reads the key from the PEM text at every use. -/
def encryptWithPublicKey (n : Nat) (publicKeyPem : Str) (data : Bytes) : Except Exn Bytes :=
  match ssl.rsaEncrypt n publicKeyPem (toInt publicKeyPem.length) data with
  | .error call => .error (.std (.runtimeError call.what))
  | .ok out => .ok out

/-- As above, with the other half. -/
def decryptWithPrivateKey (n : Nat) (privateKeyPem : Str) (encryptedData : Bytes) :
    Except Exn Bytes :=
  match ssl.rsaDecrypt n privateKeyPem (toInt privateKeyPem.length) encryptedData with
  | .error call => .error (.std (.runtimeError call.what))
  | .ok out => .ok out

end OpenSSLKeyFactory

open AES256GCMStrategy OpenSSLKeyFactory

/-! ### What the code relies on -/

namespace OpenSSL

variable {ssl : OpenSSL}

/-- A key pair the key factory has made, of its default size. -/
def Generated (ssl : OpenSSL) (keyPair : KeyPair) : Prop :=
  ∃ n, generateRsaKeyPair ssl n 2048 = .ok keyPair

/-- Decryption with the matching key does not fail and inverts encryption, that of
AES-GCM for data shorter than `limit`; an RSA ciphertext is never empty.  OpenSSL
counts the data with an `int`, so that for it `limit` is `2 ^ 31` at most. -/
structure Inverts (ssl : OpenSSL) (limit : Nat) : Prop where
  rsa : ∀ keyPair, ssl.Generated keyPair → ∀ (n n' : Nat) (data c : Bytes),
    encryptWithPublicKey ssl n keyPair.publicKeyPem data = .ok c →
      c ≠ [] ∧ decryptWithPrivateKey ssl n' keyPair.privateKeyPem c = .ok data
  gcm : ∀ (key iv data c : Bytes) (tag : Buffer 16), data.length < limit →
    ssl.sealGcm key iv data (toInt data.length) = .ok (c, tag) →
      ssl.unsealGcm key iv c (toInt c.length) tag.val = .ok data
  newCipherCtx : ∀ n, ssl.newCipherCtx n = true

/-- Sizes: GCM ciphertexts are as long as the data, and RSA ciphertexts, as long
as the modulus, are within reach of the wire format. -/
structure Sized (ssl : OpenSSL) : Prop where
  gcm : ∀ (key iv data c : Bytes) (tag : Buffer 16), data.length < 2 ^ 31 →
    ssl.sealGcm key iv data data.length = .ok (c, tag) → c.length = data.length
  ungcm : ∀ key iv c tag data : Bytes, c.length < 2 ^ 31 →
    ssl.unsealGcm key iv c c.length tag = .ok data → data.length = c.length
  rsa : ∀ keyPair, ssl.Generated keyPair → ∀ (n : Nat) (data c : Bytes),
    encryptWithPublicKey ssl n keyPair.publicKeyPem data = .ok c → c.length ≤ 4096

/-- When `encrypt` returns, and what. -/
theorem encrypt_eq_ok {n : Nat} {plaintext key out : Bytes} :
    encrypt ssl n plaintext key = .ok out ↔
      key.length = 32 ∧ ssl.newCipherCtx n = true ∧
        ∃ (iv : Buffer 12) (c : Bytes) (tag : Buffer 16), ssl.randBytes n gcmIvLen = some iv ∧
          ssl.sealGcm key iv.val plaintext (toInt plaintext.length) = .ok (c, tag) ∧
          out = iv.val ++ c ++ tag.val := by
  unfold encrypt
  by_cases hkey : key.length = 32
  · rcases hctx : ssl.newCipherCtx n with - | -
    · simp [hkey]
    · rcases hiv : ssl.randBytes n gcmIvLen with - | iv
      · simp [hkey]
      · rcases hseal : ssl.sealGcm key iv.val plaintext (toInt plaintext.length) with call | ⟨c, tag⟩
        · simp only [hkey, hseal, ne_eq, not_true_eq_false, if_false, Bool.true_eq_false,
            reduceCtorEq, true_and, false_iff]
          rintro ⟨iv', c', tag', hiv', hseal', -⟩
          cases hiv'
          rw [hseal] at hseal'
          cases hseal'
        · simp only [hkey, hseal, ne_eq, not_true_eq_false, if_false, Bool.true_eq_false,
            Except.ok.injEq, true_and]
          constructor
          · rintro rfl
            exact ⟨iv, c, tag, rfl, hseal, rfl⟩
          · rintro ⟨iv', c', tag', hiv', hseal', rfl⟩
            cases hiv'
            rw [hseal] at hseal'
            cases hseal'
            rfl
  · simp [hkey]

/-- The parts of an envelope. -/
def ivPart (envelope : Bytes) : Bytes := envelope.take gcmIvLen

/-- Empty for an envelope of 28 bytes. -/
def encryptedPart (envelope : Bytes) : Bytes :=
  (envelope.drop gcmIvLen).take (envelope.length - gcmTagLen - gcmIvLen)

/-- The last sixteen bytes. -/
def tagPart (envelope : Bytes) : Bytes := envelope.drop (envelope.length - gcmTagLen)

theorem length_encryptedPart {envelope : Bytes} (h : gcmIvLen + gcmTagLen ≤ envelope.length) :
    (encryptedPart envelope).length + 28 = envelope.length := by
  simp only [gcmIvLen, gcmTagLen] at h
  rw [encryptedPart, List.length_take, List.length_drop]
  simp only [gcmIvLen, gcmTagLen]
  omega

/-- An envelope is its three parts. -/
theorem parts_append {envelope : Bytes} (h : gcmIvLen + gcmTagLen ≤ envelope.length) :
    ivPart envelope ++ encryptedPart envelope ++ tagPart envelope = envelope := by
  have hdrop : tagPart envelope = (envelope.drop gcmIvLen).drop
      (envelope.length - gcmTagLen - gcmIvLen) := by
    rw [tagPart, List.drop_drop]
    congr 1
    omega
  rw [hdrop, encryptedPart, List.append_assoc, List.take_append_drop, ivPart,
    List.take_append_drop]

/-- Three parts put together are cut out again. -/
theorem parts_of_append {iv c tag : Bytes} (hiv : iv.length = gcmIvLen)
    (htag : tag.length = gcmTagLen) :
    ivPart (iv ++ c ++ tag) = iv ∧ encryptedPart (iv ++ c ++ tag) = c ∧
      tagPart (iv ++ c ++ tag) = tag := by
  have hlen : (iv ++ c ++ tag).length = gcmIvLen + c.length + gcmTagLen := by
    rw [List.length_append, List.length_append, hiv, htag]
  refine ⟨?_, ?_, ?_⟩
  · rw [ivPart, List.append_assoc]
    exact List.take_left' hiv
  · rw [encryptedPart, hlen, List.append_assoc, show (iv ++ (c ++ tag)).drop gcmIvLen = c ++ tag
      from List.drop_left' hiv]
    apply List.take_left'
    omega
  · apply List.drop_left'
    rw [hlen, List.length_append, hiv]
    omega

/-- When `decrypt` returns, and what. -/
theorem decrypt_eq_ok {n : Nat} {ciphertext key out : Bytes} :
    decrypt ssl n ciphertext key = .ok out ↔
      key.length = 32 ∧ gcmIvLen + gcmTagLen ≤ ciphertext.length ∧ ssl.newCipherCtx n = true ∧
        ssl.unsealGcm key (ivPart ciphertext) (encryptedPart ciphertext)
          (toInt (encryptedPart ciphertext).length) (tagPart ciphertext) = .ok out := by
  unfold decrypt
  by_cases hkey : key.length = 32
  · by_cases hlong : ciphertext.length < gcmIvLen + gcmTagLen
    · simp only [hkey, hlong, ne_eq, not_true_eq_false, if_false, if_true, reduceCtorEq, true_and,
        false_iff]
      exact fun h => absurd hlong (not_lt.mpr h.1)
    · simp only [hkey, hlong, ne_eq, not_true_eq_false, if_false, not_lt.mp hlong, true_and]
      rcases hctx : ssl.newCipherCtx n with - | -
      · simp
      · simp only [Bool.true_eq_false, if_false, true_and, ivPart, encryptedPart, tagPart]
        split
        · next call hunseal => simp only [hunseal, reduceCtorEq]
        · next plaintext hunseal => simp only [hunseal, Except.ok.injEq]
  · simp [hkey]

theorem throwsStd_decrypt (ssl : OpenSSL) (n : Nat) (ciphertext key : Bytes) :
    ThrowsStd (decrypt ssl n ciphertext key) := by
  unfold decrypt
  split
  · exact throwsStd_std _
  · split
    · exact throwsStd_std _
    · dsimp only
      split
      · exact throwsStd_std _
      · split
        · exact throwsStd_std _
        · exact throwsStd_ok _

theorem throwsStd_decryptWithPrivateKey (ssl : OpenSSL) (n : Nat) (pem : Str) (data : Bytes) :
    ThrowsStd (decryptWithPrivateKey ssl n pem data) := by
  unfold decryptWithPrivateKey
  split
  · exact throwsStd_std _
  · exact throwsStd_ok _

/-- **`decrypt` inverts `encrypt`.** -/
theorem Inverts.decrypt_encrypt {limit : Nat} (h : ssl.Inverts limit) {n n' : Nat}
    {plaintext key out : Bytes} (hlen : plaintext.length < limit)
    (henc : encrypt ssl n plaintext key = .ok out) : decrypt ssl n' out key = .ok plaintext := by
  obtain ⟨hkey, -, ⟨iv, hiv⟩, c, ⟨tag, htag⟩, -, hseal, rfl⟩ := encrypt_eq_ok.mp henc
  obtain ⟨htake, hmid, hdrop⟩ := parts_of_append (c := c) hiv htag
  rw [decrypt_eq_ok, htake, hmid, hdrop]
  refine ⟨hkey, ?_, h.newCipherCtx n', h.gcm key iv plaintext c ⟨tag, htag⟩ hlen hseal⟩
  rw [List.length_append, List.length_append, hiv, htag]
  simp only [gcmTagLen, gcmIvLen]
  omega

/-- The envelope is 28 bytes longer than the plaintext. -/
theorem Sized.length_encrypt (h : ssl.Sized) {n : Nat} {plaintext key out : Bytes}
    (hlen : plaintext.length < 2 ^ 31) (henc : encrypt ssl n plaintext key = .ok out) :
    out.length = plaintext.length + 28 := by
  obtain ⟨-, -, ⟨iv, hiv⟩, c, ⟨tag, htag⟩, -, hseal, rfl⟩ := encrypt_eq_ok.mp henc
  rw [toInt_of_lt hlen] at hseal
  have hc := h.gcm _ _ _ _ _ hlen hseal
  rw [List.length_append, List.length_append, hiv, htag, hc]
  omega

theorem Sized.length_decrypt (h : ssl.Sized) {n : Nat} {envelope key out : Bytes}
    (hlen : envelope.length < 2 ^ 31) (hdec : decrypt ssl n envelope key = .ok out) :
    envelope.length = out.length + 28 := by
  obtain ⟨-, hlong, -, hunseal⟩ := decrypt_eq_ok.mp hdec
  have hmid := length_encryptedPart hlong
  rw [toInt_of_lt (by omega)] at hunseal
  rw [h.ungcm _ _ _ _ _ (by omega) hunseal, hmid]

/-- The factory gives out no empty keys. -/
theorem Generated.ne_nil {keyPair : KeyPair} (hgen : ssl.Generated keyPair) :
    keyPair.publicKeyPem ≠ [] ∧ keyPair.privateKeyPem ≠ [] := by
  obtain ⟨n, hn⟩ := hgen
  unfold generateRsaKeyPair at hn
  split at hn
  · cases hn
  · split at hn
    · cases hn
    · next hlen =>
      cases hn
      rw [not_or] at hlen
      exact ⟨fun e => hlen.1 (congrArg List.length e), fun e => hlen.2 (congrArg List.length e)⟩

end OpenSSL

end Evlampy
