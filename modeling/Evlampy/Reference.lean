/-
Evlampy/Reference.lean

An environment to run the model in.  Its files work, its ids are all different,
and its cryptography keeps the shape of the real one without its strength: an
RSA key pair is a number with `PUB` or `PRV` in front, an RSA ciphertext is that
number and the data, AES adds the key byte by byte and takes the first bytes of
the key for the tag.  Decryption with another key fails, and so does RSA
encryption of more data than fits the modulus.
-/
import Evlampy.Copies

namespace Evlampy

open Cxx OpenSSLKeyFactory

/-! ### The library -/

/-- Add the key to the data, over and over. -/
def mask (key : Bytes) : Nat → Bytes → Bytes
  | _, [] => []
  | k, b :: data => (b ^^^ key.getD (k % 32) 0) :: mask key (k + 1) data

theorem mask_mask (key : Bytes) (k : Nat) (data : Bytes) : mask key k (mask key k data) = data := by
  induction data generalizing k with
  | nil => rfl
  | cons b data ih => rw [mask, mask, ih, UInt8.xor_assoc, UInt8.xor_self, UInt8.xor_zero]

@[simp] theorem length_mask (key : Bytes) (k : Nat) (data : Bytes) :
    (mask key k data).length = data.length := by
  induction data generalizing k with
  | nil => rfl
  | cons b data ih => rw [mask, List.length_cons, List.length_cons, ih]

/-- The tag of a key. -/
def keyTag (key : Bytes) : Buffer 16 :=
  ⟨(List.range 16).map fun k => key.getD k 0, by simp⟩

/-- The number of a key, from its PEM text. -/
def readPem (kind : Str) : Str → Option UInt8
  | [x, y, z, b] => if [x, y, z] = kind then some b else none
  | _ => none

/-- What the PEM text of a public key begins with. -/
def pub : Str := [80, 85, 66]

/-- What that of a private key begins with. -/
def prv : Str := [80, 82, 86]

@[simp] theorem readPem_append (kind : Str) (h : kind.length = 3) (b : UInt8) :
    readPem kind (kind ++ [b]) = some b := by
  obtain ⟨x, y, z, rfl⟩ := List.length_eq_three.mp h
  simp [readPem]

/-- A toy library: key pairs are numbers, GCM masks the data with the key, and RSA puts the
number of the pair in front. -/
def OpenSSL.reference : OpenSSL where
  base64 := EvpBase64.reference
  newCipherCtx _ := true
  randBytes n size := some ⟨List.replicate size n.toUInt8, List.length_replicate⟩
  sealGcm key _ data _ := .ok (mask key 0 data, keyTag key)
  unsealGcm key _ data _ tag :=
    if tag = (keyTag key).val then .ok (mask key 0 data) else .error .decryptFinal
  rsaKeygen n _ := .ok ⟨pub ++ [n.toUInt8], prv ++ [n.toUInt8]⟩
  rsaEncrypt _ pem _ data :=
    match readPem pub pem with
    | none => .error .readPem
    | some b => if data.length ≤ 214 then .ok (b :: data) else .error .encrypt
  rsaDecrypt _ pem _ data :=
    match readPem prv pem, data with
    | none, _ => .error .readPem
    | some _, [] => .error .decrypt
    | some b, b' :: data => if b = b' then .ok data else .error .decrypt
  sha256 _ text := some (text.take 32 ++ List.replicate (32 - text.length) 0)

namespace OpenSSL

theorem reference_generated {keyPair : KeyPair} (h : reference.Generated keyPair) :
    ∃ b : UInt8, keyPair = ⟨pub ++ [b], prv ++ [b]⟩ := by
  obtain ⟨n, hn⟩ := h
  refine ⟨n.toUInt8, ?_⟩
  simp only [generateRsaKeyPair, reference] at hn
  split at hn
  · cases hn
  · cases hn
    rfl

theorem reference_encryptWithPublicKey {n : Nat} {b : UInt8} {data out : Bytes} :
    encryptWithPublicKey reference n (pub ++ [b]) data = .ok out ↔
      data.length ≤ 214 ∧ out = b :: data := by
  simp only [encryptWithPublicKey, reference, readPem_append pub rfl]
  by_cases h : data.length ≤ 214
  · simp [h, eq_comm]
  · simp [h]

theorem reference_inverts {limit : Nat} : reference.Inverts limit where
  rsa keyPair hgen n n' data out henc := by
    obtain ⟨b, rfl⟩ := reference_generated hgen
    obtain ⟨-, rfl⟩ := reference_encryptWithPublicKey.mp henc
    refine ⟨List.cons_ne_nil _ _, ?_⟩
    simp only [decryptWithPrivateKey, reference, readPem_append prv rfl, if_true]
  gcm key iv data c tag _ hseal := by
    cases hseal
    show (if (keyTag key).val = (keyTag key).val then _ else _) = _
    rw [if_pos rfl, mask_mask]
  newCipherCtx _ := rfl

theorem reference_sized : reference.Sized where
  gcm key iv data c tag _ hseal := by
    cases hseal
    exact length_mask key 0 data
  ungcm key iv c tag data _ hunseal := by
    simp only [reference] at hunseal
    split at hunseal
    · cases hunseal
      exact length_mask key 0 c
    · cases hunseal
  rsa keyPair hgen n data out henc := by
    obtain ⟨b, rfl⟩ := reference_generated hgen
    obtain ⟨hlen, rfl⟩ := reference_encryptWithPublicKey.mp henc
    rw [List.length_cons]
    omega

end OpenSSL

/-! ### The environment -/

namespace Env

/-- The toy library, files that work, a clock that stands and a generator that counts. -/
def reference : Env where
  ssl := OpenSSL.reference
  home := some (str "/root")
  locate path := path
  createDirectories _ _ := true
  write _ _ text := some text
  read _ _ contents := contents
  steadyClock _ := 1
  generator n := n
  systemClock _ := 0

theorem reference_filesWork {users : Set Str} : reference.FilesWork users :=
  ⟨fun _ _ => rfl, fun _ _ _ => rfl, fun _ _ _ => rfl,
    fun homeDir _ => keyFilesApart_of_injective (fun _ _ h => h) homeDir users⟩

theorem reference_freshIds {n : Nat} : reference.FreshIds n := by
  intro i _ j _ h
  exact Digits.text_injective (by decide) (by decide) (List.append_cancel_left h)

/-- Four users. -/
def names : ClientId → Str
  | 0 => str "alice"
  | 1 => str "bob"
  | 2 => str "carol"
  | _ => str "pipe|name"

/-- A disk without files. -/
def noFiles : Str → Option Str := fun _ => none

end Env

end Evlampy
