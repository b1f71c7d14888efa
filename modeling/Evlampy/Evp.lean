/-
Evlampy/Evp.lean

`AES256GCMStrategy` and `OpenSSLKeyFactory` with all their calls of OpenSSL, those that
make and free contexts, keys and BIOs among them, and with the allocations of their
vectors, which may throw `std::bad_alloc`.  The answers are up to the library.

The key factory holds its objects in `std::unique_ptr`s: whatever fails, every object is
freed (`keyFactory_releases`).  `AES256GCMStrategy` frees its context by hand where a call
fails, but not where a vector cannot be allocated, and there the context is lost
(`contexts_released`).
-/
import Evlampy.Gcm
import Evlampy.Ownership

namespace Evlampy

open Cxx Callback Prog Ownership

namespace Evp

/-! ### The library -/

/-- The objects of the library, by type and address. -/
inductive Object
  | cipherCtx (p : Nat)
  | pkeyCtx (p : Nat)
  | pkey (p : Nat)
  | bio (p : Nat)
  deriving DecidableEq

/-- The calls.  `vector` is the allocation of the storage of a vector or a string. -/
inductive Fn
  | vector (size : Nat)
  | randBytes (size : Nat)
  | cipherCtxNew
  | cipherCtxFree (ctx : Nat)
  | encryptInit (ctx : Nat) (key iv : Bytes)
  | encryptUpdate (ctx : Nat) (data : Bytes) (inl : Int)
  | encryptFinal (ctx : Nat)
  | getTag (ctx : Nat)
  | decryptInit (ctx : Nat) (key iv : Bytes)
  | decryptUpdate (ctx : Nat) (data : Bytes) (inl : Int)
  | setTag (ctx : Nat) (tag : Bytes)
  | decryptFinal (ctx : Nat)
  | pkeyCtxNewId
  | pkeyCtxNew (pkey : Nat)
  | pkeyCtxFree (ctx : Nat)
  | keygenInit (ctx : Nat)
  | setKeygenBits (ctx : Nat) (bits : Int)
  | keygen (ctx : Nat)
  | pkeyFree (pkey : Nat)
  | bioNew
  | bioNewMemBuf (text : Str) (len : Int)
  | bioFree (bio : Nat)
  | writePubkey (bio pkey : Nat)
  | writePrivateKey (bio pkey : Nat)
  | getMemData (bio : Nat)
  | readPubkey (bio : Nat)
  | readPrivateKey (bio : Nat)
  | pkeyEncryptInit (ctx : Nat)
  | pkeyDecryptInit (ctx : Nat)
  | setRsaPadding (ctx : Nat)
  | pkeyEncryptSize (ctx : Nat) (data : Bytes)
  | pkeyEncrypt (ctx : Nat) (data : Bytes) (outLen : Nat)
  | pkeyDecryptSize (ctx : Nat) (data : Bytes)
  | pkeyDecrypt (ctx : Nat) (data : Bytes) (outLen : Nat)

/-- The answers: `none` is a null pointer, or a return value for failure.  A BIO without
data answers with the empty text. -/
abbrev Fn.Res : Fn → Type
  | vector _ => Bool
  | randBytes size => Option (Buffer size)
  | cipherCtxNew | pkeyCtxNewId | pkeyCtxNew _ | keygen _ | bioNew | bioNewMemBuf .. => Option Nat
  | readPubkey _ | readPrivateKey _ => Option Nat
  | cipherCtxFree _ | pkeyCtxFree _ | pkeyFree _ | bioFree _ => Unit
  | encryptInit .. | decryptInit .. | setTag .. | keygenInit _ | setKeygenBits .. => Option Unit
  | writePubkey .. | writePrivateKey .. | pkeyEncryptInit _ | pkeyDecryptInit _ => Option Unit
  | setRsaPadding _ => Option Unit
  | encryptUpdate .. | encryptFinal _ | decryptUpdate .. | decryptFinal _ => Option Bytes
  | getTag _ => Option (Buffer 16)
  | getMemData _ => Str
  | pkeyEncryptSize .. | pkeyDecryptSize .. => Option Nat
  | pkeyEncrypt .. | pkeyDecrypt .. => Option Bytes

/-- What is thrown. -/
inductive Thrown
  | exn (e : Exn)
  | badAlloc

/-- Code that calls OpenSSL; there is nobody to notify. -/
abbrev Code (α : Type) := Prog Fn Fn.Res Empty Thrown α

/-- The deleter of each type. -/
def Object.free : Object → Fn
  | cipherCtx p => .cipherCtxFree p
  | pkeyCtx p => .pkeyCtxFree p
  | pkey p => .pkeyFree p
  | bio p => .bioFree p

/-- What the calls do with objects. -/
def library : Library Fn Fn.Res Object where
  uses
    | .encryptInit ctx .. | .encryptUpdate ctx .. => [.cipherCtx ctx]
    | .encryptFinal ctx | .getTag ctx => [.cipherCtx ctx]
    | .decryptInit ctx .. | .decryptUpdate ctx .. => [.cipherCtx ctx]
    | .setTag ctx _ | .decryptFinal ctx => [.cipherCtx ctx]
    | .keygenInit ctx | .setKeygenBits ctx _ | .keygen ctx => [.pkeyCtx ctx]
    | .pkeyCtxNew pkey => [.pkey pkey]
    | .writePubkey bio pkey | .writePrivateKey bio pkey => [.bio bio, .pkey pkey]
    | .getMemData bio | .readPubkey bio | .readPrivateKey bio => [.bio bio]
    | .pkeyEncryptInit ctx | .pkeyDecryptInit ctx | .setRsaPadding ctx => [.pkeyCtx ctx]
    | .pkeyEncryptSize ctx _ | .pkeyEncrypt ctx .. => [.pkeyCtx ctx]
    | .pkeyDecryptSize ctx _ | .pkeyDecrypt ctx .. => [.pkeyCtx ctx]
    | _ => []
  frees
    | .cipherCtxFree p => some (.cipherCtx p)
    | .pkeyCtxFree p => some (.pkeyCtx p)
    | .pkeyFree p => some (.pkey p)
    | .bioFree p => some (.bio p)
    | _ => none
  makes
    | .cipherCtxNew, r => r.map .cipherCtx
    | .pkeyCtxNewId, r => r.map .pkeyCtx
    | .pkeyCtxNew _, r => r.map .pkeyCtx
    | .keygen _, r => r.map .pkey
    | .bioNew, r => r.map .bio
    | .bioNewMemBuf .., r => r.map .bio
    | .readPubkey _, r => r.map .pkey
    | .readPrivateKey _, r => r.map .pkey
    | _, _ => none

theorem destroys_free (o : Object) : Destroys library o.free o := by
  cases o <;> exact ⟨fun _ => rfl, rfl, rfl⟩

/-! ### Pieces -/

/-- A call, with its answer. -/
abbrev call (f : Fn) : Code f.Res := act f

/-- The storage of a vector of `size` elements; for none of them nothing is allocated.  A
short string needs none either, but is taken to need some. -/
def vector (size : Nat) : Code Unit :=
  if size = 0 then pure ()
  else do
    if ← call (.vector size) then pure () else .throw .badAlloc

/-- The exception for a call that has failed. -/
def failed (what : String) : Thrown := .exn (callFailed what)

/-- What a call gives, or the exception for it. -/
def orThrow {α : Type} (what : String) : Option α → Code α
  | some a => pure a
  | none => .throw (failed what)

/-- What a call gives; if it has failed, the context is freed. -/
def orFree {α : Type} (ctx : Nat) (what : String) : Option α → Code α
  | some a => pure a
  | none => do
      call (.cipherCtxFree ctx)
      .throw (failed what)

/-- A pure step that may be undefined. -/
def pureStep {α : Type} : Except Exn α → Code α
  | .ok a => pure a
  | .error x => .throw (.exn x)

/-! ### `AES256GCMStrategy` -/

section Gcm

open AES256GCMStrategy

/-- The context is freed by hand, on every path but those an allocation may cut off. -/
def encrypt (plaintext key : Bytes) : Code Bytes :=
  if key.length ≠ 32 then
    .throw (.exn (.std (.invalidArgument "AES-256 requires 32-byte key")))
  else do
    let ctx ← orThrow "EVP_CIPHER_CTX_new failed" (← call .cipherCtxNew)
    vector gcmIvLen
    let iv ← orFree ctx "RAND_bytes failed" (← call (.randBytes gcmIvLen))
    orFree ctx SealCall.encryptInit.what (← call (.encryptInit ctx key iv.val))
    vector (plaintext.length + gcmTagLen)
    let ciphertext : Bytes := List.replicate (plaintext.length + gcmTagLen) 0
    let out ← orFree ctx SealCall.encryptUpdate.what
      (← call (.encryptUpdate ctx plaintext (toInt plaintext.length)))
    let ciphertext ← pureStep (writeAt 0 out ciphertext)
    let len := out.length
    let out ← orFree ctx SealCall.encryptFinal.what (← call (.encryptFinal ctx))
    let ciphertext ← pureStep (writeAt len out ciphertext)
    let ciphertextLen ← pureStep (checkedInt (len + out.length))
    vector gcmTagLen
    let tag ← orFree ctx SealCall.getTag.what (← call (.getTag ctx))
    call (.cipherCtxFree ctx)
    let result := iv.val ++ ciphertext.take ciphertextLen.toNat ++ tag.val
    vector result.length
    return result

/-- Three vectors are made before there is a context, and one after. -/
def decrypt (ciphertext key : Bytes) : Code Bytes :=
  if key.length ≠ 32 then
    .throw (.exn (.std (.invalidArgument "AES-256 requires 32-byte key")))
  else if ciphertext.length < gcmIvLen + gcmTagLen then
    .throw (.exn (.std (.invalidArgument "Ciphertext is too short for AES-GCM envelope")))
  else do
    vector gcmIvLen
    let iv := OpenSSL.ivPart ciphertext
    vector gcmTagLen
    let tag := OpenSSL.tagPart ciphertext
    let encrypted := OpenSSL.encryptedPart ciphertext
    vector encrypted.length
    let ctx ← orThrow "EVP_CIPHER_CTX_new failed" (← call .cipherCtxNew)
    orFree ctx UnsealCall.decryptInit.what (← call (.decryptInit ctx key iv))
    vector encrypted.length
    let plaintext : Bytes := List.replicate encrypted.length 0
    let out ← orFree ctx UnsealCall.decryptUpdate.what
      (← call (.decryptUpdate ctx encrypted (toInt encrypted.length)))
    let plaintext ← pureStep (writeAt 0 out plaintext)
    let len := out.length
    orFree ctx UnsealCall.setTag.what (← call (.setTag ctx tag))
    let final ← call (.decryptFinal ctx)
    call (.cipherCtxFree ctx)
    let out ← orThrow UnsealCall.decryptFinal.what final
    let plaintext ← pureStep (writeAt len out plaintext)
    let plaintextLen ← pureStep (checkedInt (len + out.length))
    return resize plaintextLen.toNat plaintext

end Gcm

/-! ### `OpenSSLKeyFactory` -/

/-- A `std::unique_ptr`: the object is freed at the end of the scope. -/
abbrev uniquePtr {α : Type} (o : Option Object) (p : Code α) : Code α := scope Object.free p o

/-- Each object is in the hands of a `std::unique_ptr` before the next is made. -/
def generateRsaKeyPair (bits : Int) : Code KeyPair := do
  let keygenCtx ← call .pkeyCtxNewId
  uniquePtr (keygenCtx.map .pkeyCtx) do
    let ctx ← orThrow KeygenCall.newContext.what keygenCtx
    orThrow KeygenCall.init.what (← call (.keygenInit ctx))
    orThrow KeygenCall.init.what (← call (.setKeygenBits ctx bits))
    let rawKey ← call (.keygen ctx)
    uniquePtr (rawKey.map .pkey) do
      let pkey ← orThrow KeygenCall.keygen.what rawKey
      let pubBio ← call .bioNew
      uniquePtr (pubBio.map .bio) do
        let privBio ← call .bioNew
        uniquePtr (privBio.map .bio) do
          let pubBio ← orThrow KeygenCall.newBio.what pubBio
          let privBio ← orThrow KeygenCall.newBio.what privBio
          orThrow KeygenCall.writePem.what (← call (.writePubkey pubBio pkey))
          orThrow KeygenCall.writePem.what (← call (.writePrivateKey privBio pkey))
          let pub ← call (.getMemData pubBio)
          let priv ← call (.getMemData privBio)
          if pub.length = 0 ∨ priv.length = 0 then
            .throw (failed "Failed to extract PEM from BIO")
          else do
            vector pub.length
            vector priv.length
            return ⟨pub, priv⟩

/-- Without objects of the library. -/
def generateSymmetricKey (size : Nat) : Code Bytes := do
  vector size
  let key ← orThrow "RAND_bytes failed" (← call (.randBytes size))
  return key.val

/-- The buffer of the PEM text, the key and the context, one inside the other. -/
def encryptWithPublicKey (publicKeyPem : Str) (data : Bytes) : Code Bytes := do
  let bio ← call (.bioNewMemBuf publicKeyPem (toInt publicKeyPem.length))
  uniquePtr (bio.map .bio) do
    let bio ← orThrow PublicKeyCall.newBio.what bio
    let pkey ← call (.readPubkey bio)
    uniquePtr (pkey.map .pkey) do
      let pkey ← orThrow PublicKeyCall.readPem.what pkey
      let ctx ← call (.pkeyCtxNew pkey)
      uniquePtr (ctx.map .pkeyCtx) do
        let ctx ← orThrow PublicKeyCall.init.what ctx
        orThrow PublicKeyCall.init.what (← call (.pkeyEncryptInit ctx))
        orThrow PublicKeyCall.setPadding.what (← call (.setRsaPadding ctx))
        let outLen ← orThrow PublicKeyCall.getSize.what (← call (.pkeyEncryptSize ctx data))
        vector outLen
        let out ← orThrow PublicKeyCall.encrypt.what (← call (.pkeyEncrypt ctx data outLen))
        let buffer ← pureStep (writeAt 0 out (List.replicate outLen 0))
        return resize out.length buffer

/-- As above, with the private key. -/
def decryptWithPrivateKey (privateKeyPem : Str) (encryptedData : Bytes) : Code Bytes := do
  let bio ← call (.bioNewMemBuf privateKeyPem (toInt privateKeyPem.length))
  uniquePtr (bio.map .bio) do
    let bio ← orThrow PrivateKeyCall.newBio.what bio
    let pkey ← call (.readPrivateKey bio)
    uniquePtr (pkey.map .pkey) do
      let pkey ← orThrow PrivateKeyCall.readPem.what pkey
      let ctx ← call (.pkeyCtxNew pkey)
      uniquePtr (ctx.map .pkeyCtx) do
        let ctx ← orThrow PrivateKeyCall.init.what ctx
        orThrow PrivateKeyCall.init.what (← call (.pkeyDecryptInit ctx))
        orThrow PrivateKeyCall.setPadding.what (← call (.setRsaPadding ctx))
        let outLen ← orThrow PrivateKeyCall.getSize.what (← call (.pkeyDecryptSize ctx encryptedData))
        vector outLen
        let out ← orThrow PrivateKeyCall.decrypt.what
          (← call (.pkeyDecrypt ctx encryptedData outLen))
        let buffer ← pureStep (writeAt 0 out (List.replicate outLen 0))
        return resize out.length buffer

/-! ### The key factory frees what it makes -/

variable {L : List Object}

theorem tidy_call {α : Type} {f : Fn} {k : f.Res → Code α} (hplain : Plain library f)
    (huses : ∀ o ∈ library.uses f, o ∈ L) (hk : ∀ r, Tidy library (k r) L) :
    Tidy library (call f >>= k) L :=
  tidy_act hplain huses hk

theorem tidy_vector (size : Nat) : Tidy library (vector size) L := by
  unfold vector
  split
  · exact tidy_ret _
  · refine tidy_call ⟨fun _ => rfl, rfl⟩ (by simp [library]) fun ok => ?_
    cases ok
    · exact tidy_throw _
    · exact tidy_ret _

theorem tidy_orThrow {α : Type} (what : String) (o : Option α) :
    Tidy library (orThrow what o) L := by
  cases o
  · exact tidy_throw _
  · exact tidy_ret _

theorem tidy_pureStep {α : Type} (r : Except Exn α) : Tidy library (pureStep r) L := by
  cases r
  · exact tidy_throw _
  · exact tidy_ret _

/-- A call that works on objects that are there, and what follows if it succeeds. -/
theorem tidy_step {α β : Type} {f : Fn} {what : String} {given : f.Res → Option α}
    {k : α → Code β} (hplain : Plain library f) (huses : ∀ o ∈ library.uses f, o ∈ L)
    (hk : ∀ a, Tidy library (k a) L) :
    Tidy library (call f >>= fun r => orThrow what (given r) >>= k) L :=
  tidy_call hplain huses fun r => (tidy_orThrow what (given r)).bind hk

/-- A call that makes an object, which is freed at the end of the scope. -/
theorem tidy_uniquePtr {α : Type} {f : Fn} {k : f.Res → Code α} (hfrees : library.frees f = none)
    (huses : ∀ o ∈ library.uses f, o ∈ L)
    (hk : ∀ r, Tidy library (k r) ((library.makes f r).toList ++ L)) :
    Tidy library (call f >>= fun r => uniquePtr (library.makes f r) (k r)) L :=
  tidy_scope Object.free hfrees huses destroys_free hk

theorem tidy_generateRsaKeyPair (bits : Int) : Tidy library (generateRsaKeyPair bits) L := by
  refine tidy_uniquePtr rfl (by simp [library]) fun ctx => ?_
  rcases ctx with - | ctx
  · exact tidy_throw _
  refine tidy_step ⟨fun _ => rfl, rfl⟩ (by simp [library]) fun _ => ?_
  refine tidy_step ⟨fun _ => rfl, rfl⟩ (by simp [library]) fun _ => ?_
  refine tidy_uniquePtr rfl (by simp [library]) fun pkey => ?_
  rcases pkey with - | pkey
  · exact tidy_throw _
  refine tidy_uniquePtr rfl (by simp [library]) fun pubBio => ?_
  refine tidy_uniquePtr rfl (by simp [library]) fun privBio => ?_
  -- both BIOs are checked after both have been made
  rcases pubBio with - | pubBio
  · exact tidy_throw _
  rcases privBio with - | privBio
  · exact tidy_throw _
  refine tidy_step ⟨fun _ => rfl, rfl⟩ (by simp [library]) fun _ => ?_
  refine tidy_step ⟨fun _ => rfl, rfl⟩ (by simp [library]) fun _ => ?_
  refine tidy_call ⟨fun _ => rfl, rfl⟩ (by simp [library]) fun pub => ?_
  refine tidy_call ⟨fun _ => rfl, rfl⟩ (by simp [library]) fun priv => ?_
  split
  · exact tidy_throw _
  · exact (tidy_vector _).bind fun _ => (tidy_vector _).bind fun _ => tidy_ret _

theorem tidy_generateSymmetricKey (size : Nat) : Tidy library (generateSymmetricKey size) L := by
  refine (tidy_vector size).bind fun _ => ?_
  exact tidy_step ⟨fun _ => rfl, rfl⟩ (by simp [library]) fun _ => tidy_ret _

/-- The end of the two functions that use a key. -/
theorem tidy_intoVector {size : Nat} {f : Fn} {what : String} {given : f.Res → Option Bytes}
    (hplain : Plain library f) (huses : ∀ o ∈ library.uses f, o ∈ L) :
    Tidy library (do
      vector size
      let out ← orThrow what (given (← call f))
      let buffer ← pureStep (writeAt 0 out (List.replicate size 0))
      return resize out.length buffer) L := by
  refine (tidy_vector size).bind fun _ => tidy_step hplain huses fun out => ?_
  exact (tidy_pureStep _).bind fun _ => tidy_ret _

theorem tidy_encryptWithPublicKey (publicKeyPem : Str) (data : Bytes) :
    Tidy library (encryptWithPublicKey publicKeyPem data) L := by
  refine tidy_uniquePtr rfl (by simp [library]) fun bio => ?_
  rcases bio with - | bio
  · exact tidy_throw _
  refine tidy_uniquePtr rfl (by simp [library]) fun pkey => ?_
  rcases pkey with - | pkey
  · exact tidy_throw _
  refine tidy_uniquePtr rfl (by simp [library]) fun ctx => ?_
  rcases ctx with - | ctx
  · exact tidy_throw _
  refine tidy_step ⟨fun _ => rfl, rfl⟩ (by simp [library]) fun _ => ?_
  refine tidy_step ⟨fun _ => rfl, rfl⟩ (by simp [library]) fun _ => ?_
  refine tidy_step ⟨fun _ => rfl, rfl⟩ (by simp [library]) fun outLen => ?_
  exact tidy_intoVector ⟨fun _ => rfl, rfl⟩ (by simp [library])

theorem tidy_decryptWithPrivateKey (privateKeyPem : Str) (encryptedData : Bytes) :
    Tidy library (decryptWithPrivateKey privateKeyPem encryptedData) L := by
  refine tidy_uniquePtr rfl (by simp [library]) fun bio => ?_
  rcases bio with - | bio
  · exact tidy_throw _
  refine tidy_uniquePtr rfl (by simp [library]) fun pkey => ?_
  rcases pkey with - | pkey
  · exact tidy_throw _
  refine tidy_uniquePtr rfl (by simp [library]) fun ctx => ?_
  rcases ctx with - | ctx
  · exact tidy_throw _
  refine tidy_step ⟨fun _ => rfl, rfl⟩ (by simp [library]) fun _ => ?_
  refine tidy_step ⟨fun _ => rfl, rfl⟩ (by simp [library]) fun _ => ?_
  refine tidy_step ⟨fun _ => rfl, rfl⟩ (by simp [library]) fun outLen => ?_
  exact tidy_intoVector ⟨fun _ => rfl, rfl⟩ (by simp [library])

/-- Every object is given to a call only while it is there, and freed as often as made. -/
def Released (t : List (Event Fn Fn.Res)) : Prop :=
  Faultless library [] t ∧ ∀ o, made library o t = freed library o t

/-- Whatever the library answers, and however the function ends, all is released. -/
def Releases {α : Type} (p : Code α) : Prop :=
  ∀ t r, Runs p t r → Fresh library [] t → Released t

theorem released_of_left {t : List (Event Fn Fn.Res)} (hf : Faultless library [] t)
    (hleft : left library [] t = []) : Released t := by
  refine ⟨hf, fun o => ?_⟩
  have hcount := made_add_count hf o
  rw [hleft] at hcount
  exact hcount

theorem releases_of_tidy {α : Type} {p : Code α} (hp : Tidy library p []) : Releases p := by
  intro t r hr hfresh
  obtain ⟨hf, hleft⟩ := Safely.runs hp hr hfresh
  exact released_of_left hf hleft

/-- **The key factory frees what it makes**, whatever calls and allocations fail. -/
theorem keyFactory_releases :
    (∀ bits, Releases (generateRsaKeyPair bits)) ∧
    (∀ size, Releases (generateSymmetricKey size)) ∧
    (∀ publicKeyPem data, Releases (encryptWithPublicKey publicKeyPem data)) ∧
    ∀ privateKeyPem encryptedData, Releases (decryptWithPrivateKey privateKeyPem encryptedData) :=
  ⟨fun bits => releases_of_tidy (tidy_generateRsaKeyPair bits),
    fun size => releases_of_tidy (tidy_generateSymmetricKey size),
    fun publicKeyPem data => releases_of_tidy (tidy_encryptWithPublicKey publicKeyPem data),
    fun privateKeyPem encryptedData =>
      releases_of_tidy (tidy_decryptWithPrivateKey privateKeyPem encryptedData)⟩

/-- The calls of an encryption of one byte: a BIO, a key and a context are made, and freed the
other way round. -/
def sealing : List (Event Fn Fn.Res) :=
  [⟨.bioNewMemBuf [80] (toInt 1), some (0 : Nat)⟩, ⟨.readPubkey 0, some (1 : Nat)⟩,
    ⟨.pkeyCtxNew 1, some (2 : Nat)⟩, ⟨.pkeyEncryptInit 2, some ()⟩, ⟨.setRsaPadding 2, some ()⟩,
    ⟨.pkeyEncryptSize 2 [1], some (1 : Nat)⟩, ⟨.vector 1, true⟩,
    ⟨.pkeyEncrypt 2 [1] 1, some ([7] : Bytes)⟩, ⟨.pkeyCtxFree 2, ()⟩, ⟨.pkeyFree 1, ()⟩,
    ⟨.bioFree 0, ()⟩]

/-- It is a run that returns. -/
theorem runs_sealing : Runs (encryptWithPublicKey [80] [1]) sealing (.ok [7]) := by
  refine .perform _ _ (.perform _ _ (.perform _ _ (.perform _ _ (.perform _ _ (.perform _ _ ?_)))))
  exact .perform _ _ (.perform _ _ (.perform _ _ (.perform _ _ (.perform _ _ (.ret _)))))

theorem keyFactory_releases_sealing : Released sealing :=
  keyFactory_releases.2.2.1 [80] [1] sealing (.ok [7]) runs_sealing
    (by simp [sealing, Fresh, New, after, library])

/-! ### The contexts of `AES256GCMStrategy` -/

/-- The two ways to end that free no context: a vector cannot be allocated, or the library
has written beyond a buffer. -/
def Abrupt {α : Type} (r : Except Thrown α) : Prop :=
  r = .error .badAlloc ∨ r = .error (.exn .undefinedBehaviour)

/-- Nothing is left, or the context is after an abrupt end; `std::bad_alloc` is one only if
`alloc` holds, that is, if storage is allocated while the context is there. -/
def Kept {α : Type} (alloc : Prop) (ctx : Nat) (r : Except Thrown α) (L : List Object) : Prop :=
  L = [] ∨ L = [.cipherCtx ctx] ∧ Abrupt r ∧ (r = .error .badAlloc → alloc)

section Context

variable {α β : Type} {ctx : Nat} {alloc : Prop}

theorem given_cipherCtxFree : Given library [.cipherCtx ctx] (.cipherCtxFree ctx) :=
  (destroys_free (.cipherCtx ctx)).given []

theorem after_cipherCtxFree (r : Unit) :
    after library [.cipherCtx ctx] (.cipherCtxFree ctx) r = [] :=
  (destroys_free (.cipherCtx ctx)).after_cons [] r

theorem safely_vector {size : Nat} {k : Code β} (halloc : size ≠ 0 → alloc)
    (hk : Safely library k [.cipherCtx ctx] (Kept alloc ctx)) :
    Safely library (vector size >>= fun _ => k) [.cipherCtx ctx] (Kept alloc ctx) := by
  unfold vector
  split
  · exact hk
  · next hsize =>
    refine safely_bind (safely_act (by simp [Given, library]) fun ok _ => ?_)
    cases ok
    · exact Or.inr ⟨rfl, Or.inl rfl, fun _ => halloc hsize⟩
    · exact hk

theorem safely_pureStep {x : Except Exn α} {k : α → Code β}
    (hx : x = .error .undefinedBehaviour ∨ ∃ a, x = .ok a)
    (hk : ∀ a, Safely library (k a) [.cipherCtx ctx] (Kept alloc ctx)) :
    Safely library (pureStep x >>= k) [.cipherCtx ctx] (Kept alloc ctx) := by
  rcases hx with rfl | ⟨a, rfl⟩
  · exact Or.inr ⟨rfl, Or.inr rfl, fun e => by cases e⟩
  · exact hk a

theorem safely_orFree {f : Fn} {what : String} {given : f.Res → Option α} {k : α → Code β}
    (hplain : Plain library f) (huses : ∀ o ∈ library.uses f, o ∈ [Object.cipherCtx ctx])
    (hk : ∀ a, Safely library (k a) [.cipherCtx ctx] (Kept alloc ctx)) :
    Safely library (call f >>= fun r => orFree ctx what (given r) >>= k) [.cipherCtx ctx]
      (Kept alloc ctx) := by
  refine safely_act (fun o ho => huses o ?_) fun r _ => ?_
  · simpa [hplain.frees] using ho
  · rw [hplain.after_eq]
    rcases given r with - | a
    · -- the context is freed, and then the exception is thrown
      refine ⟨given_cipherCtxFree, fun a _ => ?_⟩
      rw [after_cipherCtxFree]
      exact Or.inl rfl
    · exact hk a

theorem safely_free {k : Code β} (hk : Tidy library k []) :
    Safely library (call (.cipherCtxFree ctx) >>= fun _ => k) [.cipherCtx ctx]
      (Kept alloc ctx) := by
  refine safely_act given_cipherCtxFree fun a _ => ?_
  rw [after_cipherCtxFree]
  exact safely_mono (fun r L hL => Or.inl hL) hk

end Context

open AES256GCMStrategy

/-- Nothing is left, or one context is after an abrupt end. -/
def KeptOne {α : Type} (alloc : Prop) (r : Except Thrown α) (L : List Object) : Prop :=
  ∃ ctx, Kept alloc ctx r L

theorem safely_before {α β : Type} {alloc : Prop} {p : Code α} {k : α → Code β}
    (hp : Tidy library p []) (hk : ∀ a, Safely library (k a) [] (KeptOne alloc)) :
    Safely library (p >>= k) [] (KeptOne alloc) := by
  refine safely_bind (safely_mono (fun r L hL => ?_) hp)
  subst hL
  rcases r with x | a
  · exact ⟨0, Or.inl rfl⟩
  · exact hk a

theorem safely_encrypt (plaintext key : Bytes) :
    Safely library (encrypt plaintext key) [] (KeptOne True) := by
  unfold encrypt
  split
  · exact ⟨0, Or.inl rfl⟩
  refine safely_act (by simp [Given, library]) fun ctx _ => ?_
  rcases ctx with - | ctx
  · exact ⟨0, Or.inl rfl⟩
  refine safely_mono (fun r L hL => ⟨ctx, hL⟩) ?_
  refine safely_vector (fun _ => trivial) ?_
  refine safely_orFree ⟨fun _ => rfl, rfl⟩ (by simp [library]) fun iv => ?_
  refine safely_orFree ⟨fun _ => rfl, rfl⟩ (by simp [library]) fun _ => ?_
  refine safely_vector (fun _ => trivial) ?_
  refine safely_orFree ⟨fun _ => rfl, rfl⟩ (by simp [library]) fun out => ?_
  refine safely_pureStep (writeAt_cases _ _ _) fun ciphertext => ?_
  refine safely_orFree ⟨fun _ => rfl, rfl⟩ (by simp [library]) fun out' => ?_
  refine safely_pureStep (writeAt_cases _ _ _) fun ciphertext' => ?_
  have hlen := checkedInt_cases ((out.length : Int) + out'.length)
  generalize checkedInt ((out.length : Int) + out'.length) = len at hlen ⊢
  refine safely_pureStep hlen fun len => ?_
  refine safely_vector (fun _ => trivial) ?_
  refine safely_orFree ⟨fun _ => rfl, rfl⟩ (by simp [library]) fun tag => ?_
  exact safely_free ((tidy_vector _).bind fun _ => tidy_ret _)

/-- Of an envelope that is longer than its nonce and tag something is encrypted. -/
theorem lt_length_of_encryptedPart {envelope : Bytes}
    (hlong : gcmIvLen + gcmTagLen ≤ envelope.length)
    (hne : (OpenSSL.encryptedPart envelope).length ≠ 0) :
    gcmIvLen + gcmTagLen < envelope.length := by
  have hlen := OpenSSL.length_encryptedPart hlong
  have h28 : gcmIvLen + gcmTagLen = 28 := rfl
  omega

theorem safely_decrypt (ciphertext key : Bytes) :
    Safely library (decrypt ciphertext key) []
      (KeptOne (gcmIvLen + gcmTagLen < ciphertext.length)) := by
  unfold decrypt
  split
  · exact ⟨0, Or.inl rfl⟩
  split
  · exact ⟨0, Or.inl rfl⟩
  next hlong =>
  refine safely_before (tidy_vector _) fun _ => safely_before (tidy_vector _) fun _ =>
    safely_before (tidy_vector _) fun _ => ?_
  refine safely_act (by simp [Given, library]) fun ctx _ => ?_
  rcases ctx with - | ctx
  · exact ⟨0, Or.inl rfl⟩
  refine safely_mono (fun r L hL => ⟨ctx, hL⟩) ?_
  refine safely_orFree ⟨fun _ => rfl, rfl⟩ (by simp [library]) fun _ => ?_
  -- the one vector that is made while the context is there is as long as what is encrypted
  refine safely_vector (lt_length_of_encryptedPart (not_lt.mp hlong)) ?_
  refine safely_orFree ⟨fun _ => rfl, rfl⟩ (by simp [library]) fun out => ?_
  refine safely_pureStep (writeAt_cases _ _ _) fun plaintext => ?_
  refine safely_orFree ⟨fun _ => rfl, rfl⟩ (by simp [library]) fun _ => ?_
  refine safely_act (by simp [Given, library]) fun final _ => ?_
  refine safely_free ((tidy_orThrow _ _).bind fun out' => (tidy_pureStep _).bind fun _ => ?_)
  generalize checkedInt ((out.length : Int) + out'.length) = len
  exact (tidy_pureStep len).bind fun _ => tidy_ret _

/-- Every object is given to a call only while it is there, but one context is never freed. -/
def Lost (t : List (Event Fn Fn.Res)) : Prop :=
  Faultless library [] t ∧ ∃ ctx, left library [] t = [.cipherCtx ctx]

theorem Lost.not_released {t : List (Event Fn Fn.Res)} (hl : Lost t) : ¬ Released t := by
  obtain ⟨hf, ctx, hleft⟩ := hl
  rintro ⟨-, hcounts⟩
  have hcount := made_add_count hf (.cipherCtx ctx)
  rw [hcounts, hleft] at hcount
  simp at hcount

theorem released_or_lost {α : Type} {alloc : Prop} {p : Code α}
    (hp : Safely library p [] (KeptOne alloc)) {t : List (Event Fn Fn.Res)}
    {r : Except Thrown α} (hr : Runs p t r) (hfresh : Fresh library [] t) :
    Released t ∨ Abrupt r ∧ (r = .error .badAlloc → alloc) ∧ Lost t := by
  obtain ⟨hf, ctx, hleft | ⟨hleft, habrupt, halloc⟩⟩ := hp.runs hr hfresh
  · exact Or.inl (released_of_left hf hleft)
  · exact Or.inr ⟨habrupt, halloc, hf, ctx, hleft⟩

theorem released_or_abrupt {α : Type} {alloc : Prop} {p : Code α}
    (hp : Safely library p [] (KeptOne alloc)) {t : List (Event Fn Fn.Res)}
    {r : Except Thrown α} (hr : Runs p t r) (hfresh : Fresh library [] t) :
    Released t ∨ Abrupt r ∧ Lost t :=
  (released_or_lost hp hr hfresh).imp_right fun ⟨habrupt, _, hlost⟩ => ⟨habrupt, hlost⟩

/-- Some run ends with `std::bad_alloc` and loses its context. -/
def MayLose {α : Type} (p : Code α) : Prop :=
  ∃ t, Runs p t (.error .badAlloc) ∧ Fresh library [] t ∧ ¬ Released t

theorem runs_vector {β : Type} {size : Nat} (hsize : size ≠ 0) {k : Code β}
    {t : List (Event Fn Fn.Res)} {r : Except Thrown β} (hk : Runs k t r) :
    Runs (vector size >>= fun _ => k) (⟨.vector size, true⟩ :: t) r := by
  rw [vector, if_neg hsize]
  exact .perform _ _ hk

theorem runs_vector_fails {β : Type} {size : Nat} (hsize : size ≠ 0) (k : Code β) :
    Runs (vector size >>= fun _ => k) [⟨.vector size, false⟩] (.error .badAlloc) := by
  rw [vector, if_neg hsize]
  exact .perform _ _ (.throw _)

theorem mayLose_encrypt_iff (plaintext key : Bytes) :
    MayLose (encrypt plaintext key) ↔ key.length = 32 := by
  constructor
  · rintro ⟨t, hr, -⟩
    by_contra hkey
    rw [encrypt, if_pos hkey] at hr
    cases hr
  · intro hkey
    refine ⟨[⟨.cipherCtxNew, some (0 : Nat)⟩, ⟨.vector gcmIvLen, false⟩], ?_, ?_, ?_⟩
    · rw [encrypt, if_neg (not_not.mpr hkey)]
      exact .perform _ _ (runs_vector_fails (by decide) _)
    · simp [Fresh, New, after, library]
    · exact Lost.not_released ⟨by simp [Faultless, Given, library], 0, rfl⟩

/-- Of an envelope of 28 bytes nothing is encrypted, and no storage is asked for while the
context is there. -/
theorem mayLose_decrypt_iff (ciphertext key : Bytes) : MayLose (decrypt ciphertext key) ↔
    key.length = 32 ∧ gcmIvLen + gcmTagLen < ciphertext.length := by
  constructor
  · rintro ⟨t, hr, hfresh, hnot⟩
    refine ⟨?_, ?_⟩
    · by_contra hkey
      rw [decrypt, if_pos hkey] at hr
      cases hr
    · obtain hreleased | ⟨-, halloc, -⟩ :=
        released_or_lost (safely_decrypt ciphertext key) hr hfresh
      · exact absurd hreleased hnot
      · exact halloc rfl
  · rintro ⟨hkey, hlong⟩
    have hne : (OpenSSL.encryptedPart ciphertext).length ≠ 0 := by
      have hlen := OpenSSL.length_encryptedPart hlong.le
      have h28 : gcmIvLen + gcmTagLen = 28 := rfl
      omega
    refine ⟨[⟨.vector gcmIvLen, true⟩, ⟨.vector gcmTagLen, true⟩,
      ⟨.vector (OpenSSL.encryptedPart ciphertext).length, true⟩, ⟨.cipherCtxNew, some (0 : Nat)⟩,
      ⟨.decryptInit 0 key (OpenSSL.ivPart ciphertext), some ()⟩,
      ⟨.vector (OpenSSL.encryptedPart ciphertext).length, false⟩], ?_, ?_, ?_⟩
    · rw [decrypt, if_neg (not_not.mpr hkey), if_neg (not_lt.mpr hlong.le)]
      refine runs_vector (by decide) (runs_vector (by decide) (runs_vector hne ?_))
      exact .perform _ _ (.perform _ _ (runs_vector_fails hne _))
    · simp [Fresh, New, after, library]
    · exact Lost.not_released ⟨by simp [Faultless, Given, after, library], 0, rfl⟩

/-- **Contexts and exceptions.**  Every run of `encrypt` and `decrypt` releases its context,
except where a vector cannot be allocated or a buffer has been overrun.  There are runs in
which `std::bad_alloc` loses the context for every key of 32 bytes in `encrypt`, and in
`decrypt` if besides there is something to decrypt. -/
theorem contexts_released :
    (∀ plaintext key t r, Runs (encrypt plaintext key) t r → Fresh library [] t →
      Released t ∨ Abrupt r ∧ Lost t) ∧
    (∀ ciphertext key t r, Runs (decrypt ciphertext key) t r → Fresh library [] t →
      Released t ∨ Abrupt r ∧ Lost t) ∧
    (∀ plaintext key, MayLose (encrypt plaintext key) ↔ key.length = 32) ∧
    ∀ ciphertext key, MayLose (decrypt ciphertext key) ↔
      key.length = 32 ∧ gcmIvLen + gcmTagLen < ciphertext.length :=
  ⟨fun plaintext key _ _ hr hf => released_or_abrupt (safely_encrypt plaintext key) hr hf,
    fun ciphertext key _ _ hr hf => released_or_abrupt (safely_decrypt ciphertext key) hr hf,
    mayLose_encrypt_iff, mayLose_decrypt_iff⟩

/-- A tag. -/
def zeros : Buffer 16 := ⟨List.replicate 16 0, by decide⟩

/-- The calls of an encryption of nothing. -/
def sealingNothing : List (Event Fn Fn.Res) :=
  [⟨.cipherCtxNew, some (0 : Nat)⟩, ⟨.vector 12, true⟩,
    ⟨.randBytes 12, some (⟨List.replicate 12 0, by decide⟩ : Buffer 12)⟩,
    ⟨.encryptInit 0 (List.replicate 32 0) (List.replicate 12 0), some ()⟩, ⟨.vector 16, true⟩,
    ⟨.encryptUpdate 0 [] 0, some ([] : Bytes)⟩, ⟨.encryptFinal 0, some ([] : Bytes)⟩,
    ⟨.vector 16, true⟩, ⟨.getTag 0, some zeros⟩, ⟨.cipherCtxFree 0, ()⟩, ⟨.vector 28, true⟩]

/-- It is a run that returns. -/
theorem runs_sealingNothing : Runs (encrypt [] (List.replicate 32 0)) sealingNothing
    (.ok (List.replicate 28 0)) := by
  refine .perform _ _ (.perform _ _ (.perform _ _ (.perform _ _ (.perform _ _ (.perform _ _ ?_)))))
  exact .perform _ _ (.perform _ _ (.perform _ _ (.perform _ _ (.perform _ _ (.ret _)))))

/-- In it the context is released. -/
theorem contexts_released_sealingNothing : Released sealingNothing := by
  have hrun := contexts_released.1 [] (List.replicate 32 0) sealingNothing
    (.ok (List.replicate 28 0)) runs_sealingNothing
    (by simp [sealingNothing, Fresh, New, after, library])
  obtain hreleased | ⟨habrupt, -⟩ := hrun
  · exact hreleased
  · rcases habrupt with e | e <;> cases e

end Evp

end Evlampy
