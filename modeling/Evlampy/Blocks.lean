/-
Evlampy/Blocks.lean

The functions of `Evp` are those of `Encryption` and `Gcm`.  There the calls of OpenSSL
are taken together in blocks, nothing is freed and every vector can be allocated; here
they run over a library that answers from a state.  What is freed on the way changes no
result: every text of an exception is the one for the first call that fails.
-/
import Evlampy.Evp

namespace Evlampy

open Cxx Callback Prog Ownership

namespace Evp

variable {σ Ctx α β : Type} {X : Type}

/-! ### Running over a library -/

/-- A library that answers from a state. -/
abbrev Answers (σ : Type) := (f : Fn) → σ → f.Res × σ

/-- The answer of a call that fails. -/
def Fn.fails : (f : Fn) → f.Res
  | vector _ => false
  | randBytes _ => none
  | cipherCtxNew | pkeyCtxNewId | pkeyCtxNew _ | keygen _ | bioNew | bioNewMemBuf .. => none
  | readPubkey _ | readPrivateKey _ => none
  | cipherCtxFree _ | pkeyCtxFree _ | pkeyFree _ | bioFree _ => ()
  | encryptInit .. | decryptInit .. | setTag .. | keygenInit _ | setKeygenBits .. => none
  | writePubkey .. | writePrivateKey .. | pkeyEncryptInit _ | pkeyDecryptInit _ => none
  | setRsaPadding _ => none
  | encryptUpdate .. | encryptFinal _ | decryptUpdate .. | decryptFinal _ => none
  | getTag _ => none
  | getMemData _ => []
  | pkeyEncryptSize .. | pkeyDecryptSize .. => none
  | pkeyEncrypt .. | pkeyDecrypt .. => none

/-- Run the program. -/
def eval (lib : Answers σ) : Prog Fn Fn.Res Empty X α → σ → Except X α × σ
  | .ret a, s => (.ok a, s)
  | .throw x, s => (.error x, s)
  | .perform f k, s => eval lib (k (lib f s).1) (lib f s).2
  | .yield n _, _ => nomatch n

variable {lib : Answers σ}

theorem eval_bind (p : Prog Fn Fn.Res Empty X α) (k : α → Prog Fn Fn.Res Empty X β) (s : σ) :
    eval lib (p >>= k) s = match eval lib p s with
      | (.ok a, s') => eval lib (k a) s'
      | (.error x, s') => (.error x, s') := by
  induction p generalizing s with
  | ret a => rfl
  | throw x => rfl
  | perform f k ih => exact ih _ _
  | yield n k => exact nomatch n

theorem eval_call (f : Fn) (k : f.Res → Code β) (s : σ) :
    eval lib (call f >>= k) s = eval lib (k (lib f s).1) (lib f s).2 := rfl

/-- Storage that can be allocated. -/
theorem eval_vector {size : Nat} {s : σ} (hvector : lib (.vector size) s = (true, s)) :
    eval lib (vector size) s = (.ok (), s) := by
  unfold vector
  split
  · rfl
  · rw [eval_call, hvector]
    rfl

theorem eval_atExit (f : Fn) (p : Prog Fn Fn.Res Empty X α) (s : σ) :
    (eval lib (atExit f p) s).1 = (eval lib p s).1 := by
  induction p generalizing s with
  | ret a => rfl
  | throw x => rfl
  | perform f k ih => exact ih _ _
  | yield n k => exact nomatch n

/-- Destructors do not change results. -/
theorem eval_uniquePtr (o : Option Object) (p : Code α) (s : σ) :
    (eval lib (uniquePtr o p) s).1 = (eval lib p s).1 := by
  cases o with
  | none => rfl
  | some o => exact eval_atExit o.free p s

/-! ### `AES256GCMStrategy` -/

/-- The answer of a call that goes on with the context. -/
def answered : Option (Ctx × α) → Option α × Option Ctx
  | some (ctx, a) => (some a, some ctx)
  | none => (none, none)

/-- The calls of `EvpGcm` on one context; all other calls fail. -/
def gcmAnswers (evp : EvpGcm Ctx) (newCtx : Option Ctx)
    (rand : (size : Nat) → Option (Buffer size)) : Answers (Option Ctx)
  | .vector _, ctx => (true, ctx)
  | .randBytes size, ctx => (rand size, ctx)
  | .cipherCtxNew, _ => (newCtx.map fun _ => 0, newCtx)
  | .cipherCtxFree _, _ => ((), none)
  | .encryptInit _ key iv, ctx =>
      answered (ctx.bind fun ctx => (evp.encryptInit ctx key iv).map fun ctx => (ctx, ()))
  | .encryptUpdate _ data inl, ctx => answered (ctx.bind fun ctx => evp.encryptUpdate ctx data inl)
  | .encryptFinal _, ctx => answered (ctx.bind evp.encryptFinal)
  | .getTag _, ctx => (ctx.bind evp.getTag, ctx)
  | .decryptInit _ key iv, ctx =>
      answered (ctx.bind fun ctx => (evp.decryptInit ctx key iv).map fun ctx => (ctx, ()))
  | .decryptUpdate _ data inl, ctx => answered (ctx.bind fun ctx => evp.decryptUpdate ctx data inl)
  | .setTag _ tag, ctx =>
      answered (ctx.bind fun ctx => (evp.setTag ctx tag).map fun ctx => (ctx, ()))
  | .decryptFinal _, ctx => (ctx.bind evp.decryptFinal, ctx)
  | f, ctx => (f.fails, ctx)

open AES256GCMStrategy

/-- The program ends as the computation does. -/
def Agrees (lib : Answers σ) (p : Code α) (s : σ) (r : Except Exn α) : Prop :=
  (eval lib p s).1 = r.mapError .exn

section Agrees

variable {s : σ} {what : String} {k : α → Code β}

theorem agrees_vector {size : Nat} {k : Code β} {r : Except Exn β}
    (hvector : lib (.vector size) s = (true, s)) (hk : Agrees lib k s r) :
    Agrees lib (vector size >>= fun _ => k) s r := by
  unfold Agrees
  rw [eval_bind, eval_vector hvector]
  exact hk

theorem agrees_pureStep {r : Except Exn α} {f : α → Except Exn β}
    (hk : ∀ a, Agrees lib (k a) s (f a)) : Agrees lib (pureStep r >>= k) s (r >>= f) := by
  rcases r with x | a
  · rfl
  · exact hk a

theorem agrees_ofCall {o : Option α} {k' : α → Except Exn β}
    (hk : ∀ a, Agrees lib (k a) s (k' a)) :
    Agrees lib (orThrow what o >>= k) s (ofCall (callFailed what) o >>= k') := by
  rcases o with - | a
  · rfl
  · exact hk a

/-- A call, if it has succeeded, and then the rest. -/
theorem agrees_orThrow {γ : Type} {f : Fn} {given : f.Res → Option α} {o : Option γ}
    {k' : γ → Except Exn β} (hnone : o = none → given (lib f s).1 = none)
    (hsome : ∀ c, o = some c → ∃ a s', given (lib f s).1 = some a ∧ (lib f s).2 = s' ∧
      Agrees lib (k a) s' (k' c)) :
    Agrees lib (call f >>= fun r => orThrow what (given r) >>= k) s
      (ofCall (callFailed what) o >>= k') := by
  unfold Agrees
  rw [eval_call]
  rcases o with - | c
  · rw [hnone rfl]
    rfl
  · obtain ⟨a, s', ha, rfl, hk⟩ := hsome c rfl
    rw [ha, ofCall_some_bind]
    exact hk

theorem agrees_orFree {γ : Type} {f : Fn} {p : Nat} {given : f.Res → Option α} {o : Option γ}
    {k' : γ → Except Exn β} (hnone : o = none → given (lib f s).1 = none)
    (hsome : ∀ c, o = some c → ∃ a s', given (lib f s).1 = some a ∧ (lib f s).2 = s' ∧
      Agrees lib (k a) s' (k' c)) :
    Agrees lib (call f >>= fun r => orFree p what (given r) >>= k) s
      (ofCall (callFailed what) o >>= k') := by
  unfold Agrees
  rw [eval_call]
  rcases o with - | c
  · rw [hnone rfl]
    rfl
  · obtain ⟨a, s', ha, rfl, hk⟩ := hsome c rfl
    rw [ha, ofCall_some_bind]
    exact hk

end Agrees

theorem encrypt_agrees (evp : EvpGcm Ctx) (newCtx : Option Ctx)
    (rand : (size : Nat) → Option (Buffer size)) (plaintext key : Bytes) :
    Agrees (gcmAnswers evp newCtx rand) (encrypt plaintext key) none
      (encryptWith evp newCtx (rand gcmIvLen) plaintext key) := by
  unfold encrypt encryptWith
  by_cases hkey : key.length = 32
  · rw [if_neg (not_not.mpr hkey), if_neg (not_not.mpr hkey)]
    refine agrees_orThrow (by rintro rfl; rfl) ?_
    rintro ctx rfl
    refine ⟨0, some ctx, rfl, rfl, agrees_vector rfl ?_⟩
    refine agrees_orFree id fun iv hiv => ⟨iv, some ctx, hiv, rfl, ?_⟩
    refine agrees_orFree (fun h => ?_) fun ctx h => ⟨(), some ctx, ?_, ?_, agrees_vector rfl ?_⟩
    · simp [gcmAnswers, h, answered]
    · simp [gcmAnswers, h, answered]
    · simp [gcmAnswers, h, answered]
    refine agrees_orFree (fun h => ?_) fun ⟨ctx, out⟩ h => ⟨out, some ctx, ?_, ?_, ?_⟩
    · simp [gcmAnswers, h, answered]
    · simp [gcmAnswers, h, answered]
    · simp [gcmAnswers, h, answered]
    refine agrees_pureStep fun ciphertext => ?_
    refine agrees_orFree (fun h => ?_) fun ⟨ctx, out'⟩ h => ⟨out', some ctx, ?_, ?_, ?_⟩
    · simp [gcmAnswers, h, answered]
    · simp [gcmAnswers, h, answered]
    · simp [gcmAnswers, h, answered]
    refine agrees_pureStep fun ciphertext' => agrees_pureStep fun len => agrees_vector rfl ?_
    refine agrees_orFree id fun tag h => ⟨tag, some ctx, h, rfl, ?_⟩
    exact agrees_vector (s := none) rfl rfl
  · rw [if_pos hkey, if_pos hkey]
    rfl

theorem decrypt_agrees (evp : EvpGcm Ctx) (newCtx : Option Ctx)
    (rand : (size : Nat) → Option (Buffer size)) (ciphertext key : Bytes) :
    Agrees (gcmAnswers evp newCtx rand) (decrypt ciphertext key) none
      (decryptWith evp newCtx ciphertext key) := by
  unfold decrypt decryptWith
  by_cases hkey : key.length = 32
  · by_cases hshort : ciphertext.length < gcmIvLen + gcmTagLen
    · rw [if_neg (not_not.mpr hkey), if_neg (not_not.mpr hkey), if_pos hshort, if_pos hshort]
      rfl
    rw [if_neg (not_not.mpr hkey), if_neg (not_not.mpr hkey), if_neg hshort, if_neg hshort]
    refine agrees_vector rfl (agrees_vector rfl (agrees_vector rfl ?_))
    refine agrees_orThrow (by rintro rfl; rfl) ?_
    rintro ctx rfl
    refine ⟨0, some ctx, rfl, rfl, ?_⟩
    refine agrees_orFree (fun h => ?_) fun ctx h => ⟨(), some ctx, ?_, ?_, agrees_vector rfl ?_⟩
    · simp [gcmAnswers, h, answered]
    · simp [gcmAnswers, h, answered]
    · simp [gcmAnswers, h, answered]
    refine agrees_orFree (fun h => ?_) fun ⟨ctx, out⟩ h => ⟨out, some ctx, ?_, ?_, ?_⟩
    · simp [gcmAnswers, h, answered]
    · simp [gcmAnswers, h, answered]
    · simp [gcmAnswers, h, answered]
    refine agrees_pureStep fun plaintext => ?_
    refine agrees_orFree (fun h => ?_) fun ctx h => ⟨(), some ctx, ?_, ?_, ?_⟩
    · simp [gcmAnswers, h, answered]
    · simp [gcmAnswers, h, answered]
    · simp [gcmAnswers, h, answered]
    -- the context is freed before the outcome of the last call is looked at
    show Agrees _ (orThrow _ (evp.decryptFinal ctx) >>= _) none _
    refine agrees_ofCall fun out' => agrees_pureStep fun plaintext' => agrees_pureStep fun len => ?_
    rfl
  · rw [if_pos hkey, if_pos hkey]
    rfl

/-! ### `OpenSSLKeyFactory` -/

/-- The calls of a block, up to the first one that fails. -/
abbrev Calls (κ α : Type) := Prog Fn Fn.Res Empty κ α

variable {κ : Type}

/-- What a call gives; if it has failed, the block ends there. -/
def orElse (what : κ) : Option α → Calls κ α
  | some a => pure a
  | none => .throw what

/-- Those of `generateRsaKeyPair`.  Both BIOs are made before either is looked at. -/
def keygenCalls (bits : Int) : Calls KeygenCall KeyPair := do
  let ctx ← orElse .newContext (← act .pkeyCtxNewId)
  orElse .init (← act (.keygenInit ctx))
  orElse .init (← act (.setKeygenBits ctx bits))
  let pkey ← orElse .keygen (← act (.keygen ctx))
  let pubBio ← act .bioNew
  let privBio ← act .bioNew
  let pubBio ← orElse .newBio pubBio
  let privBio ← orElse .newBio privBio
  orElse .writePem (← act (.writePubkey pubBio pkey))
  orElse .writePem (← act (.writePrivateKey privBio pkey))
  let pub ← act (.getMemData pubBio)
  let priv ← act (.getMemData privBio)
  return ⟨pub, priv⟩

/-- Those of `encryptWithPublicKey`, with the length that is passed for the PEM text. -/
def publicKeyCalls (pem : Str) (len : Int) (data : Bytes) : Calls PublicKeyCall Bytes := do
  let bio ← orElse .newBio (← act (.bioNewMemBuf pem len))
  let pkey ← orElse .readPem (← act (.readPubkey bio))
  let ctx ← orElse .init (← act (.pkeyCtxNew pkey))
  orElse .init (← act (.pkeyEncryptInit ctx))
  orElse .setPadding (← act (.setRsaPadding ctx))
  let outLen ← orElse .getSize (← act (.pkeyEncryptSize ctx data))
  orElse .encrypt (← act (.pkeyEncrypt ctx data outLen))

/-- Those of `decryptWithPrivateKey`. -/
def privateKeyCalls (pem : Str) (len : Int) (data : Bytes) : Calls PrivateKeyCall Bytes := do
  let bio ← orElse .newBio (← act (.bioNewMemBuf pem len))
  let pkey ← orElse .readPem (← act (.readPrivateKey bio))
  let ctx ← orElse .init (← act (.pkeyCtxNew pkey))
  orElse .init (← act (.pkeyDecryptInit ctx))
  orElse .setPadding (← act (.setRsaPadding ctx))
  let outLen ← orElse .getSize (← act (.pkeyDecryptSize ctx data))
  orElse .decrypt (← act (.pkeyDecrypt ctx data outLen))

/-- The library under the interface of `Encryption`; a use starts in a state of its own. -/
def toOpenSSL (lib : Answers σ) (state : Nat → σ) (ssl : OpenSSL) : OpenSSL :=
  { ssl with
    randBytes := fun n size => (lib (.randBytes size) (state n)).1
    rsaKeygen := fun n bits => (eval lib (keygenCalls bits) (state n)).1
    rsaEncrypt := fun n pem len data => (eval lib (publicKeyCalls pem len data) (state n)).1
    rsaDecrypt := fun n pem len data => (eval lib (privateKeyCalls pem len data) (state n)).1 }

/-- Vectors can be allocated, and the library does not write beyond them. -/
structure Roomy (lib : Answers σ) : Prop where
  vector : ∀ size s, lib (.vector size) s = (true, s)
  pkeyEncrypt : ∀ ctx data outLen s out, (lib (.pkeyEncrypt ctx data outLen) s).1 = some out →
    out.length ≤ outLen
  pkeyDecrypt : ∀ ctx data outLen s out, (lib (.pkeyDecrypt ctx data outLen) s).1 = some out →
    out.length ≤ outLen

/-- The program makes the calls of the block, says which one has failed, and ends with `f`. -/
def Follows (lib : Answers σ) (what : κ → String) (f : α → Except Thrown β) (p : Code β)
    (q : Calls κ α) (s : σ) : Prop :=
  (eval lib p s).1 = match (eval lib q s).1 with
    | .ok a => f a
    | .error c => .error (failed (what c))

section Follows

variable {γ : Type} {what : κ → String} {c : κ} {fin : α → Except Thrown β} {s : σ}

theorem follows_orThrow {o : Option γ} {k : γ → Code β} {k' : γ → Calls κ α}
    (hk : ∀ a, o = some a → Follows lib what fin (k a) (k' a) s) :
    Follows lib what fin (orThrow (what c) o >>= k) (orElse c o >>= k') s := by
  rcases o with - | a
  · rfl
  · exact hk a rfl

theorem follows_call {f : Fn} {k : f.Res → Code β} {k' : f.Res → Calls κ α}
    (hk : ∀ r, r = (lib f s).1 → Follows lib what fin (k r) (k' r) (lib f s).2) :
    Follows lib what fin (call f >>= k) ((act f : Calls κ f.Res) >>= k') s :=
  hk _ rfl

theorem follows_uniquePtr {o : Option Object} {p : Code β} {q : Calls κ α}
    (hp : Follows lib what fin p q s) : Follows lib what fin (uniquePtr o p) q s := by
  unfold Follows
  rw [eval_uniquePtr]
  exact hp

theorem follows_vector (hroomy : Roomy lib) {size : Nat} {k : Code β} {q : Calls κ α}
    (hk : Follows lib what fin k q s) : Follows lib what fin (vector size >>= fun _ => k) q s := by
  unfold Follows
  rw [eval_bind, eval_vector (hroomy.vector size s)]
  exact hk

/-- Writing into a vector of sufficient size, and cutting it to what was written. -/
theorem eval_intoVector {size : Nat} {out : Bytes} (hlen : out.length ≤ size) (s : σ) :
    (eval lib (do
      let buffer ← pureStep (writeAt 0 out (List.replicate size 0))
      return resize out.length buffer) s).1 = .ok out := by
  have hwrite : writeAt 0 out (List.replicate size 0)
      = .ok (out ++ (List.replicate size 0).drop out.length) := writeAt_zero (by simpa using hlen)
  rw [hwrite]
  show Except.ok (resize out.length (out ++ (List.replicate size 0).drop out.length)) = .ok out
  have hresize := resize_append_append out [] ((List.replicate size 0).drop out.length)
  rw [List.append_nil, List.length_nil, Nat.add_zero] at hresize
  rw [hresize]

end Follows

theorem generateRsaKeyPair_agrees (hroomy : Roomy lib) (state : Nat → σ) (ssl : OpenSSL) (n : Nat)
    (bits : Int) : Agrees lib (generateRsaKeyPair bits) (state n)
      (OpenSSLKeyFactory.generateRsaKeyPair (toOpenSSL lib state ssl) n bits) := by
  have hfollows : Follows lib KeygenCall.what (fun keyPair =>
      if keyPair.publicKeyPem.length = 0 ∨ keyPair.privateKeyPem.length = 0 then
        .error (failed "Failed to extract PEM from BIO")
      else .ok keyPair) (generateRsaKeyPair bits) (keygenCalls bits) (state n) := by
    refine follows_call fun ctx _ => follows_uniquePtr (follows_orThrow fun ctx _ => ?_)
    refine follows_call fun _ _ => follows_orThrow fun _ _ => ?_
    refine follows_call fun _ _ => follows_orThrow fun _ _ => ?_
    refine follows_call fun pkey _ => follows_uniquePtr (follows_orThrow fun pkey _ => ?_)
    refine follows_call fun pubBio _ => follows_uniquePtr ?_
    refine follows_call fun privBio _ => follows_uniquePtr ?_
    refine follows_orThrow fun pubBio _ => follows_orThrow fun privBio _ => ?_
    refine follows_call fun _ _ => follows_orThrow fun _ _ => ?_
    refine follows_call fun _ _ => follows_orThrow fun _ _ => ?_
    refine follows_call fun pub _ => follows_call fun priv _ => ?_
    by_cases hempty : pub.length = 0 ∨ priv.length = 0
    · rw [if_pos hempty]
      show _ = ite (pub.length = 0 ∨ priv.length = 0) _ _
      rw [if_pos hempty]
      rfl
    · rw [if_neg hempty]
      refine follows_vector hroomy (follows_vector hroomy ?_)
      show _ = ite (pub.length = 0 ∨ priv.length = 0) _ _
      rw [if_neg hempty]
      rfl
  unfold Agrees OpenSSLKeyFactory.generateRsaKeyPair
  have hkeygen : (toOpenSSL lib state ssl).rsaKeygen n bits
      = (eval lib (keygenCalls bits) (state n)).1 := rfl
  rw [hfollows, hkeygen]
  rcases (eval lib (keygenCalls bits) (state n)).1 with call | keyPair
  · rfl
  · show ite _ _ _ = Except.mapError _ (ite _ _ _)
    split <;> rfl

theorem generateSymmetricKey_agrees (hroomy : Roomy lib) (state : Nat → σ) (ssl : OpenSSL)
    (n size : Nat) : Agrees lib (generateSymmetricKey size) (state n)
      (OpenSSLKeyFactory.generateSymmetricKey (toOpenSSL lib state ssl) n size) := by
  refine agrees_vector (hroomy.vector size _) ?_
  unfold Agrees OpenSSLKeyFactory.generateSymmetricKey
  have hrand : (toOpenSSL lib state ssl).randBytes n size = (lib (.randBytes size) (state n)).1 :=
    rfl
  rw [eval_call, hrand]
  rcases (lib (.randBytes size) (state n)).1 with - | key
  · rfl
  · rfl

theorem encryptWithPublicKey_agrees (hroomy : Roomy lib) (state : Nat → σ) (ssl : OpenSSL)
    (n : Nat) (publicKeyPem : Str) (data : Bytes) :
    Agrees lib (encryptWithPublicKey publicKeyPem data) (state n)
      (OpenSSLKeyFactory.encryptWithPublicKey (toOpenSSL lib state ssl) n publicKeyPem data) := by
  have hfollows : Follows lib PublicKeyCall.what .ok (encryptWithPublicKey publicKeyPem data)
      (publicKeyCalls publicKeyPem (toInt publicKeyPem.length) data) (state n) := by
    refine follows_call fun bio _ => follows_uniquePtr (follows_orThrow fun bio _ => ?_)
    refine follows_call fun pkey _ => follows_uniquePtr (follows_orThrow fun pkey _ => ?_)
    refine follows_call fun ctx _ => follows_uniquePtr (follows_orThrow fun ctx _ => ?_)
    refine follows_call fun _ _ => follows_orThrow fun _ _ => ?_
    refine follows_call fun _ _ => follows_orThrow fun _ _ => ?_
    refine follows_call fun outLen _ => follows_orThrow fun outLen _ => ?_
    refine follows_vector hroomy (follows_call fun out hout => ?_)
    rcases out with - | out
    · rfl
    · exact eval_intoVector (hroomy.pkeyEncrypt _ _ _ _ _ hout.symm) _
  unfold Agrees OpenSSLKeyFactory.encryptWithPublicKey
  have hcalls : (toOpenSSL lib state ssl).rsaEncrypt n publicKeyPem (toInt publicKeyPem.length) data
      = (eval lib (publicKeyCalls publicKeyPem (toInt publicKeyPem.length) data) (state n)).1 := rfl
  rw [hfollows, hcalls]
  rcases (eval lib (publicKeyCalls _ _ data) (state n)).1 with call | out
  · rfl
  · rfl

theorem decryptWithPrivateKey_agrees (hroomy : Roomy lib) (state : Nat → σ) (ssl : OpenSSL)
    (n : Nat) (privateKeyPem : Str) (encryptedData : Bytes) :
    Agrees lib (decryptWithPrivateKey privateKeyPem encryptedData) (state n)
      (OpenSSLKeyFactory.decryptWithPrivateKey (toOpenSSL lib state ssl) n privateKeyPem
        encryptedData) := by
  have hfollows : Follows lib PrivateKeyCall.what .ok
      (decryptWithPrivateKey privateKeyPem encryptedData)
      (privateKeyCalls privateKeyPem (toInt privateKeyPem.length) encryptedData) (state n) := by
    refine follows_call fun bio _ => follows_uniquePtr (follows_orThrow fun bio _ => ?_)
    refine follows_call fun pkey _ => follows_uniquePtr (follows_orThrow fun pkey _ => ?_)
    refine follows_call fun ctx _ => follows_uniquePtr (follows_orThrow fun ctx _ => ?_)
    refine follows_call fun _ _ => follows_orThrow fun _ _ => ?_
    refine follows_call fun _ _ => follows_orThrow fun _ _ => ?_
    refine follows_call fun outLen _ => follows_orThrow fun outLen _ => ?_
    refine follows_vector hroomy (follows_call fun out hout => ?_)
    rcases out with - | out
    · rfl
    · exact eval_intoVector (hroomy.pkeyDecrypt _ _ _ _ _ hout.symm) _
  unfold Agrees OpenSSLKeyFactory.decryptWithPrivateKey
  have hcalls : (toOpenSSL lib state ssl).rsaDecrypt n privateKeyPem
      (toInt privateKeyPem.length) encryptedData = (eval lib (privateKeyCalls privateKeyPem
        (toInt privateKeyPem.length) encryptedData) (state n)).1 := rfl
  rw [hfollows, hcalls]
  rcases (eval lib (privateKeyCalls _ _ encryptedData) (state n)).1 with call | out
  · rfl
  · rfl

/-- **The functions are those of `Gcm` and `Encryption`**, over every library. -/
theorem functions_agree (evp : EvpGcm Ctx) (newCtx : Option Ctx)
    (rand : (size : Nat) → Option (Buffer size)) (hroomy : Roomy lib) (state : Nat → σ)
    (ssl : OpenSSL) :
    (∀ plaintext key, Agrees (gcmAnswers evp newCtx rand) (encrypt plaintext key) none
      (encryptWith evp newCtx (rand gcmIvLen) plaintext key)) ∧
    (∀ ciphertext key, Agrees (gcmAnswers evp newCtx rand) (decrypt ciphertext key) none
      (decryptWith evp newCtx ciphertext key)) ∧
    (∀ n bits, Agrees lib (generateRsaKeyPair bits) (state n)
      (OpenSSLKeyFactory.generateRsaKeyPair (toOpenSSL lib state ssl) n bits)) ∧
    (∀ n size, Agrees lib (generateSymmetricKey size) (state n)
      (OpenSSLKeyFactory.generateSymmetricKey (toOpenSSL lib state ssl) n size)) ∧
    (∀ n publicKeyPem data, Agrees lib (encryptWithPublicKey publicKeyPem data) (state n)
      (OpenSSLKeyFactory.encryptWithPublicKey (toOpenSSL lib state ssl) n publicKeyPem data)) ∧
    ∀ n privateKeyPem data, Agrees lib (decryptWithPrivateKey privateKeyPem data) (state n)
      (OpenSSLKeyFactory.decryptWithPrivateKey (toOpenSSL lib state ssl) n privateKeyPem data) :=
  ⟨encrypt_agrees evp newCtx rand, decrypt_agrees evp newCtx rand,
    generateRsaKeyPair_agrees hroomy state ssl, generateSymmetricKey_agrees hroomy state ssl,
    encryptWithPublicKey_agrees hroomy state ssl, decryptWithPrivateKey_agrees hroomy state ssl⟩

/-- A library that encrypts to the data itself, but generates no keys. -/
def echoing : Answers Unit
  | .vector _, s => (true, s)
  | .bioNewMemBuf .., s => (some 0, s)
  | .readPubkey _, s => (some 1, s)
  | .pkeyCtxNew _, s => (some 2, s)
  | .pkeyEncryptInit _, s => (some (), s)
  | .setRsaPadding _, s => (some (), s)
  | .pkeyEncryptSize _ data, s => (some data.length, s)
  | .pkeyEncrypt _ data outLen, s => (if data.length ≤ outLen then some data else none, s)
  | f, s => (f.fails, s)

theorem roomy_echoing : Roomy echoing where
  vector _ _ := rfl
  pkeyEncrypt ctx data outLen s out hout := by
    have hout' : (if data.length ≤ outLen then some data else none) = some out := hout
    split at hout'
    · next hle =>
      cases hout'
      exact hle
    · cases hout'
  pkeyDecrypt ctx data outLen s out hout := by cases hout

/-- It encrypts two bytes, and has no private keys. -/
theorem functions_agree_echoing :
    Agrees echoing (encryptWithPublicKey (str "pem") [1, 2]) () (.ok [1, 2]) ∧
      Agrees echoing (decryptWithPrivateKey (str "pem") [1, 2]) ()
        (.error (callFailed "Failed to parse private key PEM")) := by
  have h := functions_agree EvpGcm.reference none (fun _ => none) roomy_echoing (fun _ => ())
    OpenSSL.reference
  exact ⟨h.2.2.2.2.1 0 (str "pem") [1, 2], h.2.2.2.2.2 0 (str "pem") [1, 2]⟩

end Evp

end Evlampy
