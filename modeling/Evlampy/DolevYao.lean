/-
Evlampy/DolevYao.lean

Cryptography as a term algebra.  A message is a term over secret names, key
pairs and public data; who knows a set of terms can hash and encrypt, and can
decrypt with the right key, but nothing more: `Derives` is the smallest relation
with these rules.  Hashes cannot be inverted, and a ciphertext says nothing
without its key.

Secrecy is shown with a closed set.  `Term.Safe` describes the terms that give
away none of the names in `hidden` and none of the private keys in `locked`: a
ciphertext is safe if what is inside is, or if the key to open it is not.  No rule
leads out of the safe terms (`Derives.safe`), so whoever knows safe terms only
learns no hidden name and no locked key.
-/
import Mathlib.Tactic.TypeStar

namespace DolevYao

/-- Terms over secret names `N`, public keys `P`, private keys `S` and data `D`. -/
inductive Term (N P S D : Type)
  | data (d : D)
  | name (n : N)
  | publicKey (p : P)
  | privateKey (s : S)
  | hash (t : Term N P S D)
  /-- Encrypted under a public key. -/
  | aenc (p : P) (t : Term N P S D)
  /-- Encrypted under a key that is a term itself. -/
  | senc (key t : Term N P S D)

variable {N P S D : Type}

/-- What can be derived from known terms.  `Opens s p` says that the private key
`s` opens what is encrypted under `p`. -/
inductive Derives (Opens : S → P → Prop) (known : Term N P S D → Prop) : Term N P S D → Prop
  | known {t : Term N P S D} (h : known t) : Derives Opens known t
  | data (d : D) : Derives Opens known (.data d)
  | hash {t : Term N P S D} (h : Derives Opens known t) : Derives Opens known (.hash t)
  | aenc {p : P} {t : Term N P S D} (hp : Derives Opens known (.publicKey p))
      (h : Derives Opens known t) : Derives Opens known (.aenc p t)
  | adec {p : P} {s : S} {t : Term N P S D} (hopens : Opens s p)
      (h : Derives Opens known (.aenc p t)) (hs : Derives Opens known (.privateKey s)) :
      Derives Opens known t
  | senc {key t : Term N P S D} (hkey : Derives Opens known key) (h : Derives Opens known t) :
      Derives Opens known (.senc key t)
  | sdec {key t : Term N P S D} (h : Derives Opens known (.senc key t))
      (hkey : Derives Opens known key) : Derives Opens known t

/-! ### The closed set -/

/-- Terms that give away no hidden name and no locked private key. -/
def Term.Safe (Opens : S → P → Prop) (hidden : N → Prop) (locked : S → Prop) :
    Term N P S D → Prop
  | data _ => True
  | name n => ¬ hidden n
  | publicKey _ => True
  | privateKey s => ¬ locked s
  | hash _ => True
  | aenc p t => t.Safe Opens hidden locked ∨ ∀ s, Opens s p → locked s
  | senc key t => t.Safe Opens hidden locked ∨ ¬ key.Safe Opens hidden locked

variable {Opens : S → P → Prop} {hidden : N → Prop} {locked : S → Prop}
  {known : Term N P S D → Prop}

/-- **Safe terms are closed**: from safe terms only safe terms can be derived. -/
theorem Derives.safe (hknown : ∀ t, known t → t.Safe Opens hidden locked) {t : Term N P S D}
    (h : Derives Opens known t) : t.Safe Opens hidden locked := by
  induction h with
  | known h => exact hknown _ h
  | data d => trivial
  | hash _ _ => trivial
  | aenc _ _ _ ih => exact Or.inl ih
  | adec hopens _ _ ih ihs =>
      rcases ih with ht | hlocked
      · exact ht
      · exact absurd (hlocked _ hopens) ihs
  | senc _ _ _ ih => exact Or.inl ih
  | sdec _ _ ih ihkey =>
      rcases ih with ht | hunsafe
      · exact ht
      · exact absurd ihkey hunsafe

/-- Hidden names stay hidden. -/
theorem not_derives_name (hknown : ∀ t, known t → t.Safe Opens hidden locked) {n : N}
    (hn : hidden n) : ¬ Derives Opens known (.name n) := by
  intro h
  exact h.safe hknown hn

/-- Locked private keys stay unknown. -/
theorem not_derives_privateKey (hknown : ∀ t, known t → t.Safe Opens hidden locked) {s : S}
    (hs : locked s) : ¬ Derives Opens known (.privateKey s) := by
  intro h
  exact h.safe hknown hs

end DolevYao
