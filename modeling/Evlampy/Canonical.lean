/-
Evlampy/Canonical.lean

Which texts the decoders accept that no encoder writes.  `base64Decode` takes the
padding from the last two characters of the text as it stands, while the library
trims the text first and reads `=` as zero bits wherever it is: blanks, leftover
bits and padding in the wrong place are all accepted (`base64Encode_undoes_iff`).
`deserialize` reads numbers with `stoll` and `stoi` and casts one of them to an
enumeration: a wire that can be read at all keeps its header only if that was
printed by `serialize` (`header_contract_iff`).
-/
import Evlampy.Codec

namespace Evlampy

open Cxx

/-! ### The library's decoder -/

/-- `EVP_DecodeBlock` on all of a text: it trims, wants groups of four characters
of the alphabet or `=`, and returns three bytes a group. -/
structure EvpBase64.Described (evp : EvpBase64) : Prop extends evp.Documented where
  decodeBlock_reads : ∀ (f : Str) (out : Bytes), f.length < 2 ^ 31 →
    evp.decodeBlock f f.length = some out →
      (EvpBase64.trim f).length % 4 = 0 ∧ (EvpBase64.trim f).all Base64.isText ∧
        out = Base64.decodeQuads (EvpBase64.trim f)
  /-- Line ends and dashes alone may be refused, although nothing is left of them: OpenSSL drops
  no more of them than leaves three characters. -/
  decodeBlock_accepts : ∀ f : Str, f.length < 2 ^ 31 → (EvpBase64.trim f).length % 4 = 0 →
    (EvpBase64.trim f).all Base64.isText → (EvpBase64.trim f = [] → f.all EvpBase64.isLeading) →
      (evp.decodeBlock f f.length).isSome

/-- Of blanks, and of a text of which letters are left, OpenSSL leaves the same. -/
theorem EvpBase64.strip_of_trim {f : Str} (hquads : (trim f).length % 4 = 0)
    (hblank : trim f = [] → f.all isLeading) : strip f = trim f := by
  rcases strip_cases f with heq | ⟨hlt, hle⟩
  · exact heq
  · have hnil : trim f = [] := List.length_eq_zero_iff.mp (by omega)
    have hdrop : f.dropWhile isLeading = [] :=
      List.dropWhile_eq_nil_iff.mpr (List.all_eq_true.mp (hblank hnil))
    rw [hnil, strip, hdrop]
    rfl

theorem EvpBase64.reference_described : reference.Described where
  toDocumented := reference_documented
  decodeBlock_reads f out _ h := by
    simp only [reference, Int.toNat_natCast, List.take_length] at h
    split at h
    · next hgood =>
      rw [← strip_eq_trim hgood.1]
      exact ⟨hgood.1, hgood.2, (Option.some.inj h).symm⟩
    · cases h
  decodeBlock_accepts f _ hquads htext hblank := by
    simp only [reference, Int.toNat_natCast, List.take_length, strip_of_trim hquads hblank]
    rw [if_pos ⟨hquads, htext⟩]
    rfl

namespace EvpBase64

/-- Trimming stops at padding. -/
theorem trim_ne_nil {f : Str} (h : f.getLast? = some Base64.padChar) : trim f ≠ [] := by
  intro htrim
  have hall := List.rdropWhile_eq_nil_iff.mp htrim
  have hlead : ∀ c ∈ f, isTrailing c = true := by
    intro c hc
    rw [← List.takeWhile_append_dropWhile (p := isLeading) (l := f), List.mem_append] at hc
    rcases hc with hc | hc
    · have hl : isLeading c = true := List.all_eq_true.mp List.all_takeWhile c hc
      simp only [isLeading, Bool.or_eq_true, beq_iff_eq] at hl
      rcases hl with rfl | rfl
      · decide
      · decide
    · exact hall c hc
  exact absurd (hlead _ (List.mem_of_getLast? h)) (by decide)

end EvpBase64

namespace MessageProtocol

variable {evp : EvpBase64}

/-! ### Base64 -/

/-- Text the library refuses (`decodeBlock_eq_none_iff`).  Where nothing is left after trimming,
that is for the library to say. -/
def Refused (evp : EvpBase64) (base64 : Str) : Prop :=
  (EvpBase64.trim base64).length % 4 ≠ 0 ∨
    (∃ c ∈ EvpBase64.trim base64, Base64.isText c = false) ∨
    EvpBase64.trim base64 = [] ∧ evp.decodeBlock base64 base64.length = none

/-- The encoder gives back the text the decoder has read. -/
def Undoes (evp : EvpBase64) (base64 : Str) : Prop :=
  (∃ e, base64Decode evp base64 = .error (.std e)) ∨
    ∃ v, base64Decode evp base64 = .ok v ∧ base64Encode evp v = .ok base64

theorem decodeBlock_eq_none_iff (hevp : evp.Described) {base64 : Str}
    (hlen : base64.length < 2 ^ 31) :
    evp.decodeBlock base64 base64.length = none ↔ Refused evp base64 := by
  constructor
  · intro hnone
    by_contra hno
    simp only [Refused, not_or, not_and, not_not, not_exists, Bool.not_eq_false] at hno
    obtain ⟨hquads, htext, hleft⟩ := hno
    have hsome := hevp.decodeBlock_accepts base64 hlen hquads (List.all_eq_true.mpr htext)
      fun hnil => absurd hnone (hleft hnil)
    rw [hnone] at hsome
    cases hsome
  · intro h
    rcases hdec : evp.decodeBlock base64 base64.length with - | out
    · rfl
    · obtain ⟨hquads, htext, -⟩ := hevp.decodeBlock_reads base64 out hlen hdec
      rcases h with h | ⟨c, hc, hno⟩ | ⟨-, hnone⟩
      · exact absurd hquads h
      · exact absurd (List.all_eq_true.mp htext c hc) (by simp [hno])
      · rw [hdec] at hnone
        cases hnone

/-- The padding that is taken off was written: a text that ends with padding has
a group of four. -/
theorem base64Pad_le (hevp : evp.Described) {base64 : Str} {bytes : Bytes}
    (hlen : base64.length < 2 ^ 31)
    (h : evp.decodeBlock base64 base64.length = some bytes) : base64Pad base64 ≤ bytes.length := by
  by_cases hlast : base64.getLast? = some Base64.padChar
  · have hpads : base64Pad base64 ≤ 2 := by
      unfold base64Pad
      split
      · split
        · exact le_rfl
        · exact Nat.le_succ 1
      · exact Nat.zero_le 2
    have hpos := List.length_pos_iff.mpr (EvpBase64.trim_ne_nil hlast)
    obtain ⟨hquads, -, rfl⟩ := hevp.decodeBlock_reads base64 bytes hlen h
    rw [Base64.length_decodeQuads]
    omega
  · have hzero : base64Pad base64 = 0 := if_neg hlast
    omega

/-- What the library accepts, the decoder returns. -/
theorem refused_of_base64Decode (hevp : evp.Described) {base64 : Str}
    (hlen : base64.length < 2 ^ 31) {x : Exn} (h : base64Decode evp base64 = .error x) :
    Refused evp base64 := by
  rw [← decodeBlock_eq_none_iff hevp hlen]
  unfold base64Decode at h
  rw [toInt_of_lt hlen] at h
  split at h
  · cases h
  · dsimp only at h
    split at h
    · assumption
    · next bytes hbytes =>
      rw [if_neg (not_lt.mpr (base64Pad_le hevp hlen hbytes))] at h
      cases h

theorem base64Decode_of_refused (hevp : evp.Described) {base64 : Str}
    (hlen : base64.length < 2 ^ 31) (h : Refused evp base64) :
    ∃ e, base64Decode evp base64 = .error (.std e) := by
  have hne : base64 ≠ [] := by
    rintro rfl
    have hsome := hevp.decodeBlock_accepts [] hlen rfl rfl fun _ => rfl
    rw [(decodeBlock_eq_none_iff hevp hlen).mpr h] at hsome
    cases hsome
  apply (throwsStd_base64Decode base64).exists_error
  intro v hv
  obtain ⟨bytes, hbytes, -⟩ := (base64Decode_eq_ok hne).mp hv
  rw [toInt_of_lt hlen, (decodeBlock_eq_none_iff hevp hlen).mpr h] at hbytes
  cases hbytes

/-- Canonical text is decoded, and encoded again as it was. -/
theorem base64Encode_base64Decode (hevp : evp.Described) {base64 : Str}
    (hlen : base64.length < 2 ^ 31) (h : Base64.Canonical base64) :
    ∃ v, base64Decode evp base64 = .ok v ∧ base64Encode evp v = .ok base64 := by
  obtain ⟨v, rfl⟩ := Base64.canonical_iff.mp h
  have hv := Base64.length_encode v
  have hmax : v.length ≤ maxBytes := by
    unfold maxBytes
    omega
  exact ⟨v, base64Decode_encode hevp.toDocumented hmax, base64Encode_eq hevp.toDocumented hmax⟩

/-- Text the encoder writes is canonical. -/
theorem canonical_of_base64Encode (hevp : evp.Described) {base64 : Str} {v : Bytes}
    (hmax : v.length ≤ maxBytes) (h : base64Encode evp v = .ok base64) :
    Base64.Canonical base64 := by
  rw [base64Encode_eq hevp.toDocumented hmax] at h
  exact Base64.canonical_iff.mpr ⟨v, Except.ok.inj h⟩

theorem undoes_iff (hevp : evp.Described) {base64 : Str} (hlen : base64.length < 2 ^ 31) :
    Undoes evp base64 ↔ Refused evp base64 ∨ Base64.Canonical base64 := by
  constructor
  · rintro (⟨e, he⟩ | ⟨v, hv, hback⟩)
    · exact Or.inl (refused_of_base64Decode hevp hlen he)
    · exact Or.inr (canonical_of_base64Encode hevp (base64Decode_length hevp.toDocumented hv) hback)
  · rintro (h | h)
    · exact Or.inl (base64Decode_of_refused hevp hlen h)
    · exact Or.inr (base64Encode_base64Decode hevp hlen h)

/-- **The encoder undoes the decoder** exactly on the texts the library refuses
and on canonical ones, and no two of these decode to the same bytes. -/
theorem base64Encode_undoes_iff (hevp : evp.Described) :
    (∀ base64 : Str, base64.length < 2 ^ 31 →
      (Undoes evp base64 ↔ Refused evp base64 ∨ Base64.Canonical base64)) ∧
    ∀ (text text' : Str) (v : Bytes), text.length < 2 ^ 31 → text'.length < 2 ^ 31 →
      (Refused evp text ∨ Base64.Canonical text) → (Refused evp text' ∨ Base64.Canonical text') →
      base64Decode evp text = .ok v → base64Decode evp text' = .ok v → text = text' := by
  constructor
  · exact fun base64 hlen => undoes_iff hevp hlen
  · have hback : ∀ {text : Str} {v : Bytes}, text.length < 2 ^ 31 →
        (Refused evp text ∨ Base64.Canonical text) → base64Decode evp text = .ok v →
        base64Encode evp v = .ok text := by
      intro text v hlen hcond hdec
      rcases (undoes_iff hevp hlen).mpr hcond with ⟨e, he⟩ | ⟨v', hv', henc⟩
      · rw [he] at hdec
        cases hdec
      · rw [hdec] at hv'
        rw [Except.ok.inj hv']
        exact henc
    intro text text' v hlen hlen' hcond hcond' hdec hdec'
    exact Except.ok.inj ((hback hlen hcond hdec).symm.trans (hback hlen' hcond' hdec'))

theorem base64Encode_undoes_iff_reference :
    Undoes .reference (str "QQ==") ↔
      Refused .reference (str "QQ==") ∨ Base64.Canonical (str "QQ==") :=
  (base64Encode_undoes_iff EvpBase64.reference_described).1 (str "QQ==") (by decide)

/-- A line end behind, a blank in front, leftover bits: three texts that are no
encoding, two of which decode to the same bytes. -/
theorem base64Encode_undoes_not :
    base64Decode .reference (str "QQ==\n") = .ok [65, 0, 0] ∧
      base64Encode .reference [65, 0, 0] = .ok (str "QQAA") ∧
      base64Decode .reference (str " QQ==") = .ok [65] ∧
      base64Decode .reference (str "QR==") = .ok [65] ∧
      ¬ ∀ base64 : Str, base64.length < 2 ^ 31 → Undoes .reference base64 := by
  have hdec : base64Decode .reference (str "QQ==\n") = .ok [65, 0, 0] := by decide
  have henc : base64Encode .reference [65, 0, 0] = .ok (str "QQAA") := by decide
  refine ⟨hdec, henc, by decide, by decide, fun h => ?_⟩
  rcases h (str "QQ==\n") (by decide) with ⟨e, he⟩ | ⟨v, hv, hback⟩
  · rw [hdec] at he
    cases he
  · rw [hdec] at hv
    rw [← Except.ok.inj hv, henc] at hback
    exact absurd (Except.ok.inj hback) (by decide)

/-! ### Headers -/

/-- One of the three enumerators. -/
def Enumerator (status : MessageStatus) : Prop :=
  status = .sent ∨ status = .delivered ∨ status = .read

/-- The four texts between the names and the byte fields. -/
def headerOf (wire : Str) : List Str :=
  [(split wire bar).getD 4 [], (split wire bar).getD 5 [], (split wire bar).getD 6 [],
    (split wire bar).getD 7 []]

/-- A header as `serialize` prints it: a decimal 64-bit number, a status between
0 and 2, and two flags. -/
def CanonicalHeader (wire : Str) : Prop :=
  ∃ (timestamp : Int64) (status : MessageStatus) (isGroupMessage deletedForAll : Bool),
    Enumerator status ∧
      headerOf wire = [Digits.signed timestamp.toInt, Digits.signed status.value.toInt,
        flagText isGroupMessage, flagText deletedForAll]

/-- A field that is read as a number of the given number of bits. -/
def ReadsAs (bits : Nat) (field : Str) : Prop :=
  ∃ z, Digits.Numeral field z ∧ -2 ^ (bits - 1) ≤ z ∧ z < 2 ^ (bits - 1)

/-- A wire every field of which can be read. -/
structure Readable (evp : EvpBase64) (parts : List Str) : Prop where
  count : parts.length = 10 ∨ parts.length = 11
  timestamp : ReadsAs 64 (parts.getD 4 [])
  status : ReadsAs 32 (parts.getD 5 [])
  isGroupMessage : ReadsAs 32 (parts.getD 6 [])
  deletedForAll : ReadsAs 32 (parts.getD 7 [])
  encryptedSessionKey : ∃ v, base64Decode evp (parts.getD 8 []) = .ok v
  encryptedPayload : ∃ v, base64Decode evp (parts.getD 9 []) = .ok v
  encryptedSelfSessionKey : parts.length = 11 → ∃ v, base64Decode evp (parts.getD 10 []) = .ok v

/-- What is accepted has a known status and a header `serialize` would print for
it; a wire with any other header is refused. -/
structure HeaderContract (evp : EvpBase64) (wire : Str) : Prop where
  accepted : ∀ m, deserialize evp wire = .ok m → Enumerator m.status ∧ headerOf wire = numbers m
  refused : ¬ CanonicalHeader wire → ∃ e, deserialize evp wire = .error (.std e)

theorem readsAs_stoll {field : Str} : ReadsAs 64 field ↔ ∃ n, stoll field = .ok n := by
  constructor
  · rintro ⟨z, hz, hrange⟩
    exact ⟨_, stoll_eq_ok.mpr ⟨z, hz, hrange, rfl⟩⟩
  · rintro ⟨n, hn⟩
    obtain ⟨z, hz, hrange, -⟩ := stoll_eq_ok.mp hn
    exact ⟨z, hz, hrange⟩

theorem readsAs_stoi {field : Str} : ReadsAs 32 field ↔ ∃ n, stoi field = .ok n := by
  constructor
  · rintro ⟨z, hz, hrange⟩
    exact ⟨_, stoi_eq_ok.mpr ⟨z, hz, hrange, rfl⟩⟩
  · rintro ⟨n, hn⟩
    obtain ⟨z, hz, hrange, -⟩ := stoi_eq_ok.mp hn
    exact ⟨z, hz, hrange⟩

/-- The wires `deserialize` accepts are those whose fields can be read. -/
theorem readable_iff {wire : Str} :
    Readable evp (split wire bar) ↔ ∃ m, deserialize evp wire = .ok m := by
  constructor
  · intro h
    obtain ⟨timestamp, hts⟩ := readsAs_stoll.mp h.timestamp
    obtain ⟨status, hst⟩ := readsAs_stoi.mp h.status
    obtain ⟨group, hg⟩ := readsAs_stoi.mp h.isGroupMessage
    obtain ⟨deleted, hd⟩ := readsAs_stoi.mp h.deletedForAll
    obtain ⟨key, hkey⟩ := h.encryptedSessionKey
    obtain ⟨payload, hpayload⟩ := h.encryptedPayload
    have hself : ∃ self, (if (split wire bar).length = 11 then
        base64Decode evp ((split wire bar).getD 10 []) else .ok []) = .ok self := by
      split
      · next hlen => exact h.encryptedSelfSessionKey hlen
      · exact ⟨[], rfl⟩
    obtain ⟨self, hself⟩ := hself
    let m : Message := {
      messageId := (split wire bar).getD 0 []
      sender := (split wire bar).getD 1 []
      receiver := (split wire bar).getD 2 []
      chatId := (split wire bar).getD 3 []
      encryptedSessionKey := key
      encryptedSelfSessionKey := self
      encryptedPayload := payload
      timestamp := timestamp
      status := ⟨status⟩
      isGroupMessage := decide (group ≠ 0)
      deletedForAll := decide (deleted ≠ 0) }
    refine ⟨m, deserialize_iff.mpr ?_⟩
    exact ⟨h.count, rfl, rfl, rfl, rfl, hts, hst, ⟨group, hg, rfl⟩, ⟨deleted, hd, rfl⟩, hkey,
      hpayload, hself⟩
  · rintro ⟨m, hm⟩
    have h := deserialize_iff.mp hm
    obtain ⟨group, hg, -⟩ := h.isGroupMessage
    obtain ⟨deleted, hd, -⟩ := h.deletedForAll
    refine ⟨h.count, readsAs_stoll.mpr ⟨_, h.timestamp⟩, readsAs_stoi.mpr ⟨_, h.status⟩,
      readsAs_stoi.mpr ⟨_, hg⟩, readsAs_stoi.mpr ⟨_, hd⟩, ⟨_, h.encryptedSessionKey⟩,
      ⟨_, h.encryptedPayload⟩, fun hlen => ?_⟩
    have hself := h.encryptedSelfSessionKey
    rw [if_pos hlen] at hself
    exact ⟨_, hself⟩

/-- Of a header as `serialize` prints it, the parsed values print the same. -/
theorem headerOf_eq_numbers {wire : Str} {m : Message} (hm : deserialize evp wire = .ok m)
    (h : CanonicalHeader wire) : Enumerator m.status ∧ headerOf wire = numbers m := by
  obtain ⟨timestamp, status, group, deleted, hstatus, hheader⟩ := h
  have hreads := deserialize_iff.mp hm
  simp only [headerOf, List.cons.injEq, and_true] at hheader
  obtain ⟨h4, h5, h6, h7⟩ := hheader
  have hts := hreads.timestamp
  rw [h4, stoll_signed] at hts
  have hst := hreads.status
  rw [h5, stoi_signed] at hst
  obtain ⟨g, hg, hgroup⟩ := hreads.isGroupMessage
  obtain ⟨g', hg', hflag⟩ := stoi_flagText group
  rw [h6, hg'] at hg
  obtain ⟨d, hd, hdeleted⟩ := hreads.deletedForAll
  obtain ⟨d', hd', hflag'⟩ := stoi_flagText deleted
  rw [h7, hd'] at hd
  have hsame : status = m.status := congrArg MessageStatus.mk (Except.ok.inj hst)
  rw [← Except.ok.inj hg, ← hflag] at hgroup
  rw [← Except.ok.inj hd, ← hflag'] at hdeleted
  refine ⟨hsame ▸ hstatus, ?_⟩
  rw [headerOf, h4, h5, h6, h7, numbers, ← Except.ok.inj hts, ← hsame, hgroup, hdeleted]

/-- **The parser keeps its headers well formed** on a wire if and only if the
wire cannot be read at all or has a header as `serialize` prints it. -/
theorem header_contract_iff (evp : EvpBase64) (wire : Str) :
    HeaderContract evp wire ↔ (Readable evp (split wire bar) → CanonicalHeader wire) := by
  constructor
  · intro h hread
    obtain ⟨m, hm⟩ := readable_iff.mp hread
    obtain ⟨hstatus, hheader⟩ := h.accepted m hm
    exact ⟨m.timestamp, m.status, m.isGroupMessage, m.deletedForAll, hstatus, hheader⟩
  · intro h
    constructor
    · intro m hm
      exact headerOf_eq_numbers hm (h (readable_iff.mpr ⟨m, hm⟩))
    · intro hno
      apply (throwsStd_deserialize wire).exists_error
      intro m hm
      exact hno (h (readable_iff.mpr ⟨m, hm⟩))

/-- A wire with a blank, a sign and trailing letters in its numbers. -/
def looseWire : Str := str "m1|alice|bob|| +12ab|7|-3|00|QQ==|QQ=="

/-- It is accepted, as a message of the seventh status. -/
theorem header_contract_not :
    (∃ m, deserialize .reference looseWire = .ok m ∧ m.timestamp = 12 ∧ m.status = ⟨7⟩ ∧
      m.isGroupMessage = true ∧ m.deletedForAll = false) ∧
      ¬ ∀ wire, HeaderContract .reference wire := by
  have hm : deserialize .reference looseWire = .ok {
      messageId := str "m1"
      sender := str "alice"
      receiver := str "bob"
      chatId := []
      encryptedSessionKey := [65]
      encryptedSelfSessionKey := []
      encryptedPayload := [65]
      timestamp := 12
      status := ⟨7⟩
      isGroupMessage := true
      deletedForAll := false } := by decide
  refine ⟨⟨_, hm, rfl, rfl, rfl, rfl⟩, fun h => ?_⟩
  obtain ⟨hstatus, -⟩ := (h looseWire).accepted _ hm
  rcases hstatus with e | e | e
  all_goals exact absurd e (by decide)

end MessageProtocol

end Evlampy
