/-
Evlampy/Codec.lean

What the wire format preserves.  A wire is the text of eleven fields with bars
between them, and `deserialize` accepts a text exactly where its pieces read as
the fields of a message (`deserialize_iff`).  A bar inside a name shifts all the
later pieces to the right; `wire_faithful` shows that such a wire is always
refused, the ten-field form included: with exactly one stray bar its ninth piece
is the text of a flag, a single character, which is no base64.
-/
import Evlampy.MessageProtocol
import Mathlib.Data.List.GetD

namespace Evlampy

open Cxx

namespace MessageProtocol

variable {evp : EvpBase64}

/-! ### Splitting -/

theorem splitLoop_eq (delimiter : UInt8) (text : Str) (parts : List Str) (current : Str) :
    splitLoop delimiter text parts current
      = parts ++ (text.splitOn delimiter).modifyHead (current ++ ·) := by
  induction text generalizing parts current with
  | nil => simp [splitLoop]
  | cons ch text ih =>
      rw [List.splitOn_cons_eq_if_modifyHead]
      by_cases h : ch = delimiter
      · obtain ⟨first, rest, he⟩ := List.exists_cons_of_ne_nil
          (List.splitOn_ne_nil delimiter text)
        simp [splitLoop, h, ih, he]
      · obtain ⟨first, rest, he⟩ := List.exists_cons_of_ne_nil
          (List.splitOn_ne_nil delimiter text)
        simp [splitLoop, h, ih, he]

theorem split_eq (text : Str) (delimiter : UInt8) :
    split text delimiter = text.splitOn delimiter := by
  obtain ⟨first, rest, he⟩ := List.exists_cons_of_ne_nil (List.splitOn_ne_nil delimiter text)
  simp [split, splitLoop_eq, he]

/-- There is one piece more than there are delimiters. -/
theorem length_split (text : Str) (delimiter : UInt8) :
    (split text delimiter).length = text.count delimiter + 1 := by
  rw [split_eq]
  induction text with
  | nil => rfl
  | cons ch text ih =>
      rw [List.splitOn_cons_eq_if_modifyHead]
      by_cases h : ch = delimiter
      · simp [h, ih]
      · simp [h, ih]

/-- Text without the delimiter is one piece. -/
theorem split_of_notMem {text : Str} (h : bar ∉ text) : split text bar = [text] := by
  rw [split_eq, List.splitOn_eq_singleton h]

/-- A piece holds no delimiter. -/
theorem notMem_of_mem_split {text piece : Str} (h : piece ∈ split text bar) : bar ∉ piece := by
  rw [split_eq] at h
  induction text generalizing piece with
  | nil => simp_all
  | cons ch text ih =>
      rw [List.splitOn_cons_eq_if_modifyHead] at h
      obtain ⟨first, rest, he⟩ := List.exists_cons_of_ne_nil (List.splitOn_ne_nil bar text)
      rw [he] at h ih
      by_cases hch : ch = bar
      · simp only [hch, beq_self_eq_true, if_true, List.mem_cons] at h
        rcases h with rfl | h
        · simp
        · exact ih (List.mem_cons.mpr h)
      · simp only [beq_iff_eq, hch, if_false, List.modifyHead_cons, List.mem_cons] at h
        rcases h with rfl | h
        · intro hmem
          rcases List.mem_cons.mp hmem with e | hmem
          · exact hch e.symm
          · exact ih (by simp) hmem
        · exact ih (List.mem_cons_of_mem _ h)

/-- Joining texts with bars and splitting again splits each of them. -/
theorem split_intercalate {ls : List Str} (hls : ls ≠ []) :
    split ([bar].intercalate ls) bar = ls.flatMap (split · bar) := by
  induction ls with
  | nil => exact absurd rfl hls
  | cons l ls ih =>
      cases ls with
      | nil => simp
      | cons l' ls =>
          rw [List.flatMap_cons, ← ih (by simp), split_eq, split_eq, split_eq,
            ← List.splitOn_append_cons_self]
          simp

/-! ### Base64 -/

/-- The longest vector the encoder's `int` arithmetic has room for. -/
def maxBytes : Nat := 1610612733

/-- The buffer size `base64Encode` computes for a vector of `size` bytes. -/
def outLength (size : Int) : Int := 4 * ((size + 2).tdiv 3)

theorem checkedInt_eq_ok {z w : Int} :
    checkedInt z = .ok w ↔ w = z ∧ -2 ^ 31 ≤ z ∧ z < 2 ^ 31 := by
  unfold checkedInt
  split
  · next h => simp only [Except.ok.injEq, h, and_self, and_true, eq_comm]
  · next h => simp only [reduceCtorEq, h, and_false]

/-- When the encoder returns, and what. -/
theorem base64Encode_eq_ok {data : Bytes} {text : Str} (hne : data ≠ []) :
    base64Encode evp data = .ok text ↔
      toInt data.length + 2 < 2 ^ 31 ∧ 0 ≤ outLength (toInt data.length) ∧
        outLength (toInt data.length) < 2 ^ 31 ∧
        text = evp.encodeBlock data (toInt data.length) ∧ text ≠ [] := by
  have hempty : data.isEmpty = false := by simp [hne]
  -- adding two cannot underflow
  have hlow : -2 ^ 31 ≤ toInt data.length + 2 := by
    have h := Int.le_bmod (x := (data.length : Int)) (m := 2 ^ 32) (by omega)
    unfold toInt
    omega
  simp only [base64Encode, hempty, Bool.false_eq_true, if_false, bind_eq_ok, checkedInt_eq_ok]
  constructor
  · rintro ⟨rounded, ⟨hrounded, -, hround⟩, outLen, ⟨houtLen, -, hout⟩, h⟩
    rw [houtLen, hrounded] at h
    rw [hrounded] at hout
    split at h
    · cases h
    · next hneg =>
        split at h
        · cases h
        · next hwritten =>
            rw [resize_writeFront _ le_rfl, List.take_length] at h
            have htext := Except.ok.inj h
            refine ⟨hround, not_lt.mp hneg, hout, htext.symm, ?_⟩
            rintro rfl
            exact hwritten (by rw [htext]; rfl)
  · rintro ⟨hround, hneg, hout, htext, hwritten⟩
    refine ⟨_, ⟨rfl, hlow, hround⟩, _, ⟨rfl, ?_, hout⟩, ?_⟩
    · exact le_trans (by omega) hneg
    · have hlen : (evp.encodeBlock data (toInt data.length)).length ≠ 0 := by
        rw [← htext]
        exact fun e => hwritten (List.length_eq_zero_iff.mp e)
      have hnn : ¬ 4 * ((toInt data.length + 2).tdiv 3) < 0 := not_lt.mpr hneg
      rw [if_neg hnn, if_neg hlen, resize_writeFront _ le_rfl, List.take_length, htext]

theorem outLength_natCast (n : Nat) : outLength n = (4 * ((n + 2) / 3) : Nat) := by
  have h : ((n : Int) + 2) = (n + 2 : Nat) := by omega
  rw [outLength, h, Int.tdiv_eq_ediv_of_nonneg (by omega)]
  omega

/-- The text of a vector in range is its padded base64. -/
theorem base64Encode_eq (hevp : evp.Documented) {data : Bytes} (h : data.length ≤ maxBytes) :
    base64Encode evp data = .ok (Base64.encode data) := by
  unfold maxBytes at h
  rcases eq_or_ne data [] with rfl | hne
  · rfl
  · have hsize : toInt data.length = data.length := toInt_of_lt (by omega)
    have hlen := Base64.length_encode data
    have hpos := List.length_pos_iff.mpr hne
    rw [base64Encode_eq_ok hne, hsize, outLength_natCast,
      hevp.encodeBlock_eq data _ le_rfl (by omega), List.take_length]
    refine ⟨by omega, by omega, by omega, rfl, ?_⟩
    intro e
    rw [e, List.length_nil] at hlen
    omega

/-- Whatever the encoder returns is base64 text, of a length that fits `int`. -/
theorem base64Encode_isText (hevp : evp.Documented) {data : Bytes} {text : Str}
    (h : base64Encode evp data = .ok text) :
    text.length < 2 ^ 31 ∧ ∀ c ∈ text, Base64.isText c = true := by
  rcases eq_or_ne data [] with rfl | hne
  · cases h
    simp
  · obtain ⟨-, -, hout, htext, hwritten⟩ := (base64Encode_eq_ok hne).mp h
    -- the encoder wrote something, so its length argument was positive
    have hpos : 0 < toInt data.length := by
      by_contra hle
      exact hwritten (by rw [htext, hevp.encodeBlock_nonpos data _ (by omega)])
    obtain ⟨n, hn⟩ := Int.eq_ofNat_of_zero_le (Int.le_of_lt hpos)
    have hle : n ≤ data.length := by
      have hlt := toInt_lt data.length
      unfold toInt at hn hlt
      rw [Int.bmod_def] at hn hlt
      split at hn <;> omega
    have hlt := toInt_lt data.length
    rw [hn, outLength_natCast] at hout
    rw [hn, hevp.encodeBlock_eq data n hle (by omega)] at htext
    subst htext
    refine ⟨?_, fun c hc => Base64.isText_of_mem_encode hc⟩
    rw [Base64.length_encode, List.length_take, Nat.min_eq_left hle]
    omega

/-- The encoder accepts only what it has room for, of vectors that are not so
long that their sizes wrap around to positive numbers. -/
theorem length_le_of_base64Encode {data : Bytes} {text : Str} (hlen : data.length < 3 * 2 ^ 30)
    (h : base64Encode evp data = .ok text) : data.length ≤ maxBytes := by
  rcases eq_or_ne data [] with rfl | hne
  · exact Nat.zero_le _
  · obtain ⟨-, hneg, hout, -⟩ := (base64Encode_eq_ok hne).mp h
    rcases Nat.lt_or_ge data.length (2 ^ 31) with hsmall | hlarge
    · rw [toInt_of_lt hsmall, outLength_natCast] at hout
      unfold maxBytes
      omega
    · -- the size is passed as a negative number
      have hsize : toInt data.length = data.length - 2 ^ 32 := by
        unfold toInt
        rw [Int.bmod_def]
        split <;> omega
      have hdiv : (toInt data.length + 2).tdiv 3 < 0 := by
        rw [← Int.neg_neg (toInt data.length + 2), Int.neg_tdiv,
          Int.tdiv_eq_ediv_of_nonneg (by omega)]
        omega
      rw [outLength] at hneg
      omega

theorem base64Pad_eq (base64 : Str) : base64Pad base64 = Base64.trailingPads base64 := rfl

/-- When the decoder returns, and what. -/
theorem base64Decode_eq_ok {base64 : Str} {out : Bytes} (hne : base64 ≠ []) :
    base64Decode evp base64 = .ok out ↔
      ∃ bytes, evp.decodeBlock base64 (toInt base64.length) = some bytes ∧
        base64Pad base64 ≤ bytes.length ∧ out = bytes.take (bytes.length - base64Pad base64) := by
  have hempty : base64.isEmpty = false := by simp [hne]
  simp only [base64Decode, hempty, Bool.false_eq_true, if_false]
  rcases evp.decodeBlock base64 (toInt base64.length) with - | bytes
  · simp
  · simp only [Option.some.injEq, exists_eq_left']
    split
    · next h =>
        simp only [reduceCtorEq, false_iff, not_and]
        intro hle
        exact absurd h (not_lt.mpr hle)
    · next h =>
        rw [resize_writeFront _ (Nat.sub_le _ _)]
        simp only [Except.ok.injEq, not_lt.mp h, true_and, eq_comm]

/-- **Base64 round trip**, for every vector the `int` arithmetic has room for. -/
theorem base64Decode_encode (hevp : evp.Documented) {data : Bytes} (h : data.length ≤ maxBytes) :
    base64Decode evp (Base64.encode data) = .ok data := by
  unfold maxBytes at h
  rcases eq_or_ne data [] with rfl | hne
  · rfl
  · have hlen := Base64.length_encode data
    have hpos := List.length_pos_iff.mpr hne
    have htext : Base64.encode data ≠ [] := by
      intro e
      rw [e, List.length_nil] at hlen
      omega
    have hquads := hevp.decodeBlock_quads (Base64.encode data) (by omega) (by omega)
      (fun c hc => Base64.isText_of_mem_encode hc)
    rw [base64Decode_eq_ok htext, toInt_of_lt (by omega), base64Pad_eq, Base64.trailingPads_encode]
    refine ⟨_, hquads, ?_, ?_⟩
    · rw [Base64.decodeQuads_encode, List.length_append, List.length_replicate]
      exact Nat.le_add_left _ _
    · rw [Base64.decodeQuads_encode, List.length_append, List.length_replicate,
        Nat.add_sub_cancel, List.take_left]

/-- The decoder returns no vector the encoder has no room for. -/
theorem base64Decode_length (hevp : evp.Documented) {base64 : Str} {out : Bytes}
    (h : base64Decode evp base64 = .ok out) : out.length ≤ maxBytes := by
  rcases eq_or_ne base64 [] with rfl | hne
  · cases h
    exact Nat.zero_le _
  · obtain ⟨bytes, hbytes, -, rfl⟩ := (base64Decode_eq_ok hne).mp h
    have hlen := hevp.decodeBlock_length _ _ _ hbytes
    have hlt := toInt_lt base64.length
    rw [List.length_take]
    unfold maxBytes
    omega

/-- A single character is no base64. -/
theorem base64Decode_singleton (hevp : evp.Documented) {c : UInt8} (hc : Base64.isText c = true)
    (out : Bytes) : base64Decode evp [c] ≠ .ok out := by
  intro h
  obtain ⟨bytes, hbytes, -⟩ := (base64Decode_eq_ok (by simp)).mp h
  have htrim : EvpBase64.trim [c] = [c] := EvpBase64.trim_eq_self (by simpa using hc)
  have hnone := hevp.decodeBlock_misaligned [c] (by simp) (by simp [htrim])
  rw [toInt_of_lt (by simp), hnone] at hbytes
  cases hbytes

theorem throwsStd_base64Decode (base64 : Str) : ThrowsStd (base64Decode evp base64) := by
  unfold base64Decode
  split
  · exact throwsStd_ok _
  · dsimp only
    split
    · exact throwsStd_std _
    · split
      · exact throwsStd_std _
      · exact throwsStd_ok _

/-! ### Reading -/

/-- The pieces of a wire read as the fields of `m`. -/
structure Reads (evp : EvpBase64) (parts : List Str) (m : Message) : Prop where
  count : parts.length = 10 ∨ parts.length = 11
  messageId : m.messageId = parts.getD 0 []
  sender : m.sender = parts.getD 1 []
  receiver : m.receiver = parts.getD 2 []
  chatId : m.chatId = parts.getD 3 []
  timestamp : stoll (parts.getD 4 []) = .ok m.timestamp
  status : stoi (parts.getD 5 []) = .ok m.status.value
  isGroupMessage : ∃ n, stoi (parts.getD 6 []) = .ok n ∧ m.isGroupMessage = decide (n ≠ 0)
  deletedForAll : ∃ n, stoi (parts.getD 7 []) = .ok n ∧ m.deletedForAll = decide (n ≠ 0)
  encryptedSessionKey : base64Decode evp (parts.getD 8 []) = .ok m.encryptedSessionKey
  encryptedPayload : base64Decode evp (parts.getD 9 []) = .ok m.encryptedPayload
  encryptedSelfSessionKey :
    (if parts.length = 11 then base64Decode evp (parts.getD 10 []) else .ok [])
      = .ok m.encryptedSelfSessionKey

/-- `deserialize` returns exactly the message whose fields the pieces are. -/
theorem deserialize_iff {wire : Str} {m : Message} :
    deserialize evp wire = .ok m ↔ Reads evp (split wire bar) m := by
  unfold deserialize
  generalize split wire bar = parts
  dsimp only
  by_cases hcount : parts.length = 10 ∨ parts.length = 11
  · have hno : ¬ (parts.length ≠ 10 ∧ parts.length ≠ 11) := by omega
    rw [if_neg hno]
    simp only [bind_eq_ok]
    constructor
    · rintro ⟨ts, hts, st, hst, g, hg, d, hd, k, hk, p, hp, t, ht, hm⟩
      cases hm
      exact ⟨hcount, rfl, rfl, rfl, rfl, hts, hst, ⟨g, hg, rfl⟩, ⟨d, hd, rfl⟩, hk, hp, ht⟩
    · intro h
      obtain ⟨g, hg, hgm⟩ := h.isGroupMessage
      obtain ⟨d, hd, hdm⟩ := h.deletedForAll
      refine ⟨_, h.timestamp, _, h.status, g, hg, d, hd, _, h.encryptedSessionKey, _,
        h.encryptedPayload, _, h.encryptedSelfSessionKey, ?_⟩
      rw [← hgm, ← hdm, ← h.messageId, ← h.sender, ← h.receiver, ← h.chatId]
      rfl
  · rw [if_pos (by omega)]
    simp only [reduceCtorEq, false_iff]
    exact fun h => hcount h.count

theorem throwsStd_deserialize (wire : Str) : ThrowsStd (deserialize evp wire) := by
  unfold deserialize
  dsimp only
  split
  · exact throwsStd_std _
  · refine (throwsStd_stoll _).bind fun _ => (throwsStd_stoi _).bind fun _ =>
      (throwsStd_stoi _).bind fun _ => (throwsStd_stoi _).bind fun _ =>
      (throwsStd_base64Decode _).bind fun _ => (throwsStd_base64Decode _).bind fun _ => ?_
    apply ThrowsStd.bind
    · split
      · exact throwsStd_base64Decode _
      · exact throwsStd_ok _
    · exact fun _ => throwsStd_ok _

/-! ### Wires -/

/-- Every byte field is in range. -/
def Fits (m : Message) : Prop :=
  m.encryptedSessionKey.length ≤ maxBytes ∧ m.encryptedPayload.length ≤ maxBytes ∧
    m.encryptedSelfSessionKey.length ≤ maxBytes

/-- No string of the message contains a bar. -/
def NoBar (m : Message) : Prop :=
  bar ∉ m.messageId ∧ bar ∉ m.sender ∧ bar ∉ m.receiver ∧ bar ∉ m.chatId

/-- The texts of the four numbers. -/
def numbers (m : Message) : List Str :=
  [Digits.signed m.timestamp.toInt, Digits.signed m.status.value.toInt,
    flagText m.isGroupMessage, flagText m.deletedForAll]

/-- The pieces the four strings are split into. -/
def names (m : Message) : List Str :=
  split m.messageId bar ++ split m.sender bar ++ split m.receiver bar ++ split m.chatId bar

theorem bar_notMem_signed (z : Int) : bar ∉ Digits.signed z := by
  intro h
  rcases Digits.mem_signed h with h | h
  · exact absurd h (by decide)
  · exact absurd h.2 (by decide)

theorem bar_notMem_flagText (flag : Bool) : bar ∉ flagText flag := by
  cases flag <;> decide

theorem bar_notMem_of_isText {text : Str} (h : ∀ c ∈ text, Base64.isText c = true) :
    bar ∉ text :=
  fun hbar => absurd (h bar hbar) (by decide)

/-- The fields of `m` with bars between them, up to the base64 texts. -/
def wireOf (m : Message) (texts : List Str) : Str :=
  [bar].intercalate ([m.messageId, m.sender, m.receiver, m.chatId] ++ numbers m ++ texts)

theorem serialize_eq_ok {m : Message} {wire : Str} :
    serialize evp m = .ok wire ↔
      ∃ key payload self, base64Encode evp m.encryptedSessionKey = .ok key ∧
        base64Encode evp m.encryptedPayload = .ok payload ∧
        base64Encode evp m.encryptedSelfSessionKey = .ok self ∧
        wire = wireOf m [key, payload, self] := by
  simp only [serialize, bind_eq_ok]
  constructor
  · rintro ⟨key, hkey, payload, hpayload, self, hself, h⟩
    refine ⟨key, payload, self, hkey, hpayload, hself, ?_⟩
    rw [← Except.ok.inj h]
    simp [wireOf, numbers]
  · rintro ⟨key, payload, self, hkey, hpayload, hself, rfl⟩
    refine ⟨key, hkey, payload, hpayload, self, hself, ?_⟩
    simp [wireOf, numbers, pure, Except.pure]

/-- The pieces of a wire: the strings' own pieces, the numbers, the texts. -/
theorem split_wireOf (m : Message) (texts : List Str) (htexts : ∀ text ∈ texts, bar ∉ text) :
    split (wireOf m texts) bar = names m ++ numbers m ++ texts := by
  have hclean : ∀ {ls : List Str}, (∀ l ∈ ls, bar ∉ l) → ls.flatMap (split · bar) = ls := by
    intro ls hls
    induction ls with
    | nil => rfl
    | cons l ls ih =>
        rw [List.flatMap_cons, split_of_notMem (hls l (by simp)), ih fun x hx => hls x (by simp [hx])]
        rfl
  have hnumbers : ∀ l ∈ numbers m, bar ∉ l := by
    intro l hl
    simp only [numbers, List.mem_cons, List.not_mem_nil, or_false] at hl
    rcases hl with rfl | rfl | rfl | rfl
    · exact bar_notMem_signed _
    · exact bar_notMem_signed _
    · exact bar_notMem_flagText _
    · exact bar_notMem_flagText _
  rw [wireOf, split_intercalate (by simp), List.flatMap_append, List.flatMap_append,
    hclean hnumbers, hclean htexts]
  simp [names]

theorem names_eq {m : Message} (h : NoBar m) :
    names m = [m.messageId, m.sender, m.receiver, m.chatId] := by
  obtain ⟨h1, h2, h3, h4⟩ := h
  rw [names, split_of_notMem h1, split_of_notMem h2, split_of_notMem h3, split_of_notMem h4]
  rfl

/-- A bar in a string makes a piece too many. -/
theorem four_lt_length_names {m : Message} (h : ¬ NoBar m) : 4 < (names m).length := by
  have hpos : ∀ {text : Str}, bar ∈ text → 0 < text.count bar := List.count_pos_iff.mpr
  simp only [names, List.length_append, length_split]
  by_contra hle
  apply h
  refine ⟨?_, ?_, ?_, ?_⟩
  all_goals
    intro hbar
    have := hpos hbar
    omega

theorem stoi_flagText (flag : Bool) :
    ∃ n, stoi (flagText flag) = .ok n ∧ flag = decide (n ≠ 0) := by
  cases flag
  · exact ⟨0, by decide, by decide⟩
  · exact ⟨1, by decide, by decide⟩

/-- A wire without stray bars reads as the message it was made of. -/
theorem reads_wireOf (hevp : evp.Documented) {m : Message} (hfits : Fits m) (h : NoBar m)
    {texts : List Str} {self : Bytes}
    (htexts : (texts = [] ∧ self = []) ∨
      (texts = [Base64.encode m.encryptedSelfSessionKey] ∧ self = m.encryptedSelfSessionKey)) :
    Reads evp (names m ++ numbers m ++
        (Base64.encode m.encryptedSessionKey :: Base64.encode m.encryptedPayload :: texts))
      { m with encryptedSelfSessionKey := self } := by
  rw [names_eq h]
  refine ⟨?_, rfl, rfl, rfl, rfl, stoll_signed _, stoi_signed _, stoi_flagText _, stoi_flagText _,
    base64Decode_encode hevp hfits.1, base64Decode_encode hevp hfits.2.1, ?_⟩
  · rcases htexts with ⟨rfl, -⟩ | ⟨rfl, -⟩
    · exact Or.inl rfl
    · exact Or.inr rfl
  · rcases htexts with ⟨rfl, rfl⟩ | ⟨rfl, rfl⟩
    · rfl
    · exact base64Decode_encode hevp hfits.2.2

/-- A wire with stray bars reads as no message.  With one stray bar in the
ten-field form the session key would be the text of the last flag. -/
theorem not_reads_wireOf (hevp : evp.Documented) {m m' : Message} (h : ¬ NoBar m)
    {texts : List Str} (htexts : 2 ≤ texts.length) :
    ¬ Reads evp (names m ++ numbers m ++ texts) m' := by
  intro hreads
  have hnames := four_lt_length_names h
  have hcount := hreads.count
  simp only [List.length_append, show (numbers m).length = 4 from rfl] at hcount
  -- ten or eleven pieces leave room for one stray bar
  have hlen : (names m).length = 5 := by omega
  -- the numbers stand one place further back, so the ninth piece is the last flag
  have hflag : (names m ++ numbers m ++ texts).getD 8 [] = flagText m.deletedForAll := by
    rw [List.append_assoc, List.getD_append_right _ _ _ _ (by omega), hlen]
    rfl
  have hkey := hreads.encryptedSessionKey
  rw [hflag] at hkey
  cases hd : m.deletedForAll with
  | false =>
      rw [hd] at hkey
      exact base64Decode_singleton hevp (by decide) _ hkey
  | true =>
      rw [hd] at hkey
      exact base64Decode_singleton hevp (by decide) _ hkey

/-- The wire without its last bar and last field. -/
def legacyWire (wire : Str) : Str := (wire.rdropWhile (· ≠ bar)).dropLast

theorem legacyWire_wireOf (m : Message) (key payload : Str) {self : Str} (h : bar ∉ self) :
    legacyWire (wireOf m [key, payload, self]) = wireOf m [key, payload] := by
  -- the last bar is the one before the last field, which holds none
  have hdrop : ∀ l : Str, (l ++ [bar] ++ self).rdropWhile (· ≠ bar) = l ++ [bar] := by
    intro l
    induction self using List.reverseRecOn with
    | nil => simp [List.rdropWhile_concat_neg]
    | append_singleton self c ih =>
        have hc : c ≠ bar := by
          rintro rfl
          exact h (by simp)
        rw [← List.append_assoc, List.rdropWhile_concat_pos _ _ _ (by simpa using hc)]
        exact ih (fun hbar => h (by simp [hbar]))
  have hsplit : wireOf m [key, payload, self] = wireOf m [key, payload] ++ [bar] ++ self := by
    simp [wireOf, numbers]
  rw [legacyWire, hsplit, hdrop, List.dropLast_concat]

/-! ### The codec as a whole -/

theorem bar_notMem_encode (data : Bytes) : bar ∉ Base64.encode data :=
  bar_notMem_of_isText fun _ hc => Base64.isText_of_mem_encode hc

/-- The wire of a message whose byte fields are in range. -/
theorem serialize_eq (hevp : evp.Documented) {m : Message} (hfits : Fits m) :
    serialize evp m = .ok (wireOf m [Base64.encode m.encryptedSessionKey,
      Base64.encode m.encryptedPayload, Base64.encode m.encryptedSelfSessionKey]) :=
  serialize_eq_ok.mpr ⟨_, _, _, base64Encode_eq hevp hfits.1, base64Encode_eq hevp hfits.2.1,
    base64Encode_eq hevp hfits.2.2, rfl⟩

/-- A wire returned by the encoder without stray bars deserializes to `m`. -/
theorem deserialize_serialize (hevp : evp.Documented) {m : Message} (hfits : Fits m)
    (h : NoBar m) : (serialize evp m).bind (deserialize evp) = .ok m := by
  rw [serialize_eq hevp hfits]
  apply deserialize_iff.mpr
  rw [split_wireOf m _ (by simp [bar_notMem_encode])]
  exact reads_wireOf hevp hfits h (Or.inr ⟨rfl, rfl⟩)

/-- What was read fits and holds no bar. -/
theorem Reads.clean (hevp : evp.Documented) {wire : Str} {m : Message}
    (h : Reads evp (split wire bar) m) : Fits m ∧ NoBar m := by
  have hbar : ∀ i, bar ∉ (split wire bar).getD i [] := by
    intro i
    rw [List.getD_eq_getElem?_getD]
    rcases hi : (split wire bar)[i]? with - | piece
    · simp
    · exact notMem_of_mem_split (List.mem_of_getElem? hi)
  refine ⟨⟨base64Decode_length hevp h.encryptedSessionKey,
    base64Decode_length hevp h.encryptedPayload, ?_⟩, ?_⟩
  · have hself := h.encryptedSelfSessionKey
    split at hself
    · exact base64Decode_length hevp hself
    · rw [← Except.ok.inj hself]
      exact Nat.zero_le _
  · rw [NoBar, h.messageId, h.sender, h.receiver, h.chatId]
    exact ⟨hbar 0, hbar 1, hbar 2, hbar 3⟩

/-- A wire that is accepted carries the strings and the flags of its message,
whatever the sizes of the byte fields. -/
theorem header_eq (hevp : evp.Documented) {m m' : Message} {wire : Str}
    (hser : serialize evp m = .ok wire) (hde : deserialize evp wire = .ok m') :
    NoBar m ∧ m'.messageId = m.messageId ∧ m'.sender = m.sender ∧ m'.receiver = m.receiver ∧
      m'.chatId = m.chatId ∧ m'.isGroupMessage = m.isGroupMessage := by
  obtain ⟨key, payload, self, hkey, hpayload, hself, rfl⟩ := serialize_eq_ok.mp hser
  have hclean : ∀ text ∈ [key, payload, self], bar ∉ text := by
    intro text htext
    simp only [List.mem_cons, List.not_mem_nil, or_false] at htext
    rcases htext with rfl | rfl | rfl
    · exact bar_notMem_of_isText (base64Encode_isText hevp hkey).2
    · exact bar_notMem_of_isText (base64Encode_isText hevp hpayload).2
    · exact bar_notMem_of_isText (base64Encode_isText hevp hself).2
  have hreads := deserialize_iff.mp hde
  rw [split_wireOf m _ hclean] at hreads
  -- with a stray bar the wire would not have been accepted
  have hnobar : NoBar m := by
    by_contra h
    exact not_reads_wireOf hevp h (by simp) hreads
  rw [names_eq hnobar] at hreads
  obtain ⟨n, hn, hgroup⟩ := hreads.isGroupMessage
  obtain ⟨n', hn', hflag⟩ := stoi_flagText m.isGroupMessage
  have hnn : n = n' := Except.ok.inj (hn.symm.trans hn')
  refine ⟨hnobar, hreads.messageId, hreads.sender, hreads.receiver, hreads.chatId, ?_⟩
  rw [hgroup, hflag, hnn]

/-- No byte field is so long that its size wraps around to a positive number. -/
def Unwrapped (m : Message) : Prop :=
  m.encryptedSessionKey.length < 3 * 2 ^ 30 ∧ m.encryptedPayload.length < 3 * 2 ^ 30 ∧
    m.encryptedSelfSessionKey.length < 3 * 2 ^ 30

/-- A wire that is accepted reads as the message it was made of. -/
theorem eq_of_deserialize (hevp : evp.Documented) {m m' : Message} {wire : Str}
    (hlen : Unwrapped m) (hser : serialize evp m = .ok wire) (hde : deserialize evp wire = .ok m') :
    m' = m := by
  obtain ⟨key, payload, self, hkey, hpayload, hself, -⟩ := serialize_eq_ok.mp hser
  have hfits : Fits m := ⟨length_le_of_base64Encode hlen.1 hkey,
    length_le_of_base64Encode hlen.2.1 hpayload, length_le_of_base64Encode hlen.2.2 hself⟩
  have hround := deserialize_serialize hevp hfits (header_eq hevp hser hde).1
  rw [hser] at hround
  exact Except.ok.inj (hde.symm.trans hround)

/-- **The codec never turns a message into a different one.**  Without stray
bars both wire forms give the message back; with one, both are refused; and
whatever is accepted survives being sent once more. -/
theorem wire_faithful (hevp : evp.Documented) :
    (∀ m : Message, Fits m → ∃ wire, serialize evp m = .ok wire ∧
      (NoBar m → deserialize evp wire = .ok m ∧
        deserialize evp (legacyWire wire) = .ok { m with encryptedSelfSessionKey := [] }) ∧
      (¬ NoBar m → (∃ e, deserialize evp wire = .error (.std e)) ∧
        ∃ e, deserialize evp (legacyWire wire) = .error (.std e))) ∧
    ∀ (wire : Str) (m : Message), deserialize evp wire = .ok m →
      (serialize evp m).bind (deserialize evp) = .ok m := by
  constructor
  · intro m hfits
    have hfull := split_wireOf m [Base64.encode m.encryptedSessionKey,
      Base64.encode m.encryptedPayload, Base64.encode m.encryptedSelfSessionKey] (by simp [bar_notMem_encode])
    have hlegacy := split_wireOf m [Base64.encode m.encryptedSessionKey,
      Base64.encode m.encryptedPayload] (by simp [bar_notMem_encode])
    refine ⟨_, serialize_eq hevp hfits, ?_⟩
    rw [legacyWire_wireOf m _ _ (bar_notMem_encode _)]
    constructor
    · intro h
      rw [deserialize_iff, deserialize_iff, hfull, hlegacy]
      exact ⟨reads_wireOf hevp hfits h (Or.inr ⟨rfl, rfl⟩),
        reads_wireOf hevp hfits h (Or.inl ⟨rfl, rfl⟩)⟩
    · intro h
      refine ⟨(throwsStd_deserialize _).exists_error fun m' hm' => ?_,
        (throwsStd_deserialize _).exists_error fun m' hm' => ?_⟩
      · rw [deserialize_iff, hfull] at hm'
        exact not_reads_wireOf hevp h (by simp) hm'
      · rw [deserialize_iff, hlegacy] at hm'
        exact not_reads_wireOf hevp h (by simp) hm'
  · intro wire m h
    obtain ⟨hfits, hnobar⟩ := (deserialize_iff.mp h).clean hevp
    exact deserialize_serialize hevp hfits hnobar

/-- A direct message from `alice` to `bob`. -/
def sampleMessage : Message :=
  .build (str "1f-2a") 1700000000000 (str "alice") (str "bob") [7, 8] [1, 2, 3] [9] [] false

theorem wire_faithful_sample :
    ∃ wire, serialize .reference sampleMessage = .ok wire ∧
      deserialize .reference wire = .ok sampleMessage ∧
      deserialize .reference (legacyWire wire)
        = .ok { sampleMessage with encryptedSelfSessionKey := [] } := by
  have hfits : Fits sampleMessage := ⟨by decide, by decide, by decide⟩
  have hnobar : NoBar sampleMessage := ⟨by decide, by decide, by decide, by decide⟩
  obtain ⟨wire, hser, h, -⟩ :=
    (wire_faithful EvpBase64.reference_documented).1 sampleMessage hfits
  exact ⟨wire, hser, h hnobar⟩

end MessageProtocol

end Evlampy
