import Hologine.Exception
import Hologine.Library.Bits
import Hologine.Library.Utf8

/-!
# Decoding one UTF-8 sequence

Model of `utf8_increment` and its helpers (`core/text/utf8.cpp:15-190`) and of
`is_valid_code_point` (`core/text/unicode.cpp:13-19`). A string is the array it points to; reading
past its end has no defined behaviour, which is `none`. `std::size_t` is `UInt64` and a code point
is a `UInt32`; `offset` and `value` are passed in and the new ones returned.

Two slips of the source are in `decodeSequence`, in the branch for four bytes: the lead byte is
masked with `0x07 << 18`, since `<<` binds tighter than `&`, which leaves nothing of it, and the
third byte is read at `offset + 1`.

A third matters here, of `exception_code_generator`: `index_out_of_range` has the code of
`exception::none`. So a sequence that the length cuts off is no exception; it is not decoded, and
the offset does not move.

Results:
* `utf8Increment_eq`: the function in one formula, by the first defect it finds.
* `decodeSequence_eq`: sequences of one to three bytes decode to their payload, sequences of four
  to a value that depends on the second and the last byte only.
* `incrementCorrect_iff`: the function decodes well-formed UTF-8, no more and no less, **iff** no
  sequence of four bytes is before it that the slips get wrong, and none that the length cuts off.
-/

namespace Hologine.Text

open Hologine.Library Hologine.Library.Bits

/-- `is_utf8_trail_byte`. -/
def isUtf8TrailByte (c : UInt8) : Bool := c >>> 6 == 2

/-- `get_utf8_sequence_length`: the exception and the length. -/
def getUtf8SequenceLength (lead : UInt8) : ExceptionCode × UInt64 :=
  if lead < 0x80 then (.none, 1)
  else if lead >>> 5 = 0x06 then (.none, 2)
  else if lead >>> 4 = 0x0e then (.none, 3)
  else if lead >>> 3 = 0x1e then (.none, 4)
  else (.invalidUnicodeLead, 0)

/-- `get_code_point_utf8_sequence_length`. -/
def getCodePointUtf8SequenceLength (codePoint : UInt32) : UInt64 :=
  if codePoint < 0x80 then 1
  else if codePoint < 0x800 then 2
  else if codePoint < 0x10000 then 3
  else 4

/-- `is_valid_code_point`. -/
def isValidCodePoint (codePoint : UInt32) : Bool :=
  decide (codePoint ≤ 0x0010ffff) && !(decide (codePoint ≥ 0xd800) && decide (codePoint ≤ 0xdfff))

/-- The loop over the trail bytes: `count` of them from index `i` of the sequence. -/
def checkTrailBytes (string : List UInt8) (offset : Nat) : Nat → Nat → Option Bool
  | _, 0 => some true
  | i, count + 1 => do
    let c ← string[offset + i]?
    if isUtf8TrailByte c then checkTrailBytes string offset (i + 1) count else some false

/-- The `switch` over the sequence length, which leaves other lengths' `value` alone. -/
def decodeSequence (string : List UInt8) (offset : Nat) (sequenceLength : UInt64)
    (value : UInt32) : Option UInt32 :=
  match sequenceLength.toNat with
  | 1 => do
    let b0 ← string[offset]?
    some b0.toUInt32
  | 2 => do
    let b0 ← string[offset]?
    let b1 ← string[offset + 1]?
    some ((b0.toUInt32 &&& 0x1f) <<< 6 ||| (b1.toUInt32 &&& 0x3f))
  | 3 => do
    let b0 ← string[offset]?
    let b1 ← string[offset + 1]?
    let b2 ← string[offset + 2]?
    some ((b0.toUInt32 &&& 0x0f) <<< 12 ||| (b1.toUInt32 &&& 0x3f) <<< 6 ||| (b2.toUInt32 &&& 0x3f))
  | 4 => do
    let b0 ← string[offset]?
    let b1 ← string[offset + 1]?
    let b3 ← string[offset + 3]?
    -- the second byte stands in for the third as well
    some ((b0.toUInt32 &&& ((0x07 : UInt32) <<< 18)) ||| (b1.toUInt32 &&& 0x3f) <<< 12
      ||| (b1.toUInt32 &&& 0x3f) <<< 6 ||| (b3.toUInt32 &&& 0x3f))
  | _ => some value

/-- `utf8_increment`: the exception, the new `offset` and the new `value`. -/
def utf8Increment (string : List UInt8) (length offset : UInt64) (value : UInt32) :
    Option (ExceptionCode × UInt64 × UInt32) := do
  let lead ← string[offset.toNat]?
  let (exception, sequenceLength) := getUtf8SequenceLength lead
  if exception = .none then
    let newOffset := offset + sequenceLength
    if newOffset ≤ length ∧ newOffset > offset then
      if ← checkTrailBytes string offset.toNat 1 (sequenceLength.toNat - 1) then
        let value ← decodeSequence string offset.toNat sequenceLength value
        if getCodePointUtf8SequenceLength value ≠ sequenceLength then
          some (.overlongUnicodeSequence, offset, value)
        else if !isValidCodePoint value then
          some (.invalidUnicodeLead, offset, value)
        else
          some (exception, newOffset, value)
      else
        some (.incompleteUnicodeSequence, offset, value)
    else
      some (.indexOutOfRange, offset, value)
  else
    some (exception, offset, value)

/-! ## The helpers, in the terms of UTF-8 -/

theorem isUtf8TrailByte_iff (c : UInt8) : isUtf8TrailByte c = true ↔ Utf8.Trail c := by
  unfold isUtf8TrailByte Utf8.Trail
  rw [beq_iff_eq, ← UInt8.toNat_inj, UInt8.toNat_shiftRight]
  simp [Nat.shiftRight_eq_div_pow]
  omega

theorem getUtf8SequenceLength_eq (lead : UInt8) : getUtf8SequenceLength lead =
    (if Utf8.leadLength lead = 0 then .invalidUnicodeLead else .none,
      UInt64.ofNat (Utf8.leadLength lead)) := by
  have hlt := lead.toNat_lt
  have hrange := Utf8.leadLength_range lead
  unfold getUtf8SequenceLength
  simp only [UInt8.lt_iff_toNat_lt, ← UInt8.toNat_inj, UInt8.toNat_shiftRight,
    Nat.shiftRight_eq_div_pow, UInt8.toNat_ofNat, Nat.reduceMod, Nat.reducePow]
  rcases hrange with ⟨h, h'⟩ | ⟨h, h'⟩ | ⟨h, h'⟩ | ⟨h, h'⟩ | ⟨h, h'⟩ <;> rw [h] <;>
    split_ifs <;> first | contradiction | omega | rfl

theorem getCodePointUtf8SequenceLength_eq (v : UInt32) :
    getCodePointUtf8SequenceLength v = UInt64.ofNat (Utf8.size v.toNat) := by
  unfold getCodePointUtf8SequenceLength Utf8.size
  simp only [UInt32.lt_iff_toNat_lt, UInt32.toNat_ofNat, Nat.reduceMod, Nat.reducePow]
  split_ifs <;> rfl

theorem isValidCodePoint_iff (v : UInt32) : isValidCodePoint v = true ↔ Utf8.Scalar v.toNat := by
  unfold isValidCodePoint Utf8.Scalar
  simp only [UInt32.le_iff_toNat_le, ge_iff_le, Bool.and_eq_true, Bool.not_eq_true',
    Bool.and_eq_false_iff, decide_eq_true_eq, decide_eq_false_iff_not, UInt32.toNat_ofNat,
    Nat.reduceMod, Nat.reducePow]
  omega

/-- The loop over the trail bytes, when they are all in the string. -/
theorem checkTrailBytes_eq (string : List UInt8) (offset : Nat) : ∀ (count i : Nat),
    offset + i + count ≤ string.length →
      checkTrailBytes string offset i count =
        some (((string.drop (offset + i)).take count).all fun b => Utf8.Trail b)
  | 0, i, _ => by simp [checkTrailBytes]
  | count + 1, i, h => by
    have hlt : offset + i < string.length := by omega
    have ih := checkTrailBytes_eq string offset count (i + 1) (by omega)
    rw [checkTrailBytes, List.getElem?_eq_getElem hlt, Option.bind_eq_bind, Option.bind_some, ih,
      List.drop_eq_getElem_cons hlt, List.take_succ_cons]
    by_cases ht : Utf8.Trail string[offset + i]
    · simp [(isUtf8TrailByte_iff _).mpr ht, ht, Nat.add_assoc]
    · have hf : isUtf8TrailByte string[offset + i] = false := by
        rw [← Bool.not_eq_true, isUtf8TrailByte_iff]
        exact ht
      simp [hf, ht]

/-- The value `decodeSequence` finds in a sequence. -/
def decodedValue : List UInt8 → Nat
  | [_, b, _, d] => b.toNat % 64 * 4096 + b.toNat % 64 * 64 + d.toNat % 64
  | l => Utf8.payload l

/-! ## The decoded value -/

/-- The value bits of a byte, shifted into place. -/
theorem toNat_valueBits (b : UInt8) (width shift : Nat) (hw : width ≤ 6) (hs : shift ≤ 18) :
    ((b.toUInt32 &&& UInt32.ofNat (2 ^ width - 1)) <<< UInt32.ofNat shift).toNat
      = (b.toNat % 2 ^ width) <<< shift := by
  have hwidth : 2 ^ width ≤ 2 ^ 6 := Nat.pow_le_pow_right (by omega) hw
  have hshift : 2 ^ shift ≤ 2 ^ 18 := Nat.pow_le_pow_right (by omega) hs
  have hlt : b.toNat % 2 ^ width < 2 ^ 6 :=
    (Nat.mod_lt _ (Nat.two_pow_pos _)).trans_le hwidth
  have hmask : (b.toUInt32 &&& UInt32.ofNat (2 ^ width - 1)).toNat = b.toNat % 2 ^ width := by
    rw [UInt32.toNat_and, UInt32.toNat_ofNat', Nat.mod_eq_of_lt (by omega)]
    exact Nat.and_two_pow_sub_one_eq_mod b.toNat width
  have hsize : (b.toNat % 2 ^ width) <<< shift < 2 ^ 32 := by
    rw [Nat.shiftLeft_eq]
    calc b.toNat % 2 ^ width * 2 ^ shift ≤ 2 ^ 6 * 2 ^ 18 := Nat.mul_le_mul hlt.le hshift
      _ < 2 ^ 32 := by decide
  rw [UInt32.toNat_shiftLeft, hmask, UInt32.toNat_ofNat',
    Nat.mod_eq_of_lt (by omega : shift < 2 ^ 32), Nat.mod_eq_of_lt (by omega : shift < 32),
    Nat.mod_eq_of_lt hsize]

/-- Two six-bit groups under a shift are one twelve-bit group. -/
theorem join_two {x y : Nat} (hy : y < 64) : x <<< 6 ||| y = x * 64 + y :=
  shiftLeft_or_of_lt (n := 6) hy x

theorem join_three {x y z : Nat} (hy : y < 64) (hz : z < 64) :
    x <<< 12 ||| y <<< 6 ||| z = x * 4096 + y * 64 + z := by
  rw [show 12 = 6 + 6 from rfl, Nat.shiftLeft_add, ← Nat.shiftLeft_or_distrib, join_two hy,
    join_two hz]
  omega

theorem decodeSequence_one {string : List UInt8} {offset : Nat} {b0 : UInt8} (value : UInt32)
    (h0 : string[offset]? = some b0) :
    ∃ v, decodeSequence string offset 1 value = some v ∧ v.toNat = b0.toNat := by
  refine ⟨b0.toUInt32, ?_, UInt8.toNat_toUInt32 b0⟩
  simp [decodeSequence, h0]

theorem toNat_low (b : UInt8) : (b.toUInt32 &&& 0x3f).toNat = b.toNat % 64 := by
  rw [UInt32.toNat_and]
  exact Nat.and_two_pow_sub_one_eq_mod b.toNat 6

theorem decodeSequence_two {string : List UInt8} {offset : Nat} {b0 b1 : UInt8} (value : UInt32)
    (h0 : string[offset]? = some b0) (h1 : string[offset + 1]? = some b1) :
    ∃ v, decodeSequence string offset 2 value = some v ∧
      v.toNat = b0.toNat % 32 * 64 + b1.toNat % 64 := by
  refine ⟨(b0.toUInt32 &&& 0x1f) <<< 6 ||| (b1.toUInt32 &&& 0x3f), ?_, ?_⟩
  · simp [decodeSequence, h0, h1]
  · have hb0 : ((b0.toUInt32 &&& 0x1f) <<< 6).toNat = (b0.toNat % 32) <<< 6 :=
      toNat_valueBits b0 5 6 (by omega) (by omega)
    rw [UInt32.toNat_or, hb0, toNat_low, join_two (by omega)]

theorem decodeSequence_three {string : List UInt8} {offset : Nat} {b0 b1 b2 : UInt8}
    (value : UInt32) (h0 : string[offset]? = some b0) (h1 : string[offset + 1]? = some b1)
    (h2 : string[offset + 2]? = some b2) :
    ∃ v, decodeSequence string offset 3 value = some v ∧
      v.toNat = b0.toNat % 16 * 4096 + b1.toNat % 64 * 64 + b2.toNat % 64 := by
  refine ⟨(b0.toUInt32 &&& 0x0f) <<< 12 ||| (b1.toUInt32 &&& 0x3f) <<< 6 |||
    (b2.toUInt32 &&& 0x3f), ?_, ?_⟩
  · simp [decodeSequence, h0, h1, h2]
  · have hb0 : ((b0.toUInt32 &&& 0x0f) <<< 12).toNat = (b0.toNat % 16) <<< 12 :=
      toNat_valueBits b0 4 12 (by omega) (by omega)
    have hb1 : ((b1.toUInt32 &&& 0x3f) <<< 6).toNat = (b1.toNat % 64) <<< 6 :=
      toNat_valueBits b1 6 6 (by omega) (by omega)
    rw [UInt32.toNat_or, UInt32.toNat_or, hb0, hb1, toNat_low, join_three (by omega) (by omega)]

/-- The lead byte of a four-byte sequence contributes nothing: the mask starts above its bits. -/
theorem toNat_slippedLead (b : UInt8) : (b.toUInt32 &&& ((0x07 : UInt32) <<< 18)).toNat = 0 := by
  rw [UInt32.toNat_and]
  exact and_shiftLeft_of_lt (n := 18) (b.toNat_lt.trans (by decide)) 7

theorem decodeSequence_four {string : List UInt8} {offset : Nat} {b0 b1 b3 : UInt8}
    (value : UInt32) (h0 : string[offset]? = some b0) (h1 : string[offset + 1]? = some b1)
    (h3 : string[offset + 3]? = some b3) :
    ∃ v, decodeSequence string offset 4 value = some v ∧
      v.toNat = b1.toNat % 64 * 4096 + b1.toNat % 64 * 64 + b3.toNat % 64 := by
  refine ⟨(b0.toUInt32 &&& ((0x07 : UInt32) <<< 18)) ||| (b1.toUInt32 &&& 0x3f) <<< 12 |||
    (b1.toUInt32 &&& 0x3f) <<< 6 ||| (b3.toUInt32 &&& 0x3f), ?_, ?_⟩
  · simp [decodeSequence, h0, h1, h3]
  · have hb1 : ((b1.toUInt32 &&& 0x3f) <<< 12).toNat = (b1.toNat % 64) <<< 12 :=
      toNat_valueBits b1 6 12 (by omega) (by omega)
    have hb2 : ((b1.toUInt32 &&& 0x3f) <<< 6).toNat = (b1.toNat % 64) <<< 6 :=
      toNat_valueBits b1 6 6 (by omega) (by omega)
    rw [UInt32.toNat_or, UInt32.toNat_or, UInt32.toNat_or, toNat_slippedLead, hb1, hb2, toNat_low,
      Nat.zero_or, join_three (by omega) (by omega)]

/-- **What the `switch` decodes**, for every length a lead byte announces. -/
theorem decodeSequence_eq {string : List UInt8} {offset n : Nat} (value : UInt32)
    (hn : n = 1 ∨ n = 2 ∨ n = 3 ∨ n = 4) (h : offset + n ≤ string.length) :
    ∃ v, decodeSequence string offset (UInt64.ofNat n) value = some v ∧
      v.toNat = decodedValue ((string.drop offset).take n) := by
  have get : ∀ i, string[offset + i]? = (string.drop offset)[i]? := fun i =>
    List.getElem?_drop.symm
  have hlen : n ≤ (string.drop offset).length := by
    rw [List.length_drop]
    omega
  generalize string.drop offset = bytes at get hlen ⊢
  rcases hn with rfl | rfl | rfl | rfl
  · obtain ⟨b0, _, rfl⟩ := List.exists_cons_of_length_pos (show 0 < bytes.length by omega)
    exact decodeSequence_one value (get 0)
  · match bytes, hlen with
    | b0 :: b1 :: _, _ => exact decodeSequence_two value (get 0) (get 1)
  · match bytes, hlen with
    | b0 :: b1 :: b2 :: _, _ => exact decodeSequence_three value (get 0) (get 1) (get 2)
  · match bytes, hlen with
    | b0 :: b1 :: b2 :: b3 :: _, _ => exact decodeSequence_four value (get 0) (get 1) (get 3)

/-! ## The function in one formula -/

/-- The exceptions of a sequence that is not as it should be. -/
theorem unicode_ne_none : ExceptionCode.invalidUnicodeLead ≠ .none ∧
    ExceptionCode.incompleteUnicodeSequence ≠ .none ∧
      ExceptionCode.overlongUnicodeSequence ≠ .none := by decide

/-- The outcome, by the first defect found in the `available` bytes before `length`. -/
theorem utf8Increment_eq {string : List UInt8} {length offset : UInt64} (value : UInt32)
    (hlength : length.toNat ≤ string.length) (hoffset : offset < length) {lead : UInt8}
    (hlead : string[offset.toNat]? = some lead) :
    let n := Utf8.leadLength lead
    let bytes := (string.drop offset.toNat).take n
    let v := UInt32.ofNat (decodedValue bytes)
    utf8Increment string length offset value =
      if n = 0 then some (.invalidUnicodeLead, offset, value)
      else if length.toNat < offset.toNat + n then some (.indexOutOfRange, offset, value)
      else if ¬ bytes.tail.all fun b => Utf8.Trail b then
        some (.incompleteUnicodeSequence, offset, value)
      else if n ≠ Utf8.size (decodedValue bytes) then some (.overlongUnicodeSequence, offset, v)
      else if ¬ Utf8.Scalar (decodedValue bytes) then some (.invalidUnicodeLead, offset, v)
      else some (.none, offset + UInt64.ofNat n, v) := by
  intro n bytes v
  have hn : n = 0 ∨ n = 1 ∨ n = 2 ∨ n = 3 ∨ n = 4 := by
    have := Utf8.leadLength_range lead
    omega
  have hlt := length.toNat_lt
  have hofs : offset.toNat < length.toNat := UInt64.lt_iff_toNat_lt.mp hoffset
  have hnNat : (UInt64.ofNat n).toNat = n := by
    rw [UInt64.toNat_ofNat', Nat.mod_eq_of_lt (by omega)]
  unfold utf8Increment
  rw [hlead, Option.bind_eq_bind, Option.bind_some, getUtf8SequenceLength_eq]
  by_cases h0 : n = 0
  · simp [show Utf8.leadLength lead = 0 from h0, h0, unicode_ne_none.1]
  have hbound : (offset + UInt64.ofNat n ≤ length ∧ offset + UInt64.ofNat n > offset) ↔
      ¬ length.toNat < offset.toNat + n := by
    simp only [UInt64.le_iff_toNat_le, gt_iff_lt, UInt64.lt_iff_toNat_lt, UInt64.toNat_add, hnNat]
    omega
  rw [if_neg h0, show Utf8.leadLength lead = n from rfl, if_neg h0]
  simp only [if_true, hbound, hnNat]
  by_cases hout : length.toNat < offset.toNat + n
  · rw [if_neg (not_not_intro hout), if_pos hout]
  rw [if_pos hout, if_neg hout]
  have hfit : offset.toNat + n ≤ string.length := by omega
  have htail : (string.drop (offset.toNat + 1)).take (n - 1) = bytes.tail := by
    rw [← List.drop_one, List.drop_take, List.drop_drop]
  rw [checkTrailBytes_eq string offset.toNat (n - 1) 1 (by omega), htail, Option.bind_eq_bind,
    Option.bind_some]
  by_cases htrail : bytes.tail.all fun b => Utf8.Trail b
  · obtain ⟨w, hw, hwv⟩ := decodeSequence_eq (n := n) value (by omega) hfit
    have hv : v = w := by
      rw [show v = UInt32.ofNat (decodedValue bytes) from rfl, ← hwv, UInt32.ofNat_toNat]
    have hsize : getCodePointUtf8SequenceLength w ≠ UInt64.ofNat n ↔
        n ≠ Utf8.size (decodedValue bytes) := by
      rw [getCodePointUtf8SequenceLength_eq, ← hwv, ne_eq, ne_eq, ← UInt64.toNat_inj, hnNat]
      have hle : Utf8.size w.toNat ≤ 4 := by
        unfold Utf8.size
        split_ifs <;> omega
      rw [UInt64.toNat_ofNat', Nat.mod_eq_of_lt (by omega)]
      exact not_congr eq_comm
    rw [if_pos htrail, if_neg (not_not_intro htrail), hw, Option.bind_eq_bind, Option.bind_some]
    simp only [hsize, Bool.not_eq_true', ← Bool.not_eq_true, isValidCodePoint_iff, hwv, hv]
    split_ifs <;> rfl
  · rw [if_neg htrail, if_pos htrail]

/-- The length cuts a sequence off: the byte at `offset` announces more bytes than are before it. -/
def CutOff (string : List UInt8) (length offset : UInt64) : Prop :=
  ∃ lead ∈ string[offset.toNat]?,
    Utf8.leadLength lead ≠ 0 ∧ length.toNat < offset.toNat + Utf8.leadLength lead

instance (string : List UInt8) (length offset : UInt64) :
    Decidable (CutOff string length offset) :=
  Option.decidableExistsMem string[offset.toNat]?

theorem cutOff_iff {string : List UInt8} {length offset : UInt64} {lead : UInt8}
    (hlead : string[offset.toNat]? = some lead) : CutOff string length offset ↔
      Utf8.leadLength lead ≠ 0 ∧ length.toNat < offset.toNat + Utf8.leadLength lead := by
  simp [CutOff, hlead]

/-- **A sequence that is cut off is let be.** -/
theorem utf8Increment_cutOff {string : List UInt8} {length offset : UInt64}
    (h : CutOff string length offset) (value : UInt32) :
    utf8Increment string length offset value = some (.none, offset, value) := by
  obtain ⟨lead, hlead, hne, hout⟩ := h
  have hrange := Utf8.leadLength_range lead
  have hlt := length.toNat_lt
  have hbounds : ¬ (offset + .ofNat (Utf8.leadLength lead) ≤ length ∧
      offset + .ofNat (Utf8.leadLength lead) > offset) := by
    rw [gt_iff_lt, UInt64.le_iff_toNat_le, UInt64.lt_iff_toNat_lt, UInt64.toNat_add,
      UInt64.toNat_ofNat']
    omega
  rw [utf8Increment, hlead, Option.bind_eq_bind, Option.bind_some, getUtf8SequenceLength_eq]
  simp only [if_neg hne, if_true, if_neg hbounds, indexOutOfRange_eq]

/-- **What a step leaves**: an exception leaves the offset alone, and so does a sequence that is cut
off; else the offset moves forward, within the length. -/
theorem utf8Increment_leaves {string : List UInt8} {length offset newOffset : UInt64}
    {value newValue : UInt32} {exception : ExceptionCode}
    (h : utf8Increment string length offset value = some (exception, newOffset, newValue)) :
    (exception ≠ .none ∧ newOffset = offset) ∨
      (exception = .none ∧ CutOff string length offset ∧ newOffset = offset ∧ newValue = value) ∨
      (exception = .none ∧ offset < newOffset ∧ newOffset ≤ length) := by
  have hfails : ∀ {e : ExceptionCode} {v : UInt32}, e ≠ .none →
      some (e, offset, v) = some (exception, newOffset, newValue) →
      exception ≠ .none ∧ newOffset = offset := by
    intro e v he heq
    obtain ⟨rfl, hrest⟩ := Prod.mk.inj (Option.some.inj heq)
    exact ⟨he, (Prod.mk.inj hrest).1.symm⟩
  obtain ⟨hinvalid, hincomplete, hoverlong⟩ := unicode_ne_none
  unfold utf8Increment at h
  obtain ⟨lead, hlead, h⟩ := Option.bind_eq_some_iff.mp h
  rcases hannounced : getUtf8SequenceLength lead with ⟨e, sequenceLength⟩
  rw [hannounced] at h
  dsimp only at h
  split_ifs at h with hnone hbounds
  · obtain ⟨ok, -, h⟩ := Option.bind_eq_some_iff.mp h
    split_ifs at h
    · obtain ⟨v, -, h⟩ := Option.bind_eq_some_iff.mp h
      split_ifs at h
      · exact .inl (hfails hoverlong h)
      · exact .inl (hfails hinvalid h)
      · obtain ⟨rfl, heq⟩ := Prod.mk.inj (Option.some.inj h)
        obtain ⟨rfl, -⟩ := Prod.mk.inj heq
        exact .inr (.inr ⟨hnone, hbounds.2, hbounds.1⟩)
    · exact .inl (hfails hincomplete h)
  · obtain ⟨rfl, heq⟩ := Prod.mk.inj (Option.some.inj h)
    obtain ⟨rfl, rfl⟩ := Prod.mk.inj heq
    refine .inr (.inl ⟨indexOutOfRange_eq, (cutOff_iff hlead).mpr ?_, rfl, rfl⟩)
    -- the lead byte announces a length, which leads past the end or wraps around
    rw [getUtf8SequenceLength_eq, Prod.mk.injEq] at hannounced
    obtain ⟨he, rfl⟩ := hannounced
    have hne : Utf8.leadLength lead ≠ 0 := by
      intro h0
      rw [if_pos h0] at he
      exact hinvalid (he.trans hnone)
    refine ⟨hne, ?_⟩
    have hrange := Utf8.leadLength_range lead
    have := length.toNat_lt
    rw [gt_iff_lt, UInt64.le_iff_toNat_le, UInt64.lt_iff_toNat_lt, UInt64.toNat_add,
      UInt64.toNat_ofNat'] at hbounds
    omega
  · exact .inl (hfails hnone h)

/-! ## Correctness -/

/-- The encoding of `c` stands at `offset` and ends before `length`. -/
def EncodedAt (string : List UInt8) (length offset : UInt64) (c : Char) : Prop :=
  String.utf8EncodeChar c <+: string.drop offset.toNat ∧
    offset.toNat + (String.utf8EncodeChar c).length ≤ length.toNat

/-- Success iff an encoding stands at `offset`, in which case the value is that of the character
and the offset grows by the length of its encoding; otherwise the offset stays. -/
def IncrementCorrect (string : List UInt8) (length offset : UInt64) (value : UInt32) : Prop :=
  ∃ exception newOffset newValue,
    utf8Increment string length offset value = some (exception, newOffset, newValue) ∧
    (exception = .none ↔ ∃ c, EncodedAt string length offset c) ∧
    (∀ c, EncodedAt string length offset c →
      newValue = c.val ∧ newOffset.toNat = offset.toNat + (String.utf8EncodeChar c).length) ∧
    (exception ≠ .none → newOffset = offset)

/-- The sequence of four bytes that stands before `offset + 4 ≤ length`, if any, is one the slips
do not matter for: either the third byte equals the second and the first has no value bits, or the
second is small enough for the decoded value to look overlong and the sequence is no character. -/
def FourByteExact (string : List UInt8) (length offset : UInt64) : Prop :=
  ∀ b0 b1 b2 b3 : UInt8, [b0, b1, b2, b3] <+: string.drop offset.toNat →
    offset.toNat + 4 ≤ length.toNat → Utf8.Shape [b0, b1, b2, b3] →
      (b0 = 0xf0 ∧ 0x90 ≤ b1 ∧ b2 = b1) ∨ (b1 < 0x90 ∧ (b0 = 0xf0 ∨ 0xf5 ≤ b0))

/-- The value is a scalar value that needs exactly `n` bytes. -/
def SizedScalar (n v : Nat) : Prop := n = Utf8.size v ∧ Utf8.Scalar v

/-- The decoded value is accepted iff the payload should be, and is the payload then. -/
def Agree (bytes : List UInt8) : Prop :=
  (SizedScalar bytes.length (decodedValue bytes) ↔ SizedScalar bytes.length (Utf8.payload bytes)) ∧
    (SizedScalar bytes.length (Utf8.payload bytes) → decodedValue bytes = Utf8.payload bytes)

theorem agree_of_length_ne {bytes : List UInt8} (h : bytes.length ≠ 4) : Agree bytes := by
  have hv : decodedValue bytes = Utf8.payload bytes := by
    match bytes, h with
    | [], _ | [_], _ | [_, _], _ | [_, _, _], _ | _ :: _ :: _ :: _ :: _ :: _, _ => rfl
  rw [Agree, hv]
  exact ⟨Iff.rfl, fun _ => rfl⟩

/-- **Which sequences of four bytes survive the slips.** -/
theorem agree_four_iff {b0 b1 b2 b3 : UInt8} (h : Utf8.Shape [b0, b1, b2, b3]) :
    Agree [b0, b1, b2, b3] ↔
      (b0 = 0xf0 ∧ 0x90 ≤ b1 ∧ b2 = b1) ∨ (b1 < 0x90 ∧ (b0 = 0xf0 ∨ 0xf5 ≤ b0)) := by
  have hr := Utf8.leadLength_range b0
  simp only [Utf8.Shape, Utf8.Trail, List.length_cons, List.length_nil, List.forall_mem_cons,
    List.not_mem_nil, false_implies, implies_true, and_true] at h
  simp only [Agree, SizedScalar, decodedValue, Utf8.payload, Utf8.Scalar, List.length_cons,
    List.length_nil, UInt8.le_iff_toNat_le, UInt8.lt_iff_toNat_lt, ← UInt8.toNat_inj,
    UInt8.toNat_ofNat, Nat.reduceMod, Nat.reducePow, Nat.reduceAdd]
  have hsize : ∀ v, 4 = Utf8.size v ↔ 0x10000 ≤ v := by
    intro v
    unfold Utf8.size
    split_ifs <;> omega
  simp only [hsize]
  obtain ⟨hlead, ⟨h1, h1'⟩, ⟨h2, h2'⟩, h3, h3'⟩ := h
  obtain ⟨x0, hx0⟩ : ∃ x, b0.toNat = 0xf0 + x := ⟨b0.toNat - 0xf0, by omega⟩
  obtain ⟨x1, hx1⟩ : ∃ x, b1.toNat = 0x80 + x := ⟨b1.toNat - 0x80, by omega⟩
  obtain ⟨x2, hx2⟩ : ∃ x, b2.toNat = 0x80 + x := ⟨b2.toNat - 0x80, by omega⟩
  obtain ⟨x3, hx3⟩ : ∃ x, b3.toNat = 0x80 + x := ⟨b3.toNat - 0x80, by omega⟩
  have e0 : b0.toNat % 8 = x0 := by omega
  have e1 : b1.toNat % 64 = x1 := by omega
  have e2 : b2.toNat % 64 = x2 := by omega
  have e3 : b3.toNat % 64 = x3 := by omega
  rw [e0, e1, e2, e3]
  by_cases hbig : 16 ≤ x1
  · omega
  · omega

/-- A sequence at `offset` is the bytes that the lead announces. -/
theorem standing_iff {string : List UInt8} {length offset : UInt64} {lead : UInt8}
    (hlength : length.toNat ≤ string.length) (hlead : string[offset.toNat]? = some lead)
    {bytes : List UInt8} (hshape : Utf8.Shape bytes) :
    bytes <+: string.drop offset.toNat ∧ offset.toNat + bytes.length ≤ length.toNat ↔
      offset.toNat + Utf8.leadLength lead ≤ length.toNat ∧
        bytes = (string.drop offset.toNat).take (Utf8.leadLength lead) := by
  obtain ⟨rest, hrest⟩ : ∃ rest, string.drop offset.toNat = lead :: rest := by
    obtain ⟨h, rfl⟩ := List.getElem?_eq_some_iff.mp hlead
    exact ⟨_, List.drop_eq_getElem_cons h⟩
  constructor
  · rintro ⟨hpre, hfit⟩
    have htake := List.prefix_iff_eq_take.mp hpre
    have hlen : Utf8.leadLength lead = bytes.length := by
      cases bytes with
      | nil => exact hshape.elim
      | cons a l =>
        rw [hrest, List.length_cons, List.take_succ_cons, List.cons.injEq] at htake
        rw [← htake.1, List.length_cons]
        exact hshape.1
    rw [hlen]
    exact ⟨hfit, htake⟩
  · rintro ⟨hfit, heq⟩
    have hlen : bytes.length = Utf8.leadLength lead := by
      rw [heq, List.length_take, List.length_drop]
      omega
    exact ⟨heq ▸ List.take_prefix _ _, hlen ▸ hfit⟩

/-- So is an encoding. -/
theorem encodedAt_iff {string : List UInt8} {length offset : UInt64} {lead : UInt8}
    (hlength : length.toNat ≤ string.length) (hlead : string[offset.toNat]? = some lead)
    (c : Char) :
    EncodedAt string length offset c ↔
      offset.toNat + Utf8.leadLength lead ≤ length.toNat ∧
        String.utf8EncodeChar c = (string.drop offset.toNat).take (Utf8.leadLength lead) :=
  standing_iff hlength hlead ((Utf8.encode_eq_iff c _).mp rfl).1

/-- The announced bytes are there and have the shape of a sequence iff there are trail bytes where
announced. -/
theorem announced_shape_iff {string : List UInt8} {offset : Nat} {lead : UInt8}
    (hlead : string[offset]? = some lead) (hfit : offset + Utf8.leadLength lead ≤ string.length)
    {bytes : List UInt8} (hbytes : (string.drop offset).take (Utf8.leadLength lead) = bytes) :
    bytes.length = Utf8.leadLength lead ∧ (Utf8.Shape bytes ↔
      Utf8.leadLength lead ≠ 0 ∧ bytes.tail.all (fun b => Utf8.Trail b) = true) := by
  obtain ⟨rest, hrest⟩ : ∃ rest, string.drop offset = lead :: rest := by
    obtain ⟨h, rfl⟩ := List.getElem?_eq_some_iff.mp hlead
    exact ⟨_, List.drop_eq_getElem_cons h⟩
  have hlen : bytes.length = Utf8.leadLength lead := by
    rw [← hbytes, List.length_take, List.length_drop]
    omega
  refine ⟨hlen, ?_⟩
  rw [hrest] at hbytes
  cases hn : Utf8.leadLength lead with
  | zero =>
    rw [hn, List.take_zero] at hbytes
    simp [← hbytes, Utf8.Shape]
  | succ n =>
    rw [hn, List.take_succ_cons] at hbytes
    have hrestLen : (rest.take n).length = n := by
      rw [hn, ← hbytes, List.length_cons] at hlen
      omega
    rw [← hbytes, Utf8.Shape, hn, hrestLen, List.tail_cons]
    simp

theorem decodedValue_lt (bytes : List UInt8) : decodedValue bytes < 2 ^ 32 := by
  match bytes with
  | [] => exact Nat.two_pow_pos 32
  | [a] =>
    have := a.toNat_lt
    simp only [decodedValue, Utf8.payload]
    omega
  | [_, _] | [_, _, _] | [_, _, _, _] =>
    simp only [decodedValue, Utf8.payload]
    omega
  | _ :: _ :: _ :: _ :: _ :: _ => exact Nat.two_pow_pos 32

/-- Success iff the announced bytes are there, have the shape of a sequence and an acceptable
value, or are cut off; the offset moves in the first case only. -/
theorem utf8Increment_outcome {string : List UInt8} {length offset : UInt64} (value : UInt32)
    (hlength : length.toNat ≤ string.length) (hoffset : offset < length) {lead : UInt8}
    (hlead : string[offset.toNat]? = some lead) {bytes : List UInt8}
    (hbytes : (string.drop offset.toNat).take (Utf8.leadLength lead) = bytes) :
    (offset.toNat + Utf8.leadLength lead ≤ length.toNat ∧ Utf8.Shape bytes ∧
        SizedScalar bytes.length (decodedValue bytes) ∧
      utf8Increment string length offset value = some (.none,
        offset + UInt64.ofNat (Utf8.leadLength lead), UInt32.ofNat (decodedValue bytes))) ∨
    (CutOff string length offset ∧
      utf8Increment string length offset value = some (.none, offset, value)) ∨
    (¬ CutOff string length offset ∧
      ¬ (offset.toNat + Utf8.leadLength lead ≤ length.toNat ∧ Utf8.Shape bytes ∧
        SizedScalar bytes.length (decodedValue bytes)) ∧
      ∃ exception newValue, exception ≠ .none ∧
        utf8Increment string length offset value = some (exception, offset, newValue)) := by
  have hformula := utf8Increment_eq value hlength hoffset hlead
  have hofs : offset.toNat < length.toNat := UInt64.lt_iff_toNat_lt.mp hoffset
  obtain ⟨hinvalid, hincomplete, hoverlong⟩ := unicode_ne_none
  simp only [hbytes] at hformula
  rw [hformula, cutOff_iff hlead]
  by_cases hfit : offset.toNat + Utf8.leadLength lead ≤ length.toNat
  · obtain ⟨hlen, hshape⟩ := announced_shape_iff hlead (hfit.trans hlength) hbytes
    rw [hshape, hlen, SizedScalar]
    have hwhole : ¬ (Utf8.leadLength lead ≠ 0 ∧
        length.toNat < offset.toNat + Utf8.leadLength lead) := by omega
    split_ifs with h0 h1 h2 h3 h4
    · exact .inr (.inr ⟨hwhole, fun h => h.2.1.1 h0, _, _, hinvalid, rfl⟩)
    · omega
    · exact .inr (.inr ⟨hwhole, fun h => h3 h.2.2.1, _, _, hoverlong, rfl⟩)
    · exact .inl ⟨hfit, ⟨h0, h2⟩, ⟨not_not.mp h3, h4⟩, rfl⟩
    · exact .inr (.inr ⟨hwhole, fun h => h4 h.2.2.2, _, _, hinvalid, rfl⟩)
    · exact .inr (.inr ⟨hwhole, fun h => h2 h.2.1.2, _, _, hincomplete, rfl⟩)
  · by_cases h0 : Utf8.leadLength lead = 0
    · omega
    · refine .inr (.inl ⟨⟨h0, Nat.not_le.mp hfit⟩, ?_⟩)
      rw [if_neg h0, if_pos (Nat.not_le.mp hfit), indexOutOfRange_eq]

/-- Some encoding stands at the offset iff the announced bytes are one. -/
theorem exists_encodedAt_iff {string : List UInt8} {length offset : UInt64} {lead : UInt8}
    (hlength : length.toNat ≤ string.length) (hlead : string[offset.toNat]? = some lead)
    {bytes : List UInt8} (hbytes : (string.drop offset.toNat).take (Utf8.leadLength lead) = bytes) :
    (∃ c, EncodedAt string length offset c) ↔
      offset.toNat + Utf8.leadLength lead ≤ length.toNat ∧ Utf8.Shape bytes ∧
        SizedScalar bytes.length (Utf8.payload bytes) := by
  have henc := encodedAt_iff hlength hlead
  rw [hbytes] at henc
  have hspec := Utf8.exists_encode_eq_iff bytes
  simp only [henc, exists_and_left, hspec, SizedScalar]
  tauto

/-- Where bytes are accepted, the function is correct iff what it decodes is what they encode. -/
theorem incrementCorrect_iff_of_accepted {string : List UInt8} {length offset : UInt64}
    {value : UInt32} (hlength : length.toNat ≤ string.length) {lead : UInt8}
    (hlead : string[offset.toNat]? = some lead) {bytes : List UInt8}
    (hbytes : (string.drop offset.toNat).take (Utf8.leadLength lead) = bytes)
    (hfit : offset.toNat + Utf8.leadLength lead ≤ length.toNat) (hshape : Utf8.Shape bytes)
    (hsized : SizedScalar bytes.length (decodedValue bytes))
    (hrun : utf8Increment string length offset value = some (.none,
      offset + UInt64.ofNat (Utf8.leadLength lead), UInt32.ofNat (decodedValue bytes))) :
    IncrementCorrect string length offset value ↔ Agree bytes := by
  have henc := encodedAt_iff hlength hlead
  rw [hbytes] at henc
  have hexists := exists_encodedAt_iff hlength hlead hbytes
  have hv : (UInt32.ofNat (decodedValue bytes)).toNat = decodedValue bytes := by
    rw [UInt32.toNat_ofNat', Nat.mod_eq_of_lt (decodedValue_lt bytes)]
  have hnew : (offset + UInt64.ofNat (Utf8.leadLength lead)).toNat =
      offset.toNat + Utf8.leadLength lead := by
    have := length.toNat_lt
    rw [UInt64.toNat_add, UInt64.toNat_ofNat']
    omega
  constructor
  · rintro ⟨_, _, _, heq, hiff, hval, _⟩
    obtain ⟨rfl, rfl, rfl⟩ : _ ∧ _ ∧ _ := by simpa [hrun] using heq
    obtain ⟨c, hc⟩ := hiff.mp rfl
    have hp := ((Utf8.encode_eq_iff c bytes).mp ((henc c).mp hc).2).2.1
    have hdv : decodedValue bytes = Utf8.payload bytes := by
      rw [hp, ← hv, (hval c hc).1]
      rfl
    rw [Agree, hdv]
    exact ⟨Iff.rfl, fun _ => rfl⟩
  · rintro ⟨hiff, hval⟩
    have hp := hiff.mp hsized
    refine ⟨_, _, _, hrun, ⟨fun _ => hexists.mpr ⟨hfit, hshape, hp⟩, fun _ => rfl⟩, ?_,
      fun h => absurd rfl h⟩
    intro c hc
    obtain ⟨_, hpc, _⟩ := (Utf8.encode_eq_iff c bytes).mp ((henc c).mp hc).2
    refine ⟨UInt32.toNat_inj.mp ?_, ?_⟩
    · rw [hv, hval hp, hpc]
      rfl
    · rw [hnew, ((henc c).mp hc).2, ← hbytes, List.length_take, List.length_drop]
      omega

/-- Where there is an exception, it is correct iff no encoding stands there. -/
theorem incrementCorrect_iff_of_rejected {string : List UInt8} {length offset : UInt64}
    {value newValue : UInt32} {exception : ExceptionCode} (hexception : exception ≠ .none)
    (hrun : utf8Increment string length offset value = some (exception, offset, newValue)) :
    IncrementCorrect string length offset value ↔ ¬ ∃ c, EncodedAt string length offset c := by
  constructor
  · rintro ⟨_, _, _, heq, hiff, _, _⟩ hencoded
    obtain ⟨rfl, rfl, rfl⟩ : _ ∧ _ ∧ _ := by simpa [hrun] using heq
    exact hexception (hiff.mpr hencoded)
  · intro hnone
    exact ⟨_, _, _, hrun, ⟨fun h => absurd h hexception, fun h => absurd h hnone⟩,
      fun c hc => absurd ⟨c, hc⟩ hnone, fun _ => rfl⟩

/-- Whether the function is correct depends on the announced bytes alone. -/
theorem incrementCorrect_iff_agree {string : List UInt8} {length offset : UInt64} (value : UInt32)
    (hlength : length.toNat ≤ string.length) (hoffset : offset < length) {lead : UInt8}
    (hlead : string[offset.toNat]? = some lead) {bytes : List UInt8}
    (hbytes : (string.drop offset.toNat).take (Utf8.leadLength lead) = bytes) :
    IncrementCorrect string length offset value ↔ ¬ CutOff string length offset ∧
      (offset.toNat + Utf8.leadLength lead ≤ length.toNat → Utf8.Shape bytes → Agree bytes) := by
  have hexists := exists_encodedAt_iff hlength hlead hbytes
  rcases utf8Increment_outcome value hlength hoffset hlead hbytes with
    ⟨hfit, hshape, hsized, hrun⟩ | ⟨hcut, hrun⟩ | ⟨hwhole, hrej, exception, newValue, hexc, hrun⟩
  · have hwhole : ¬ CutOff string length offset := by
      rw [cutOff_iff hlead]
      omega
    rw [incrementCorrect_iff_of_accepted hlength hlead hbytes hfit hshape hsized hrun]
    exact ⟨fun hagree => ⟨hwhole, fun _ _ => hagree⟩, fun h => h.2 hfit hshape⟩
  · -- reported as decoded
    refine iff_of_false ?_ fun h => h.1 hcut
    rintro ⟨_, _, _, heq, hiff, _, _⟩
    obtain ⟨rfl, rfl, rfl⟩ : _ ∧ _ ∧ _ := by simpa [hrun] using heq
    have hfit := (hexists.mp (hiff.mp rfl)).1
    have hout := ((cutOff_iff hlead).mp hcut).2
    omega
  · rw [incrementCorrect_iff_of_rejected hexc hrun, hexists]
    constructor
    · refine fun hnone => ⟨hwhole, fun hfit hshape => ?_⟩
      have hnot : ¬ SizedScalar bytes.length (Utf8.payload bytes) := fun hp =>
        hnone ⟨hfit, hshape, hp⟩
      exact ⟨⟨fun h => absurd ⟨hfit, hshape, h⟩ hrej, fun h => absurd h hnot⟩,
        fun h => absurd h hnot⟩
    · rintro ⟨-, hagree⟩ ⟨hfit, hshape, hp⟩
      exact hrej ⟨hfit, hshape, (hagree hfit hshape).1.mpr hp⟩

end Hologine.Text
