import Hologine.Library.Bits

/-!
# Handles: four fields packed into 64 bits

Model of `handle_definition` (`core/handle.hpp`) and of `math::mask` (`core/math/bits.hpp:25-37`),
on the 64-bit build, where `std::size_t` and `holo::handle` are both 64 bits wide.

* `mask` is the template `math::mask`: `(1 << (N + 1)) - 1`, with the specialisation for `0`. The
  literal `1` is an `int`, so widths above 29 overflow; `Layout` excludes them.
* `HandleDefinition` holds the four template arguments and `Layout` those that use a handle in
  full: a type in `1 … 255`, three fields of at most 29 bits, 56 bits of fields in all.
* `encode`, `isType`, `decodeAge`, `decodeScope` and `decodeIndex` are the static methods.

`math::mask<N>` keeps `N + 1` bits, one more than the field has, so each decoder of a non-empty
field also reads the lowest bit of what is stored above the field.

Results:
* `toNat_encode`: an encoded handle is the fields in mixed radix.
* `toNat_decodeAge`, `toNat_decodeScope`, `toNat_decodeIndex`: what the decoders read from it.
* `roundTrips_iff`: the round trip succeeds **iff** the bit above every non-empty field is clear.
* `encode_decode`: a handle of the right type is the encoding of what the decoders read from it,
  because the bits the decoders read in excess are put back where they came from.
-/

namespace Hologine.Handle

open Hologine.Library.Bits

/-- `std::uint64_t`, and `std::size_t` of the 64-bit build. -/
abbrev U64 := BitVec 64

/-- `math::mask<N>::value`. -/
def mask (n : Nat) : U64 :=
  if n = 0 then 0 else BitVec.ofNat 64 ((1 <<< (n + 1)) - 1)

/-- `handle_detail::handle_type_shift`. -/
def handleTypeShift : Nat := 56

/-- `handle_detail::handle_type_mask`. -/
def handleTypeMask : U64 := 0xff

/-- The template arguments of `handle_definition`. -/
structure HandleDefinition where
  type : Nat
  age : Nat
  scope : Nat
  index : Nat
  deriving Repr, DecidableEq

namespace HandleDefinition

variable (d : HandleDefinition)

def indexShift : Nat := 0
def indexMask : U64 := mask d.index
def scopeShift : Nat := d.index
def scopeMask : U64 := mask d.scope
def ageShift : Nat := d.index + d.scope
def ageMask : U64 := mask d.age

/-- `encode`: the fields are masked, shifted into place and joined. -/
def encode (age scope index : U64) : U64 :=
  let encodedType := (BitVec.ofNat 64 d.type &&& handleTypeMask) <<< handleTypeShift
  let encodedAge := (age &&& d.ageMask) <<< d.ageShift
  let encodedScope := (scope &&& d.scopeMask) <<< d.scopeShift
  let encodedIndex := (index &&& d.indexMask) <<< indexShift
  encodedType ||| encodedAge ||| encodedScope ||| encodedIndex

/-- `is_type`. -/
def isType (handle : U64) : Bool :=
  (handle >>> handleTypeShift) &&& handleTypeMask == BitVec.ofNat 64 d.type

/-- `decode_age`. -/
def decodeAge (handle : U64) : U64 := (handle >>> d.ageShift) &&& d.ageMask

/-- `decode_scope`. -/
def decodeScope (handle : U64) : U64 := (handle >>> d.scopeShift) &&& d.scopeMask

/-- `decode_index`. -/
def decodeIndex (handle : U64) : U64 := (handle >>> indexShift) &&& d.indexMask

end HandleDefinition

/-- A definition that uses all the bits of a handle. -/
structure Layout extends HandleDefinition where
  type_pos : 0 < type
  type_le : type ≤ 255
  age_le : age ≤ 29
  scope_le : scope ≤ 29
  index_le : index ≤ 29
  total : age + scope + index = 56

/-! ## Masks -/

theorem toNat_mask {n : Nat} (h : n ≤ 29) :
    (mask n).toNat = if n = 0 then 0 else 2 ^ (n + 1) - 1 := by
  unfold mask
  split_ifs with h0
  · rfl
  · have hle : 2 ^ (n + 1) ≤ 2 ^ 30 := Nat.pow_le_pow_right (by omega) (by omega)
    rw [BitVec.toNat_ofNat, Nat.one_shiftLeft, Nat.mod_eq_of_lt (by omega)]

/-- Masking keeps one bit more than the width, and nothing for the width `0`. -/
theorem toNat_and_mask {n : Nat} (h : n ≤ 29) (v : U64) :
    (v &&& mask n).toNat = if n = 0 then 0 else v.toNat % 2 ^ (n + 1) := by
  rw [BitVec.toNat_and, toNat_mask h]
  split_ifs with h0
  · simp
  · exact Nat.and_two_pow_sub_one_eq_mod _ _

/-- A value that fits its field passes the mask unchanged. -/
theorem and_mask_of_lt {n : Nat} (h : n ≤ 29) {v : U64} (hv : v.toNat < 2 ^ n) :
    v &&& mask n = v := by
  apply BitVec.eq_of_toNat_eq
  rw [toNat_and_mask h]
  split_ifs with h0
  · rw [h0, Nat.pow_zero] at hv
    omega
  · exact Nat.mod_eq_of_lt (hv.trans (Nat.pow_lt_pow_right (by omega) (by omega)))

theorem getLsbD_mask {n : Nat} (h : n ≤ 29) (i : Nat) :
    (mask n).getLsbD i = (decide (n ≠ 0) && decide (i < n + 1)) := by
  rw [← BitVec.testBit_toNat, toNat_mask h]
  split_ifs with h0
  · simp [h0]
  · simp [h0, Nat.testBit_two_pow_sub_one]

/-- A value of at most 255 passes the type mask unchanged. -/
theorem toNat_and_handleTypeMask {v : U64} (h : v.toNat ≤ 255) :
    (v &&& handleTypeMask).toNat = v.toNat := by
  rw [BitVec.toNat_and]
  exact (Nat.and_two_pow_sub_one_eq_mod v.toNat 8).trans (Nat.mod_eq_of_lt (by omega))

/-! ## The fields in mixed radix -/

namespace Layout

variable (d : Layout)

/-- What an encoded handle stores above the index: type, age and scope. -/
def aboveIndex (age scope : Nat) : Nat := (d.type * 2 ^ d.age + age) * 2 ^ d.scope + scope

/-- What an encoded handle stores above the scope: type and age. -/
def aboveScope (age : Nat) : Nat := d.type * 2 ^ d.age + age

theorem toNat_encodedType :
    ((BitVec.ofNat 64 d.type &&& handleTypeMask) <<< handleTypeShift).toNat
      = d.type <<< (d.age + d.scope + d.index) := by
  have ht := d.type_le
  have hofNat : (BitVec.ofNat 64 d.type).toNat = d.type := by
    rw [BitVec.toNat_ofNat, Nat.mod_eq_of_lt (by omega)]
  have hmask : (BitVec.ofNat 64 d.type &&& handleTypeMask).toNat = d.type := by
    rw [toNat_and_handleTypeMask (by omega), hofNat]
  rw [BitVec.toNat_shiftLeft, hmask, d.total, Nat.mod_eq_of_lt]
  · rfl
  · show d.type <<< 56 < 2 ^ 64
    rw [Nat.shiftLeft_eq]
    omega

/-- A field in range is shifted into place without loss. -/
theorem toNat_field {width : Nat} (hw : width ≤ 29) (shift : Nat) (hs : width + shift ≤ 64)
    {v : U64} (hv : v.toNat < 2 ^ width) :
    ((v &&& mask width) <<< shift).toNat = v.toNat <<< shift := by
  rw [and_mask_of_lt hw hv, BitVec.toNat_shiftLeft, Nat.mod_eq_of_lt]
  calc v.toNat <<< shift = v.toNat * 2 ^ shift := Nat.shiftLeft_eq _ _
    _ < 2 ^ width * 2 ^ shift := Nat.mul_lt_mul_of_pos_right hv (Nat.two_pow_pos _)
    _ = 2 ^ (width + shift) := (Nat.pow_add _ _ _).symm
    _ ≤ 2 ^ 64 := Nat.pow_le_pow_right (by omega) hs

variable {d}
variable {age scope index : U64}

/-- **An encoded handle is its fields in mixed radix**, the type most significant. -/
theorem toNat_encode (ha : age.toNat < 2 ^ d.age) (hs : scope.toNat < 2 ^ d.scope)
    (hi : index.toNat < 2 ^ d.index) :
    (d.encode age scope index).toNat
      = d.aboveIndex age.toNat scope.toNat * 2 ^ d.index + index.toNat := by
  have htot := d.total
  have hA : ((age &&& mask d.age) <<< (d.index + d.scope)).toNat
      = age.toNat <<< (d.scope + d.index) := by
    rw [toNat_field d.age_le _ (by omega) ha, Nat.add_comm]
  have hS := toNat_field d.scope_le d.index (by omega) hs
  have hI := toNat_field d.index_le 0 (by omega) hi
  simp only [HandleDefinition.encode, HandleDefinition.ageMask, HandleDefinition.scopeMask,
    HandleDefinition.indexMask, HandleDefinition.ageShift, HandleDefinition.scopeShift,
    HandleDefinition.indexShift, BitVec.toNat_or, toNat_encodedType, hA, hS, hI]
  rw [Nat.add_assoc, Nat.shiftLeft_add, ← Nat.shiftLeft_or_distrib, shiftLeft_or_of_lt ha,
    Nat.shiftLeft_add, ← Nat.shiftLeft_or_distrib, shiftLeft_or_of_lt hs, Nat.shiftLeft_zero,
    shiftLeft_or_of_lt hi]
  rfl

/-- `encode` keeps the type: `is_type` accepts every encoded handle. -/
theorem isType_encode (ha : age.toNat < 2 ^ d.age) (hs : scope.toNat < 2 ^ d.scope)
    (hi : index.toNat < 2 ^ d.index) : d.isType (d.encode age scope index) = true := by
  have ht := d.type_le
  have hhigh : (d.encode age scope index).toNat >>> 56 = d.type := by
    rw [toNat_encode ha hs hi, show 56 = d.index + (d.scope + d.age) by have := d.total; omega,
      Nat.shiftRight_add, mul_add_shiftRight hi, aboveIndex, Nat.shiftRight_add,
      mul_add_shiftRight hs, mul_add_shiftRight ha]
  simp only [HandleDefinition.isType, beq_iff_eq]
  apply BitVec.eq_of_toNat_eq
  rw [toNat_and_handleTypeMask, BitVec.toNat_ushiftRight, BitVec.toNat_ofNat,
    Nat.mod_eq_of_lt (by omega)]
  · exact hhigh
  · rw [BitVec.toNat_ushiftRight]
    exact hhigh.trans_le ht

/-- `decode_index` also reads the lowest bit of what is stored above the index. -/
theorem toNat_decodeIndex (ha : age.toNat < 2 ^ d.age) (hs : scope.toNat < 2 ^ d.scope)
    (hi : index.toNat < 2 ^ d.index) :
    (d.decodeIndex (d.encode age scope index)).toNat = if d.index = 0 then 0 else
      d.aboveIndex age.toNat scope.toNat % 2 * 2 ^ d.index + index.toNat := by
  rw [HandleDefinition.decodeIndex, HandleDefinition.indexMask, toNat_and_mask d.index_le,
    HandleDefinition.indexShift, BitVec.toNat_ushiftRight, Nat.shiftRight_zero,
    toNat_encode ha hs hi, mul_add_mod_succ hi]

/-- `decode_scope` also reads the lowest bit of what is stored above the scope. -/
theorem toNat_decodeScope (ha : age.toNat < 2 ^ d.age) (hs : scope.toNat < 2 ^ d.scope)
    (hi : index.toNat < 2 ^ d.index) :
    (d.decodeScope (d.encode age scope index)).toNat = if d.scope = 0 then 0 else
      d.aboveScope age.toNat % 2 * 2 ^ d.scope + scope.toNat := by
  have hshift : (d.aboveIndex age.toNat scope.toNat * 2 ^ d.index + index.toNat) >>> d.index
      = d.aboveScope age.toNat * 2 ^ d.scope + scope.toNat := mul_add_shiftRight hi _
  rw [HandleDefinition.decodeScope, HandleDefinition.scopeMask, toNat_and_mask d.scope_le,
    HandleDefinition.scopeShift, BitVec.toNat_ushiftRight, toNat_encode ha hs hi, hshift,
    mul_add_mod_succ hs]

/-- `decode_age` also reads the lowest bit of the type. -/
theorem toNat_decodeAge (ha : age.toNat < 2 ^ d.age) (hs : scope.toNat < 2 ^ d.scope)
    (hi : index.toNat < 2 ^ d.index) :
    (d.decodeAge (d.encode age scope index)).toNat = if d.age = 0 then 0 else
      d.type % 2 * 2 ^ d.age + age.toNat := by
  have hshift : (d.aboveIndex age.toNat scope.toNat * 2 ^ d.index + index.toNat)
      >>> (d.index + d.scope) = d.type * 2 ^ d.age + age.toNat := by
    rw [Nat.shiftRight_add, mul_add_shiftRight hi, aboveIndex, mul_add_shiftRight hs]
  rw [HandleDefinition.decodeAge, HandleDefinition.ageMask, toNat_and_mask d.age_le,
    HandleDefinition.ageShift, BitVec.toNat_ushiftRight, toNat_encode ha hs hi, hshift,
    mul_add_mod_succ ha]

/-! ## The round trip -/

variable (d) in
/-- The value whose lowest bit lies just above the scope field: the age, or the type when the age
field is empty. -/
def overScope (age : Nat) : Nat := if d.age = 0 then d.type else age

variable (d) in
/-- The value whose lowest bit lies just above the index field. -/
def overIndex (age scope : Nat) : Nat := if d.scope = 0 then d.overScope age else scope

variable (d) in
/-- The bit just above every non-empty field is clear. -/
structure ClearAbove (age scope : Nat) : Prop where
  overAge : d.age ≠ 0 → d.type % 2 = 0
  overScope : d.scope ≠ 0 → d.overScope age % 2 = 0
  overIndex : d.index ≠ 0 → d.overIndex age scope % 2 = 0

variable (d) in
/-- Everything `encode` stores is read back. -/
structure RoundTrips (age scope index : U64) : Prop where
  isType : d.isType (d.encode age scope index) = true
  decodeAge : d.decodeAge (d.encode age scope index) = age
  decodeScope : d.decodeScope (d.encode age scope index) = scope
  decodeIndex : d.decodeIndex (d.encode age scope index) = index

theorem aboveScope_mod_two {a : Nat} (ha : a < 2 ^ d.age) :
    d.aboveScope a % 2 = d.overScope a % 2 := by
  rw [aboveScope, mul_add_mod_two ha, overScope]
  split_ifs <;> rfl

theorem aboveIndex_mod_two {a s : Nat} (ha : a < 2 ^ d.age) (hs : s < 2 ^ d.scope) :
    d.aboveIndex a s % 2 = d.overIndex a s % 2 := by
  have h := aboveScope_mod_two ha
  rw [aboveScope] at h
  rw [aboveIndex, mul_add_mod_two hs, overIndex, h]
  split_ifs <;> rfl

/-- A decoder returns its field iff the field is empty or the bit above it is clear. -/
theorem decoded_eq_iff {n above : Nat} {v decoded : U64} (hv : v.toNat < 2 ^ n)
    (hd : decoded.toNat = if n = 0 then 0 else above % 2 * 2 ^ n + v.toNat) :
    decoded = v ↔ (n ≠ 0 → above % 2 = 0) := by
  rw [← BitVec.toNat_inj, hd]
  split_ifs with hn
  · subst hn
    rw [Nat.pow_zero] at hv
    simp only [ne_eq, not_true_eq_false, false_implies, iff_true]
    omega
  · have hpos := Nat.two_pow_pos n
    simp only [ne_eq, hn, not_false_eq_true, true_implies, Nat.add_eq_right, Nat.mul_eq_zero]
    omega

/-- **The round trip succeeds iff the bit above every non-empty field is clear.** -/
theorem roundTrips_iff (ha : age.toNat < 2 ^ d.age) (hs : scope.toNat < 2 ^ d.scope)
    (hi : index.toNat < 2 ^ d.index) :
    d.RoundTrips age scope index ↔ d.ClearAbove age.toNat scope.toNat := by
  have hAge := decoded_eq_iff ha (toNat_decodeAge ha hs hi)
  have hScope := decoded_eq_iff hs (toNat_decodeScope ha hs hi)
  have hIndex := decoded_eq_iff hi (toNat_decodeIndex ha hs hi)
  rw [aboveScope_mod_two ha] at hScope
  rw [aboveIndex_mod_two ha hs] at hIndex
  exact ⟨fun h => ⟨hAge.mp h.decodeAge, hScope.mp h.decodeScope, hIndex.mp h.decodeIndex⟩,
    fun h => ⟨isType_encode ha hs hi, hAge.mpr h.overAge, hScope.mpr h.overScope,
      hIndex.mpr h.overIndex⟩⟩

/-- The layout of the repository's own tests. -/
def testLayout : Layout :=
  ⟨⟨16, 20, 18, 18⟩, by decide, by decide, by decide, by decide, by decide, by decide⟩

/-- The tests' values are even in every field, and so is the type: they round trip. -/
theorem roundTrips_iff_testLayout : testLayout.RoundTrips 132 132 132 :=
  (roundTrips_iff (d := testLayout) (by decide) (by decide) (by decide)).mpr
    ⟨by decide, by decide, by decide⟩

/-- The test layout with an odd type. -/
def oddLayout : Layout :=
  ⟨⟨1, 20, 18, 18⟩, by decide, by decide, by decide, by decide, by decide, by decide⟩

/-- **An odd type is read back as part of the age**: age `1` under type `1` decodes as
`2 ^ 20 + 1`. -/
theorem not_roundTrips : ¬ ∀ (d : Layout) (age scope index : U64),
    age.toNat < 2 ^ d.age → scope.toNat < 2 ^ d.scope → index.toNat < 2 ^ d.index →
      d.RoundTrips age scope index := by
  intro h
  have hage := (h oddLayout 1 0 0 (by decide) (by decide) (by decide)).decodeAge
  exact absurd hage (by decide)

/-! ## Encoding what was decoded -/

variable (d)

/-- A decoded field has at most 30 bits. -/
theorem toNat_and_mask_lt {n : Nat} (h : n ≤ 29) (v : U64) : (v &&& mask n).toNat < 2 ^ 30 := by
  rw [toNat_and_mask h]
  split_ifs
  · exact Nat.two_pow_pos _
  · exact (Nat.mod_lt _ (Nat.two_pow_pos _)).trans_le (Nat.pow_le_pow_right (by omega) (by omega))

/-- A field cut out of a handle and put back has the handle's own bits, and none outside the
positions the mask lets through. -/
theorem getLsbD_putBack {n : Nat} (hn : n ≤ 29) (shift : Nat) (handle : U64) (i : Nat) :
    (((handle >>> shift &&& mask n) &&& mask n) <<< shift).getLsbD i =
      (decide (i < 64) && decide (shift ≤ i) && decide (n ≠ 0) && decide (i < shift + n + 1)
        && handle.getLsbD i) := by
  simp only [BitVec.getLsbD_shiftLeft, BitVec.getLsbD_and, BitVec.getLsbD_ushiftRight,
    getLsbD_mask hn]
  by_cases hs : shift ≤ i
  · have hle : decide (i - shift < n + 1) = decide (i < shift + n + 1) := by
      rw [decide_eq_decide]
      omega
    have hidx : shift + (i - shift) = i := by omega
    rw [hle, hidx]
    by_cases hn0 : n = 0
    · simp [hn0]
    · by_cases hlt : i < shift + n + 1 <;> simp [hs, Nat.not_lt.mpr hs, hn0, hlt]
  · simp [hs, Nat.lt_of_not_le hs]

/-- **A handle of the right type is the encoding of what the decoders read from it**, although
they read one bit too many. -/
theorem encode_decode {handle : U64} (h : d.isType handle = true) :
    d.encode (d.decodeAge handle) (d.decodeScope handle) (d.decodeIndex handle) = handle := by
  have htype : BitVec.ofNat 64 d.type = (handle >>> handleTypeShift) &&& handleTypeMask := by
    simpa [HandleDefinition.isType] using (beq_iff_eq.mp h).symm
  have htot := d.total
  apply BitVec.eq_of_getLsbD_eq
  intro i hi
  simp only [HandleDefinition.encode, HandleDefinition.decodeAge, HandleDefinition.decodeScope,
    HandleDefinition.decodeIndex, HandleDefinition.ageMask, HandleDefinition.scopeMask,
    HandleDefinition.indexMask, BitVec.getLsbD_or, getLsbD_putBack d.age_le,
    getLsbD_putBack d.scope_le, getLsbD_putBack d.index_le, htype]
  have hfield : ∀ j, handleTypeMask.getLsbD j = decide (j < 8) := by
    intro j
    show (255#64).getLsbD j = _
    rw [← BitVec.testBit_toNat]
    exact Nat.testBit_two_pow_sub_one 8 j
  simp only [BitVec.getLsbD_shiftLeft, BitVec.getLsbD_and, BitVec.getLsbD_ushiftRight, hfield,
    HandleDefinition.ageShift, HandleDefinition.scopeShift, HandleDefinition.indexShift,
    handleTypeShift]
  -- every bit lies in exactly one field, or in the type
  by_cases hT : 56 ≤ i
  · have hidx : 56 + (i - 56) = i := by omega
    have : i - 56 < 8 := by omega
    simp only [hidx]
    generalize handle.getLsbD i = b
    cases b <;> simp [hi, this, Nat.not_lt.mpr hT]
  · have hcases : (d.index + d.scope ≤ i ∧ d.age ≠ 0) ∨ (d.index ≤ i ∧ i < d.index + d.scope) ∨
        i < d.index := by omega
    generalize handle.getLsbD i = b
    cases b
    · simp [Nat.lt_of_not_le hT]
    · rcases hcases with ⟨hA, hA'⟩ | ⟨hS, hS'⟩ | hI
      · simp [hi, hA, hA', show i < d.index + d.scope + d.age + 1 by omega]
      · simp [hi, hS, show d.scope ≠ 0 by omega, show i < d.index + d.scope + 1 by omega]
      · simp [hi, show d.index ≠ 0 by omega, show i < d.index + 1 by omega]

end Layout

end Hologine.Handle
