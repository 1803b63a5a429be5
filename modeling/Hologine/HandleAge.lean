import Hologine.Handle
import Mathlib.Logic.Function.Iterate

/-!
# Ages of handles

Model of `handle_definition::max_age` and `handle_definition::increment_age`
(`core/handle.hpp:118-135, 213-217`), and what `encode` makes of the ages they count through.

* `maxAge` is the mask of the age, which has one bit more than the field. So half of the ages from
  `1` to `maxAge` do not fit the field, and `encode` joins their highest bit to the type.
* `storedType` is the type that is stored so.

Results:
* `toNat_iterate_incrementAge`: the ages count from `1` to `maxAge` and start over.
* `toNat_encode_age`, `isType_encode_iff`, `encode_eq_iff`: what is stored with any of these ages.
* `detects_iff`: two of them are told apart **iff** the type is even and both fit the field, or the
  type is odd and they differ in it.
-/

namespace Hologine.Handle

open Hologine.Library.Bits

namespace HandleDefinition

variable (d : HandleDefinition)

/-- `max_age`. -/
def maxAge : U64 := d.ageMask

/-- `increment_age`. -/
def incrementAge (age : U64) : U64 := (age % d.maxAge) + 1

end HandleDefinition

namespace Layout

variable (d : Layout)

/-- An age that `increment_age` counts through. -/
def CountsAge (age : U64) : Prop := 1 ≤ age.toNat ∧ age.toNat ≤ d.maxAge.toNat

/-- **Two ages are told apart**: their handles differ, and both are of the type. -/
structure Detects (a b scope index : U64) : Prop where
  different : d.encode a scope index ≠ d.encode b scope index
  isTypeLeft : d.isType (d.encode a scope index) = true
  isTypeRight : d.isType (d.encode b scope index) = true

/-- **The condition**: under an even type both ages fit the field, and under an odd type the field
holds different ones. -/
def AgesFit (a b : U64) : Prop :=
  (d.type % 2 = 0 → a.toNat < 2 ^ d.age ∧ b.toNat < 2 ^ d.age) ∧
    (d.type % 2 = 1 → a.toNat % 2 ^ d.age ≠ b.toNat % 2 ^ d.age)

instance (a b : U64) : Decidable (d.AgesFit a b) :=
  inferInstanceAs (Decidable ((_ → _ ∧ _) ∧ (_ → _)))

/-- The type that is stored with an age: what does not fit the field is joined to it. -/
def storedType (age : Nat) : Nat := d.type ||| age / 2 ^ d.age

variable {d}

/-! ## Counting -/

theorem toNat_maxAge (hage : 0 < d.age) : d.maxAge.toNat = 2 ^ (d.age + 1) - 1 :=
  (toNat_mask d.age_le).trans (if_neg (Nat.ne_of_gt hage))

theorem maxAge_pos (hage : 0 < d.age) : 0 < d.maxAge.toNat := by
  have hpow : 2 ^ 1 ≤ 2 ^ (d.age + 1) := Nat.pow_le_pow_right (by decide) (by omega)
  rw [toNat_maxAge hage]
  omega

theorem maxAge_lt (hage : 0 < d.age) : d.maxAge.toNat < 2 ^ 30 := by
  have hle := d.age_le
  have hpow : 2 ^ (d.age + 1) ≤ 2 ^ 30 := Nat.pow_le_pow_right (by decide) (by omega)
  rw [toNat_maxAge hage]
  omega

theorem toNat_incrementAge (hage : 0 < d.age) (age : U64) :
    (d.incrementAge age).toNat = age.toNat % d.maxAge.toNat + 1 := by
  have hmod := Nat.mod_lt age.toNat (maxAge_pos hage)
  have hlt := maxAge_lt hage
  have hone : BitVec.toNat (1 : U64) = 1 := rfl
  rw [HandleDefinition.incrementAge, BitVec.toNat_add, BitVec.toNat_umod, hone,
    Nat.mod_eq_of_lt (by omega)]

/-- **The ages count from `1` to `maxAge` and start over.** -/
theorem toNat_iterate_incrementAge (hage : 0 < d.age) (n : Nat) :
    (d.incrementAge^[n] 1).toNat = n % d.maxAge.toNat + 1 := by
  induction n with
  | zero => rw [Function.iterate_zero_apply, Nat.zero_mod]; rfl
  | succ n ih =>
    rw [Function.iterate_succ_apply', toNat_incrementAge hage, ih, Nat.mod_add_mod]

/-! ## What is stored with an age -/

variable {age a b scope index : U64}

theorem CountsAge.lt (hage : 0 < d.age) (h : d.CountsAge age) :
    age.toNat < 2 ^ (d.age + 1) := by
  have hle := h.2
  rw [toNat_maxAge hage] at hle
  have := Nat.two_pow_pos (d.age + 1)
  omega

/-- An age that is counted passes the mask, and the shift. -/
theorem toNat_encodedAge (hage : 0 < d.age) (h : age.toNat < 2 ^ (d.age + 1)) :
    ((age &&& mask d.age) <<< (d.index + d.scope)).toNat = age.toNat <<< (d.scope + d.index) := by
  have htotal := d.total
  have hmask : (age &&& mask d.age).toNat = age.toNat := by
    rw [toNat_and_mask d.age_le, if_neg (Nat.ne_of_gt hage), Nat.mod_eq_of_lt h]
  rw [BitVec.toNat_shiftLeft, hmask, Nat.add_comm, Nat.mod_eq_of_lt]
  calc age.toNat <<< (d.scope + d.index) = age.toNat * 2 ^ (d.scope + d.index) :=
        Nat.shiftLeft_eq _ _
    _ < 2 ^ (d.age + 1) * 2 ^ (d.scope + d.index) :=
        Nat.mul_lt_mul_of_pos_right h (Nat.two_pow_pos _)
    _ = 2 ^ (d.age + 1 + (d.scope + d.index)) := (Nat.pow_add _ _ _).symm
    _ ≤ 2 ^ 64 := Nat.pow_le_pow_right (by decide) (by omega)

/-- An age over the type: what does not fit the field is joined to the type. -/
theorem type_shiftLeft_or (age : Nat) :
    d.type <<< d.age ||| age = d.storedType age * 2 ^ d.age + age % 2 ^ d.age := by
  have hlow := Nat.mod_lt age (Nat.two_pow_pos d.age)
  have hsplit : age = (age / 2 ^ d.age) <<< d.age ||| age % 2 ^ d.age := by
    rw [shiftLeft_or_of_lt hlow, Nat.mul_comm, Nat.div_add_mod]
  calc d.type <<< d.age ||| age
      = d.type <<< d.age ||| ((age / 2 ^ d.age) <<< d.age ||| age % 2 ^ d.age) := by rw [← hsplit]
    _ = d.storedType age <<< d.age ||| age % 2 ^ d.age := by
        rw [← Nat.or_assoc, ← Nat.shiftLeft_or_distrib, storedType]
    _ = _ := shiftLeft_or_of_lt hlow _

/-- **What is encoded with an age** that is counted. -/
theorem toNat_encode_age (hage : 0 < d.age) (ha : age.toNat < 2 ^ (d.age + 1))
    (hs : scope.toNat < 2 ^ d.scope) (hi : index.toNat < 2 ^ d.index) :
    (d.encode age scope index).toNat =
      ((d.storedType age.toNat * 2 ^ d.age + age.toNat % 2 ^ d.age) * 2 ^ d.scope + scope.toNat) *
        2 ^ d.index + index.toNat := by
  have htot := d.total
  have hA := toNat_encodedAge hage ha
  have hS := toNat_field d.scope_le d.index (by omega) hs
  have hI := toNat_field d.index_le 0 (by omega) hi
  simp only [HandleDefinition.encode, HandleDefinition.ageMask, HandleDefinition.scopeMask,
    HandleDefinition.indexMask, HandleDefinition.ageShift, HandleDefinition.scopeShift,
    HandleDefinition.indexShift, BitVec.toNat_or, toNat_encodedType, hA, hS, hI]
  rw [Nat.add_assoc, Nat.shiftLeft_add, ← Nat.shiftLeft_or_distrib, type_shiftLeft_or,
    Nat.shiftLeft_add, ← Nat.shiftLeft_or_distrib, shiftLeft_or_of_lt hs, Nat.shiftLeft_zero,
    shiftLeft_or_of_lt hi]

/-- Of an age that is counted at most one bit does not fit the field. -/
theorem age_div_le (h : age.toNat < 2 ^ (d.age + 1)) : age.toNat / 2 ^ d.age ≤ 1 := by
  rw [Nat.pow_succ] at h
  exact Nat.lt_succ_iff.mp (Nat.div_lt_of_lt_mul h)

/-- The type is stored as it is iff it is odd or the age fits the field. -/
theorem storedType_eq_iff (h : age.toNat < 2 ^ (d.age + 1)) :
    d.storedType age.toNat = d.type ↔ d.type % 2 = 1 ∨ age.toNat < 2 ^ d.age := by
  have hle := age_div_le h
  unfold storedType
  by_cases hfits : age.toNat < 2 ^ d.age
  · rw [Nat.div_eq_of_lt hfits, Nat.or_zero]
    exact iff_of_true rfl (.inr hfits)
  · have hone : age.toNat / 2 ^ d.age = 1 :=
      Nat.le_antisymm hle ((Nat.one_le_div_iff (Nat.two_pow_pos _)).mpr (Nat.not_lt.mp hfits))
    rw [hone, or_iff_left hfits]
    constructor
    · intro heq
      rw [← heq]
      exact Nat.or_mod_two_eq_one.mpr (.inr rfl)
    · intro hodd
      have hhalf : (d.type ||| 1) / 2 = d.type / 2 := by rw [Nat.or_div_two, Nat.or_zero]
      have hlow : (d.type ||| 1) % 2 = 1 := Nat.or_mod_two_eq_one.mpr (.inr rfl)
      omega

theorem storedType_le (h : age.toNat < 2 ^ (d.age + 1)) : d.storedType age.toNat ≤ 255 := by
  have htype := d.type_le
  have hle := age_div_le h
  exact Nat.le_of_lt_succ (Nat.or_lt_two_pow (n := 8) (by omega) (by omega))

/-- **A handle is of the type iff the type is odd or the age fits the field.** -/
theorem isType_encode_iff (hage : 0 < d.age) (ha : age.toNat < 2 ^ (d.age + 1))
    (hs : scope.toNat < 2 ^ d.scope) (hi : index.toNat < 2 ^ d.index) :
    d.isType (d.encode age scope index) = true ↔ d.type % 2 = 1 ∨ age.toNat < 2 ^ d.age := by
  have ht := d.type_le
  have hlow := Nat.mod_lt age.toNat (Nat.two_pow_pos d.age)
  have hstored := storedType_le ha
  have hhigh : (d.encode age scope index).toNat >>> 56 = d.storedType age.toNat := by
    rw [toNat_encode_age hage ha hs hi,
      show 56 = d.index + (d.scope + d.age) by have := d.total; omega, Nat.shiftRight_add,
      mul_add_shiftRight hi, Nat.shiftRight_add, mul_add_shiftRight hs, mul_add_shiftRight hlow]
  rw [← storedType_eq_iff ha, ← hhigh]
  simp only [HandleDefinition.isType, beq_iff_eq]
  rw [← BitVec.toNat_inj, toNat_and_handleTypeMask, BitVec.toNat_ushiftRight, BitVec.toNat_ofNat,
    Nat.mod_eq_of_lt (by omega)]
  · rfl
  · rw [BitVec.toNat_ushiftRight]
    exact hhigh.trans_le hstored

/-- **Two handles are equal iff they store the same type and the same age.** -/
theorem encode_eq_iff (hage : 0 < d.age) (ha : a.toNat < 2 ^ (d.age + 1))
    (hb : b.toNat < 2 ^ (d.age + 1)) (hs : scope.toNat < 2 ^ d.scope)
    (hi : index.toNat < 2 ^ d.index) :
    d.encode a scope index = d.encode b scope index ↔
      d.storedType a.toNat = d.storedType b.toNat ∧
        a.toNat % 2 ^ d.age = b.toNat % 2 ^ d.age := by
  have hlow := fun v : U64 => Nat.mod_lt v.toNat (Nat.two_pow_pos d.age)
  rw [← BitVec.toNat_inj, toNat_encode_age hage ha hs hi, toNat_encode_age hage hb hs hi]
  constructor
  · intro heq
    -- the fields below are the same, so the ones above are
    have hscope := Nat.eq_of_mul_eq_mul_right (Nat.two_pow_pos _) (Nat.add_right_cancel heq)
    have hages := Nat.eq_of_mul_eq_mul_right (Nat.two_pow_pos _) (Nat.add_right_cancel hscope)
    have htypes := congrArg (· >>> d.age) hages
    simp only [mul_add_shiftRight (hlow _)] at htypes
    rw [htypes] at hages
    exact ⟨htypes, Nat.add_left_cancel hages⟩
  · rintro ⟨htypes, hrests⟩
    rw [htypes, hrests]

/-! ## Telling ages apart -/

/-- **Two different ages are told apart iff they fit.** -/
theorem detects_iff_agesFit (hage : 0 < d.age) (ha : d.CountsAge a) (hb : d.CountsAge b)
    (hne : a ≠ b) (hs : scope.toNat < 2 ^ d.scope) (hi : index.toNat < 2 ^ d.index) :
    d.Detects a b scope index ↔ d.AgesFit a b := by
  have ha' := ha.lt hage
  have hb' := hb.lt hage
  have hleft := isType_encode_iff hage ha' hs hi
  have hright := isType_encode_iff hage hb' hs hi
  have hequal := encode_eq_iff hage ha' hb' hs hi
  rcases Nat.mod_two_eq_zero_or_one d.type with heven | hodd
  · -- the handles are of the type just if the ages fit, and these are the ages then
    have hnot : ¬ d.type % 2 = 1 := by omega
    rw [or_iff_right hnot] at hleft hright
    refine ⟨fun h => ⟨fun _ => ⟨hleft.mp h.isTypeLeft, hright.mp h.isTypeRight⟩,
      fun hone => absurd hone hnot⟩, fun h => ?_⟩
    obtain ⟨hfits, hfits'⟩ := h.1 heven
    refine ⟨fun heq => hne ?_, hleft.mpr hfits, hright.mpr hfits'⟩
    have hages := (hequal.mp heq).2
    rw [Nat.mod_eq_of_lt hfits, Nat.mod_eq_of_lt hfits'] at hages
    exact BitVec.eq_of_toNat_eq hages
  · -- the type stays as it is, and only the field tells the ages apart
    have htypes : d.storedType a.toNat = d.storedType b.toNat :=
      ((storedType_eq_iff ha').mpr (.inl hodd)).trans ((storedType_eq_iff hb').mpr (.inl hodd)).symm
    refine ⟨fun h => ⟨fun hzero => by omega, fun _ hages => ?_⟩, fun h => ?_⟩
    · exact h.different (hequal.mpr ⟨htypes, hages⟩)
    · exact ⟨fun heq => h.2 hodd (hequal.mp heq).2, hleft.mpr (.inl hodd), hright.mpr (.inl hodd)⟩

/-- **The ages count from `1` to `maxAge` and start over, and two of them are told apart iff they
fit.** -/
theorem detects_iff (d : Layout) (hage : 0 < d.age) (scope index : U64)
    (hs : scope.toNat < 2 ^ d.scope) (hi : index.toNat < 2 ^ d.index) :
    (∀ n, (d.incrementAge^[n] 1).toNat = n % d.maxAge.toNat + 1) ∧
      ∀ a b, d.CountsAge a → d.CountsAge b → a ≠ b →
        (d.Detects a b scope index ↔ d.AgesFit a b) :=
  ⟨toNat_iterate_incrementAge hage,
    fun _ _ ha hb hne => detects_iff_agesFit hage ha hb hne hs hi⟩

/-- Two ages of the repository's own test layout that fit its field. -/
theorem detects_iff_testLayout : testLayout.Detects 1 2 132 132 :=
  ((detects_iff testLayout (by decide) 132 132 (by decide) (by decide)).2 1 2
    ⟨by decide, by decide⟩ ⟨by decide, by decide⟩ (by decide)).mpr (by decide)

/-- **An age does not fit**: age `2 ^ 20` of the test layout makes its type another. -/
theorem not_detects : ¬ ∀ (d : Layout), 0 < d.age → 0 < d.scope → 0 < d.index →
    ∀ scope index : U64, scope.toNat < 2 ^ d.scope → index.toNat < 2 ^ d.index →
      (∀ n, 1 ≤ (d.incrementAge^[n] 1).toNat ∧ (d.incrementAge^[n] 1).toNat ≤ d.maxAge.toNat) ∧
        ∀ a b, d.CountsAge a → d.CountsAge b → a ≠ b → d.Detects a b scope index := by
  intro hall
  have h := (hall testLayout (by decide) (by decide) (by decide) 0 0 (by decide) (by decide)).2 1
    (2 ^ 20) ⟨by decide, by decide⟩ ⟨by decide, by decide⟩ (by decide)
  exact absurd h.isTypeRight (by decide)

end Layout

end Hologine.Handle
