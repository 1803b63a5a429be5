import Hologine.Library.PowerOfTwo
import Hologine.Math.Util
import Mathlib.Order.Bounds.Basic

/-!
# Powers of two

Model of `math::next_power_of_two` and `math::new_power_of_two` (`core/math/util.cpp:12-37`) and of
`math::is_power_of_two` (`core/math/util.hpp:51-77`) at `std::uint64_t`.

* `toNat_nextPowerOfTwo`, `toNat_newPowerOfTwo`: both give the power of two that the predecessor of
  the value is below, or `0` when the type has none.
* `next_power_is_least`: that is the least power of two that is at least the value.
* `isPowerOfTwo_eq_false`: the test is never met, because its mask is complemented. The mask that
  its comment describes is that of `modulo_power_of_two`, for which `moduloPowerOfTwo_self_eq_zero`
  holds.
* `powerOfTwoAgrees_never`: so the test refuses every power of two that the rounding gives.
-/

namespace Hologine.Math

open Hologine.Library.Bits Hologine.Library.PowerOfTwo

/-- `next_power_of_two`. -/
def nextPowerOfTwo (value : UInt32) : UInt32 :=
  let value := value - 1
  let value := value ||| value >>> 1
  let value := value ||| value >>> 2
  let value := value ||| value >>> 4
  let value := value ||| value >>> 8
  let value := value ||| value >>> 16
  value + 1

/-- `new_power_of_two`, with one shift more. -/
def newPowerOfTwo (value : UInt64) : UInt64 :=
  let value := value - 1
  let value := value ||| value >>> 1
  let value := value ||| value >>> 2
  let value := value ||| value >>> 4
  let value := value ||| value >>> 8
  let value := value ||| value >>> 16
  let value := value ||| value >>> 32
  value + 1

/-- `is_power_of_two`. -/
def isPowerOfTwo (value : UInt64) : Bool := value != 0 && (value &&& ~~~(value - 1)) == 0

/-! ## The next power of two -/

/-- What the shifts do to the predecessor. -/
theorem toNat_nextPowerOfTwo_eq_smear (value : UInt32) :
    (nextPowerOfTwo value).toNat = (smear (value - 1).toNat 5 + 1) % 2 ^ 32 := by
  simp [nextPowerOfTwo, smear]

theorem toNat_newPowerOfTwo_eq_smear (value : UInt64) :
    (newPowerOfTwo value).toNat = (smear (value - 1).toNat 6 + 1) % 2 ^ 64 := by
  simp [newPowerOfTwo, smear]

/-- The whole result: the power of two that the predecessor is below, which may be the wrap. -/
theorem toNat_nextPowerOfTwo (value : UInt32) :
    (nextPowerOfTwo value).toNat = 2 ^ (value - 1).toNat.size % 2 ^ 32 := by
  rw [toNat_nextPowerOfTwo_eq_smear, smear_add_one (value - 1).toNat_lt]

theorem toNat_newPowerOfTwo (value : UInt64) :
    (newPowerOfTwo value).toNat = 2 ^ (value - 1).toNat.size % 2 ^ 64 := by
  rw [toNat_newPowerOfTwo_eq_smear, smear_add_one (value - 1).toNat_lt]

theorem isLeast_nextPowerOfTwo {value : UInt32} (hlow : 1 ≤ value.toNat)
    (hhigh : value.toNat ≤ 2 ^ 31) :
    IsLeast {m | m.isPowerOfTwo ∧ value.toNat ≤ m} (nextPowerOfTwo value).toNat := by
  have hone : 1 ≤ value := UInt32.le_iff_toNat_le.mpr hlow
  have hle := two_pow_size_le hhigh
  rw [toNat_nextPowerOfTwo, UInt32.toNat_sub_of_le _ _ hone, UInt32.toNat_one,
    Nat.mod_eq_of_lt (by omega)]
  exact isLeast_two_pow_size value.toNat

theorem isLeast_newPowerOfTwo {value : UInt64} (hlow : 1 ≤ value.toNat)
    (hhigh : value.toNat ≤ 2 ^ 63) :
    IsLeast {m | m.isPowerOfTwo ∧ value.toNat ≤ m} (newPowerOfTwo value).toNat := by
  have hle := two_pow_size_le hhigh
  rw [toNat_newPowerOfTwo, toNat_sub_one hlow, Nat.mod_eq_of_lt (by omega)]
  exact isLeast_two_pow_size value.toNat

/-- **Both give the least power of two** that is at least the value, up to the largest one that
the type has. -/
theorem next_power_is_least :
    (∀ value : UInt32, 1 ≤ value.toNat → value.toNat ≤ 2 ^ 31 →
      IsLeast {m | m.isPowerOfTwo ∧ value.toNat ≤ m} (nextPowerOfTwo value).toNat) ∧
    (∀ value : UInt64, 1 ≤ value.toNat → value.toNat ≤ 2 ^ 63 →
      IsLeast {m | m.isPowerOfTwo ∧ value.toNat ≤ m} (newPowerOfTwo value).toNat) :=
  ⟨fun _ => isLeast_nextPowerOfTwo, fun _ => isLeast_newPowerOfTwo⟩

/-- At both ends of the 32-bit range, and just below the last power of two of the 64-bit one. -/
theorem next_power_is_least_ends :
    IsLeast {m | m.isPowerOfTwo ∧ (1 : UInt32).toNat ≤ m} (nextPowerOfTwo 1).toNat ∧
    IsLeast {m | m.isPowerOfTwo ∧ (0x80000000 : UInt32).toNat ≤ m}
      (nextPowerOfTwo 0x80000000).toNat ∧
    IsLeast {m | m.isPowerOfTwo ∧ (0x7fffffffffffffff : UInt64).toNat ≤ m}
      (newPowerOfTwo 0x7fffffffffffffff).toNat :=
  ⟨next_power_is_least.1 1 (by decide) (by decide),
    next_power_is_least.1 0x80000000 (by decide) (by decide),
    next_power_is_least.2 0x7fffffffffffffff (by decide) (by decide)⟩

/-! ## The test -/

/-- The complemented mask keeps the lowest bit that is set, so nothing passes. -/
theorem isPowerOfTwo_eq_false (value : UInt64) : isPowerOfTwo value = false := by
  unfold isPowerOfTwo
  by_contra hpass
  obtain ⟨hne, hmask⟩ : value ≠ 0 ∧ value &&& ~~~(value - 1) = 0 := by simpa using hpass
  have hpos := toNat_pos hne
  have hle := UInt64.le_iff_toNat_le.mp (le_of_and_not_eq_zero hmask)
  rw [toNat_sub_one hpos] at hle
  omega

/-- The mask that the comment describes finds the powers of two. -/
theorem moduloPowerOfTwo_self_eq_zero (value : UInt64) :
    (value ≠ 0 ∧ moduloPowerOfTwo value value = 0) ↔ value.toNat.isPowerOfTwo := by
  rw [← Nat.ne_zero_and_sub_one_eq_zero_iff_isPowerOfTwo, Ne, ← UInt64.toNat_inj,
    ← UInt64.toNat_inj, UInt64.toNat_zero]
  refine and_congr_right fun hne => ?_
  rw [moduloPowerOfTwo, UInt64.toNat_and, toNat_sub_one (Nat.pos_of_ne_zero hne)]

/-- The values that rounding leaves. -/
theorem newPowerOfTwo_eq_self_iff {value : UInt64} (hlow : 1 ≤ value.toNat)
    (hhigh : value.toNat ≤ 2 ^ 63) :
    newPowerOfTwo value = value ↔ value.toNat.isPowerOfTwo := by
  have hleast := isLeast_newPowerOfTwo hlow hhigh
  constructor
  · intro heq
    rw [heq] at hleast
    exact hleast.1.1
  · intro hpow
    have hself : IsLeast {m | m.isPowerOfTwo ∧ value.toNat ≤ m} value.toNat :=
      ⟨⟨hpow, Nat.le_refl _⟩, fun _ hm => hm.2⟩
    exact UInt64.toNat_inj.mp (hleast.unique hself)

/-- What the test and the rounding are for: the test finds what the rounding leaves, which are the
powers of two, and so accepts what the rounding gives. -/
structure PowerOfTwoAgrees (value : UInt64) : Prop where
  test : isPowerOfTwo value = true ↔ newPowerOfTwo value = value
  fixed : newPowerOfTwo value = value ↔ value.toNat.isPowerOfTwo
  rounded : isPowerOfTwo (newPowerOfTwo value) = true

/-- **The test never agrees with the rounding.** Rounding leaves the powers of two alone, but what
it gives does not pass, and a value is tested correctly just when it is no power of two. -/
theorem powerOfTwoAgrees_never (value : UInt64) (hlow : 1 ≤ value.toNat)
    (hhigh : value.toNat ≤ 2 ^ 63) :
    ¬ PowerOfTwoAgrees value ∧
    isPowerOfTwo (newPowerOfTwo value) = false ∧
    (newPowerOfTwo value = value ↔ value.toNat.isPowerOfTwo) ∧
    ((isPowerOfTwo value = true ↔ newPowerOfTwo value = value) ↔
      ¬ value.toNat.isPowerOfTwo) := by
  have hfixed := newPowerOfTwo_eq_self_iff hlow hhigh
  have hrounded := isPowerOfTwo_eq_false (newPowerOfTwo value)
  refine ⟨?_, hrounded, hfixed, ?_⟩
  · intro hagrees
    rw [hagrees.rounded] at hrounded
    cases hrounded
  · rw [isPowerOfTwo_eq_false, hfixed]
    simp

theorem powerOfTwoAgrees_never_page :
    ¬ PowerOfTwoAgrees 0x1000 ∧
    isPowerOfTwo (newPowerOfTwo 0x1000) = false ∧
    (newPowerOfTwo 0x1000 = 0x1000 ↔ (0x1000 : UInt64).toNat.isPowerOfTwo) ∧
    ((isPowerOfTwo 0x1000 = true ↔ newPowerOfTwo 0x1000 = 0x1000) ↔
      ¬ (0x1000 : UInt64).toNat.isPowerOfTwo) :=
  powerOfTwoAgrees_never 0x1000 (by decide) (by decide)

/-- The comment's own example of a power of two does not pass. -/
theorem not_powerOfTwoAgrees :
    ¬ ∀ value : UInt64, 1 ≤ value.toNat → value.toNat ≤ 2 ^ 63 → PowerOfTwoAgrees value := by
  intro hall
  have hagrees := hall 0x1000 (by decide) (by decide)
  have hpass : isPowerOfTwo 0x1000 = true := hagrees.test.mpr (by decide)
  exact absurd hpass (by decide)

end Hologine.Math
