import Hologine.Library.Align
import Hologine.Library.Bits

/-!
# Rounding helpers

Model of `math::round_up`, `math::multiple_of` and `math::modulo_power_of_two`
(`core/math/util.hpp:26-49`) at `std::size_t`.

* `toNat_roundUp`, `toNat_multipleOf`: where nothing wraps, a value that is not zero is rounded up
  to a multiple of the factor. `toNat_roundUp_of_isPowerOfTwo` has zero as well.
* `toNat_moduloPowerOfTwo`: a mask is a remainder.
-/

namespace Hologine.Math

open Hologine.Library.Align Hologine.Library.Bits

/-- `round_up`. -/
def roundUp (value factor : UInt64) : UInt64 := value + (factor - 1) - ((value - 1) % factor)

/-- `multiple_of`. -/
def multipleOf (value factor : UInt64) : UInt64 := roundUp value factor / factor

/-- `modulo_power_of_two`. -/
def moduloPowerOfTwo (x y : UInt64) : UInt64 := x &&& (y - 1)

variable {value factor : UInt64}

theorem toNat_roundUp (hvalue : 0 < value.toNat) (hfactor : 0 < factor.toNat)
    (hroom : value.toNat + factor.toNat ≤ 2 ^ 64) :
    (roundUp value factor).toNat = alignUp value.toNat factor.toNat := by
  have hlow := toNat_sub_one hvalue
  have hfactor' := toNat_sub_one hfactor
  have hsum : (value + (factor - 1)).toNat = value.toNat + (factor.toNat - 1) := by
    rw [UInt64.toNat_add, hfactor', Nat.mod_eq_of_lt (by omega)]
  have hmod := Nat.mod_lt (value.toNat - 1) hfactor
  have hle : (value - 1) % factor ≤ value + (factor - 1) := by
    rw [UInt64.le_iff_toNat_le, UInt64.toNat_mod, hlow, hsum]
    omega
  rw [roundUp, UInt64.toNat_sub_of_le _ _ hle, UInt64.toNat_mod, hlow, hsum]
  -- what is left over the quotient is the next multiple
  refine (alignUp_eq_of_dvd hfactor ⟨(value.toNat - 1) / factor.toNat + 1, ?_⟩ ?_ ?_).symm
  · have hdiv := Nat.div_add_mod (value.toNat - 1) factor.toNat
    rw [Nat.mul_add, Nat.mul_one]
    omega
  · omega
  · omega

theorem toNat_multipleOf (hvalue : 0 < value.toNat) (hfactor : 0 < factor.toNat)
    (hroom : value.toNat + factor.toNat ≤ 2 ^ 64) :
    (multipleOf value factor).toNat = (value.toNat + (factor.toNat - 1)) / factor.toNat := by
  rw [multipleOf, UInt64.toNat_div, toNat_roundUp hvalue hfactor hroom, alignUp,
    Nat.mul_div_cancel _ hfactor]

theorem toNat_moduloPowerOfTwo {n : Nat} (h : factor.toNat = 2 ^ n) (value : UInt64) :
    (moduloPowerOfTwo value factor).toNat = value.toNat % factor.toNat := by
  have hpos : 0 < factor.toNat := h ▸ Nat.two_pow_pos n
  rw [moduloPowerOfTwo, UInt64.toNat_and, toNat_sub_one hpos, h, Nat.and_two_pow_sub_one_eq_mod]

/-- The word before zero is all ones, so that a power of two rounds zero up to itself. -/
theorem roundUp_zero {n : Nat} (h : factor.toNat = 2 ^ n) : roundUp 0 factor = 0 := by
  have hlast : (0 - 1) % factor = factor - 1 := by
    rw [← UInt64.toNat_inj, UInt64.toNat_mod, ← toNat_moduloPowerOfTwo h, moduloPowerOfTwo,
      UInt64.zero_sub, UInt64.neg_one_and]
  rw [roundUp, hlast, UInt64.zero_add, UInt64.sub_self]

/-- For a power of two the value may be zero. -/
theorem toNat_roundUp_of_isPowerOfTwo (h : factor.toNat.isPowerOfTwo)
    (hroom : value.toNat + factor.toNat ≤ 2 ^ 64) :
    (roundUp value factor).toNat = alignUp value.toNat factor.toNat := by
  have hfactor := Nat.pos_of_isPowerOfTwo h
  rcases Nat.eq_zero_or_pos value.toNat with hzero | hvalue
  · obtain ⟨n, hn⟩ := h
    have hvalue : value = 0 := UInt64.toNat_inj.mp hzero
    rw [hvalue, roundUp_zero hn]
    exact (alignUp_eq_self hfactor (Nat.dvd_zero _)).symm
  · exact toNat_roundUp hvalue hfactor hroom

end Hologine.Math
