import Hologine.Library.Bits
import Hologine.Library.ByteOrder

/-!
# Operations on bits

Model of what the rest uses of `core/math/bits.hpp`, apart from `math::mask`: the logarithm of a
64-bit integer (`:95-128`) and the three `swap_bytes` (`:130-153`).

* `toNat_bitLog2`: the logarithm is that of `Nat.log2`, which takes zero to zero.
* `toBytes_swapBytes16`, `toBytes_swapBytes32`, `toBytes_swapBytes64`: each reverses the bytes.
-/

namespace Hologine.Math

open Hologine.Library.Bits Hologine.Library.ByteOrder

/-- `bit_scan_reverse` of a `std::uint64_t` that is not zero. -/
def bitScanReverse (value : UInt64) : UInt64 := UInt64.ofNat (Nat.log2 value.toNat)

/-- `bit_log2` of a `std::uint64_t`. -/
def bitLog2 (value : UInt64) : UInt64 := bitScanReverse (value ||| 1)

/-- `swap_bytes` of a `std::uint16_t`, which the shifts promote to `int`. -/
def swapBytes16 (value : UInt16) : UInt16 :=
  (value.toUInt32 >>> 8 ||| value.toUInt32 <<< 8).toUInt16

/-- `swap_bytes` of a `std::uint32_t`. -/
def swapBytes32 (value : UInt32) : UInt32 :=
  value <<< 24
    ||| ((value >>> 24) &&& (0xff : UInt32))
    ||| ((value &&& (0x0000ff00 : UInt32)) <<< 8)
    ||| ((value &&& (0x00ff0000 : UInt32)) >>> 8)

/-- `swap_bytes` of a `std::uint64_t`. -/
def swapBytes64 (value : UInt64) : UInt64 :=
  value <<< 56
    ||| ((value <<< 40) &&& (0x00ff000000000000 : UInt64))
    ||| ((value <<< 24) &&& (0x0000ff0000000000 : UInt64))
    ||| ((value <<< 8) &&& (0x000000ff00000000 : UInt64))
    ||| ((value >>> 8) &&& (0x00000000ff000000 : UInt64))
    ||| ((value >>> 24) &&& (0x0000000000ff0000 : UInt64))
    ||| ((value >>> 40) &&& (0x000000000000ff00 : UInt64))
    ||| value >>> 56

/-- Setting the lowest bit does not change the logarithm. -/
theorem toNat_bitLog2 (v : UInt64) : (bitLog2 v).toNat = Nat.log2 v.toNat := by
  have hor : Nat.log2 (v.toNat ||| 1) = Nat.log2 v.toNat := by
    have hhalf : (v.toNat ||| 1) / 2 = v.toNat / 2 := by rw [Nat.or_div_two, Nat.or_zero]
    rw [Nat.log2_def, Nat.log2_def v.toNat, hhalf]
    split_ifs <;> first | rfl | omega
  have hlt : Nat.log2 v.toNat < 64 := by
    rcases Nat.eq_zero_or_pos v.toNat with h0 | hpos
    · rw [h0]
      decide
    · exact (Nat.log2_lt (by omega)).mpr v.toNat_lt
  rw [bitLog2, bitScanReverse, UInt64.toNat_or, UInt64.toNat_one, hor, UInt64.toNat_ofNat',
    Nat.mod_eq_of_lt (by omega)]

theorem testBit_swapBytes16 (v : UInt16) (i : Nat) (hi : i < 16) :
    (swapBytes16 v).toNat.testBit i = v.toNat.testBit (8 * (1 - i / 8) + i % 8) := by
  have hhigh : ∀ j, 16 ≤ j → v.toNat.testBit j = false := fun _ =>
    testBit_of_lt v.toNat_lt
  simp only [swapBytes16, UInt32.toNat_toUInt16, UInt32.toNat_or, UInt32.toNat_shiftLeft,
    UInt32.toNat_shiftRight, UInt16.toNat_toUInt32, Nat.testBit_or, Nat.testBit_shiftRight,
    Nat.testBit_mod_two_pow, Nat.testBit_shiftLeft]
  interval_cases i <;> simp [hhigh]

theorem testBit_swapBytes32 (v : UInt32) (i : Nat) (hi : i < 32) :
    (swapBytes32 v).toNat.testBit i = v.toNat.testBit (8 * (3 - i / 8) + i % 8) := by
  have hhigh : ∀ j, 32 ≤ j → v.toNat.testBit j = false := fun _ =>
    testBit_of_lt v.toNat_lt
  have mask0 : ∀ i, (0x000000ff : UInt32).toNat.testBit i = _ := testBit_byteMask 0
  have mask1 : ∀ i, (0x0000ff00 : UInt32).toNat.testBit i = _ := testBit_byteMask 8
  have mask2 : ∀ i, (0x00ff0000 : UInt32).toNat.testBit i = _ := testBit_byteMask 16
  simp only [swapBytes32, UInt32.toNat_or, UInt32.toNat_and, UInt32.toNat_shiftLeft,
    UInt32.toNat_shiftRight, Nat.testBit_or, Nat.testBit_and, Nat.testBit_shiftRight,
    Nat.testBit_shiftLeft, Nat.testBit_mod_two_pow, mask0, mask1, mask2]
  interval_cases i <;> simp [hhigh]

theorem testBit_swapBytes64 (v : UInt64) (i : Nat) (hi : i < 64) :
    (swapBytes64 v).toNat.testBit i = v.toNat.testBit (8 * (7 - i / 8) + i % 8) := by
  have hhigh : ∀ j, 64 ≤ j → v.toNat.testBit j = false := fun _ =>
    testBit_of_lt v.toNat_lt
  have mask6 : ∀ i, (0x00ff000000000000 : UInt64).toNat.testBit i = _ := testBit_byteMask 48
  have mask5 : ∀ i, (0x0000ff0000000000 : UInt64).toNat.testBit i = _ := testBit_byteMask 40
  have mask4 : ∀ i, (0x000000ff00000000 : UInt64).toNat.testBit i = _ := testBit_byteMask 32
  have mask3 : ∀ i, (0x00000000ff000000 : UInt64).toNat.testBit i = _ := testBit_byteMask 24
  have mask2 : ∀ i, (0x0000000000ff0000 : UInt64).toNat.testBit i = _ := testBit_byteMask 16
  have mask1 : ∀ i, (0x000000000000ff00 : UInt64).toNat.testBit i = _ := testBit_byteMask 8
  simp only [swapBytes64, UInt64.toNat_or, UInt64.toNat_and, UInt64.toNat_shiftLeft,
    UInt64.toNat_shiftRight, Nat.testBit_or, Nat.testBit_and, Nat.testBit_shiftRight,
    Nat.testBit_shiftLeft, Nat.testBit_mod_two_pow, mask6, mask5, mask4, mask3, mask2, mask1]
  interval_cases i <;> simp [hhigh]

/-! ## Bytes -/

theorem toBytes_swapBytes16 (v : UInt16) :
    toBytes 2 (swapBytes16 v).toNat = (toBytes 2 v.toNat).reverse :=
  toBytes_reverse fun i hi => testBit_swapBytes16 v i hi

theorem toBytes_swapBytes32 (v : UInt32) :
    toBytes 4 (swapBytes32 v).toNat = (toBytes 4 v.toNat).reverse :=
  toBytes_reverse fun i hi => testBit_swapBytes32 v i hi

theorem toBytes_swapBytes64 (v : UInt64) :
    toBytes 8 (swapBytes64 v).toNat = (toBytes 8 v.toNat).reverse :=
  toBytes_reverse fun i hi => testBit_swapBytes64 v i hi

end Hologine.Math
