import Mathlib.Data.Nat.Bitwise
import Mathlib.Tactic.Ring

/-!
# Packed bit fields

A number `above * 2 ^ n + low` with `low < 2 ^ n` is a field `low` of `n` bits with `above` stored
over it. The lemmas say what joining, shifting and masking do to such numbers.
-/

namespace Hologine.Library.Bits

variable {n low : Nat}

/-- A value shifted above an `n`-bit field and joined with the field. -/
theorem shiftLeft_or_of_lt (h : low < 2 ^ n) (above : Nat) :
    (above <<< n) ||| low = above * 2 ^ n + low := by
  rw [← Nat.shiftLeft_add_eq_or_of_lt h, Nat.shiftLeft_eq]

/-- Shifting an `n`-bit field out leaves what lies above it. -/
theorem mul_add_shiftRight (h : low < 2 ^ n) (above : Nat) :
    (above * 2 ^ n + low) >>> n = above := by
  rw [Nat.shiftRight_eq_div_pow, Nat.mul_comm, Nat.mul_add_div (Nat.two_pow_pos _),
    Nat.div_eq_of_lt h, Nat.add_zero]

/-- An `n`-bit field read through `n + 1` bits: the lowest bit above it comes along. -/
theorem mul_add_mod_succ (h : low < 2 ^ n) (above : Nat) :
    (above * 2 ^ n + low) % 2 ^ (n + 1) = above % 2 * 2 ^ n + low := by
  have hsplit : above * 2 ^ n + low = (above % 2 * 2 ^ n + low) + 2 ^ (n + 1) * (above / 2) := by
    conv_lhs => rw [← Nat.mod_add_div above 2]
    rw [Nat.pow_succ]
    ring
  have hlt : above % 2 * 2 ^ n + low < 2 ^ (n + 1) := by
    have : above % 2 ≤ 1 := by omega
    have := Nat.mul_le_mul_right (2 ^ n) this
    rw [Nat.pow_succ]
    omega
  rw [hsplit, Nat.add_mul_mod_self_left, Nat.mod_eq_of_lt hlt]

/-- The lowest bit: the field's, or that of what lies above when the field is empty. -/
theorem mul_add_mod_two (h : low < 2 ^ n) (above : Nat) :
    (above * 2 ^ n + low) % 2 = if n = 0 then above % 2 else low % 2 := by
  split_ifs with hn
  · subst hn
    rw [Nat.pow_zero] at h
    omega
  · obtain ⟨m, rfl⟩ : ∃ m, n = m + 1 := ⟨n - 1, by omega⟩
    rw [Nat.pow_succ, ← Nat.mul_assoc]
    omega

/-- A number of `n` bits has none from there on. -/
theorem testBit_of_lt {x i : Nat} (h : x < 2 ^ n) (hi : n ≤ i) : x.testBit i = false :=
  Nat.testBit_lt_two_pow (h.trans_le (Nat.pow_le_pow_right (by decide) hi))

/-- A mask that starts above a field keeps none of it. -/
theorem and_shiftLeft_of_lt (h : low < 2 ^ n) (m : Nat) : low &&& (m <<< n) = 0 := by
  apply Nat.eq_of_testBit_eq
  intro i
  rw [Nat.testBit_and, Nat.testBit_shiftLeft, Nat.zero_testBit]
  by_cases hi : n ≤ i
  · rw [testBit_of_lt h hi, Bool.false_and]
  · simp [hi]

/-- Clearing the lowest bits rounds down. -/
theorem toNat_and_not_mask {mask : UInt64} (hmask : mask.toNat = 2 ^ n - 1) (x : UInt64) :
    (x &&& ~~~mask).toNat = x.toNat / 2 ^ n * 2 ^ n := by
  have hnot : (~~~mask).toNat = 2 ^ 64 - (mask.toNat + 1) := by
    rw [UInt64.toNat_not, Nat.sub_sub, Nat.add_comm]
    rfl
  refine Nat.eq_of_testBit_eq fun i => ?_
  rw [UInt64.toNat_and, Nat.testBit_and, hnot, Nat.testBit_two_pow_sub_succ mask.toNat_lt, hmask,
    Nat.testBit_two_pow_sub_one, Nat.testBit_mul_two_pow, Nat.testBit_div_two_pow]
  by_cases hi : n ≤ i
  · by_cases h64 : i < 64
    · simp [hi, h64, Nat.not_lt.mpr hi]
    · have hx := testBit_of_lt x.toNat_lt (Nat.not_lt.mp h64)
      simp [hx, hi]
  · simp [hi, Nat.lt_of_not_le hi]

/-- A word that has no bit which another lacks is no larger. -/
theorem le_of_and_not_eq_zero {x y : UInt64} (h : x &&& ~~~y = 0) : x ≤ y := by
  have hbits : x.toBitVec &&& ~~~y.toBitVec = 0 := congrArg UInt64.toBitVec h
  have hkept : x.toBitVec = x.toBitVec &&& y.toBitVec := by
    calc x.toBitVec = x.toBitVec &&& (y.toBitVec ||| ~~~y.toBitVec) := by
          rw [BitVec.or_not_self, BitVec.and_allOnes]
      _ = x.toBitVec &&& y.toBitVec := by
          rw [BitVec.and_or_distrib_left, hbits]
          exact BitVec.or_zero
  rw [UInt64.le_iff_toNat_le]
  calc x.toNat = x.toNat &&& y.toNat := congrArg BitVec.toNat hkept
    _ ≤ y.toNat := Nat.and_le_right

theorem toNat_pos {x : UInt64} (h : x ≠ 0) : 0 < x.toNat :=
  Nat.pos_of_ne_zero fun hzero => h (UInt64.toNat_inj.mp hzero)

/-- The word before one that is not zero. -/
theorem toNat_sub_one {x : UInt64} (h : 0 < x.toNat) : (x - 1).toNat = x.toNat - 1 :=
  UInt64.toNat_sub_of_le _ _ (UInt64.le_iff_toNat_le.mpr h)

/-- The larger of two words. -/
theorem toNat_max (x y : UInt64) : (max x y).toNat = max x.toNat y.toNat := by
  rw [UInt64.max_def]
  split_ifs with hle <;> rw [UInt64.le_iff_toNat_le] at hle <;> omega

end Hologine.Library.Bits
