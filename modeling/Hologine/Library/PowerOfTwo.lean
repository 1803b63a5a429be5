import Mathlib.Algebra.Group.Nat.Defs
import Mathlib.Data.Nat.Size
import Mathlib.Order.Bounds.Defs

/-!
# Smearing the highest bit

`smear x n` joins `x` with itself shifted right by `1, 2, 4, …, 2 ^ (n - 1)` in turn.

* `testBit_smear`: a bit of it is set when one of the `2 ^ n` bits of `x` from there on is.
* `smear_eq`, `smear_add_one`: on at most `2 ^ n` bits, every bit below the highest one is set.
* `isLeast_two_pow_size`: one more than that, of the predecessor of a number, is the least power of
  two that is at least the number.
-/

namespace Hologine.Library.PowerOfTwo

/-- `x` joined with its shifts by `2 ^ i` for every `i < n`, one after another. -/
def smear (x : Nat) : Nat → Nat
  | 0 => x
  | n + 1 => smear x n ||| smear x n >>> 2 ^ n

/-- After `n` shifts a bit has seen the `2 ^ n` bits from it upwards. -/
theorem testBit_smear (x n j : Nat) :
    (smear x n).testBit j = true ↔ ∃ d < 2 ^ n, x.testBit (j + d) = true := by
  induction n generalizing j with
  | zero => simp [smear]
  | succ n ih =>
    rw [smear, Nat.testBit_or, Nat.testBit_shiftRight, Bool.or_eq_true, ih, ih, Nat.pow_succ]
    constructor
    · rintro (⟨d, hd, hbit⟩ | ⟨d, hd, hbit⟩)
      · exact ⟨d, by omega, hbit⟩
      · exact ⟨2 ^ n + d, by omega, by rwa [← Nat.add_assoc, Nat.add_comm j]⟩
    · rintro ⟨d, hd, hbit⟩
      -- the distance lies in the lower half, or in the half that the last shift brings
      by_cases hlow : d < 2 ^ n
      · exact .inl ⟨d, hlow, hbit⟩
      · refine .inr ⟨d - 2 ^ n, by omega, ?_⟩
        have hsum : 2 ^ n + j + (d - 2 ^ n) = j + d := by omega
        rwa [hsum]

/-- **Smearing fills a number up** below its highest bit. -/
theorem smear_eq {x n : Nat} (h : x < 2 ^ 2 ^ n) : smear x n = 2 ^ x.size - 1 := by
  apply Nat.eq_of_testBit_eq
  intro j
  rw [Bool.eq_iff_iff, testBit_smear, Nat.testBit_two_pow_sub_one, decide_eq_true_eq, Nat.lt_size]
  constructor
  · rintro ⟨d, -, hbit⟩
    calc 2 ^ j ≤ 2 ^ (j + d) := Nat.pow_le_pow_right (by decide) (Nat.le_add_right j d)
      _ ≤ x := Nat.ge_two_pow_of_testBit hbit
  · intro hle
    obtain ⟨i, hi, hbit⟩ := Nat.exists_ge_and_testBit_of_ge_two_pow hle
    have hpow : 2 ^ i < 2 ^ 2 ^ n := Nat.lt_of_le_of_lt (Nat.ge_two_pow_of_testBit hbit) h
    have hlt : i < 2 ^ n := (Nat.pow_lt_pow_iff_right (by decide)).mp hpow
    exact ⟨i - j, by omega, by rwa [Nat.add_sub_cancel' hi]⟩

theorem smear_add_one {x n : Nat} (h : x < 2 ^ 2 ^ n) : smear x n + 1 = 2 ^ x.size := by
  rw [smear_eq h, Nat.sub_add_cancel (Nat.two_pow_pos _)]

/-- **The next power of two** has the size of the predecessor as its exponent. -/
theorem isLeast_two_pow_size (v : Nat) :
    IsLeast {m | m.isPowerOfTwo ∧ v ≤ m} (2 ^ (v - 1).size) := by
  constructor
  · have hlt := Nat.lt_size_self (v - 1)
    exact ⟨⟨_, rfl⟩, by omega⟩
  · rintro m ⟨⟨k, rfl⟩, hle⟩
    have hpos := Nat.two_pow_pos k
    have hlt : v - 1 < 2 ^ k := by omega
    exact Nat.pow_le_pow_right (by decide) (Nat.size_le.mpr hlt)

/-- A number no larger than `2 ^ n` has its next power of two there as well. -/
theorem two_pow_size_le {v n : Nat} (h : v ≤ 2 ^ n) : 2 ^ (v - 1).size ≤ 2 ^ n :=
  (isLeast_two_pow_size v).2 ⟨⟨n, rfl⟩, h⟩

end Hologine.Library.PowerOfTwo
