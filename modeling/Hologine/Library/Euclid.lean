import Mathlib.Algebra.Order.BigOperators.Ring.Finset
import Mathlib.LinearAlgebra.Matrix.DotProduct
import Mathlib.Tactic.Linarith
import Mathlib.Tactic.Ring

/-!
# Lengths of columns

Columns over an ordered field have a length, by any function that is a root.

* `abs_dotProduct_le`: a product is at most the product of the lengths.
* `length_add_le`: a sum is at most as long as its parts are together.
-/

namespace Hologine.Library.Euclid

variable {ι K : Type*} [Fintype ι] [Field K]

/-- The length of a column. -/
def length (sqrt : K → K) (v : ι → K) : K := sqrt (dotProduct v v)

theorem length_neg (sqrt : K → K) (v : ι → K) : length sqrt (-v) = length sqrt v := by
  rw [length, length, neg_dotProduct_neg]

variable [LinearOrder K]

/-- The root of what is not negative. -/
def Root (sqrt : K → K) : Prop := ∀ a, 0 ≤ a → 0 ≤ sqrt a ∧ sqrt a * sqrt a = a

variable [IsStrictOrderedRing K] {sqrt : K → K} {v : ι → K}

theorem dotProduct_self_nonneg (v : ι → K) : 0 ≤ dotProduct v v :=
  Finset.sum_nonneg fun i _ => mul_self_nonneg (v i)

theorem length_nonneg (hsqrt : Root sqrt) (v : ι → K) : 0 ≤ length sqrt v :=
  (hsqrt _ (dotProduct_self_nonneg v)).1

theorem length_mul_self (hsqrt : Root sqrt) (v : ι → K) :
    length sqrt v * length sqrt v = dotProduct v v :=
  (hsqrt _ (dotProduct_self_nonneg v)).2

/-- A length is known by its square. -/
theorem length_eq (hsqrt : Root sqrt) {a : K} (ha : 0 ≤ a) (h : dotProduct v v = a * a) :
    length sqrt v = a :=
  (mul_self_inj (length_nonneg hsqrt v) ha).mp ((length_mul_self hsqrt v).trans h)

theorem length_eq_zero_iff (hsqrt : Root sqrt) : length sqrt v = 0 ↔ v = 0 := by
  rw [← mul_self_eq_zero, length_mul_self hsqrt, dotProduct_self_eq_zero]

theorem length_smul (hsqrt : Root sqrt) (a : K) (v : ι → K) :
    length sqrt (a • v) = |a| * length sqrt v := by
  refine length_eq hsqrt (mul_nonneg (abs_nonneg a) (length_nonneg hsqrt v)) ?_
  rw [smul_dotProduct, dotProduct_smul, ← length_mul_self hsqrt, smul_eq_mul, smul_eq_mul,
    mul_mul_mul_comm, abs_mul_abs_self, mul_assoc]

/-- **A product is at most the product of the lengths.** -/
theorem abs_dotProduct_le (hsqrt : Root sqrt) (v w : ι → K) :
    |dotProduct v w| ≤ length sqrt v * length sqrt w := by
  have hcauchy := Finset.sum_mul_sq_le_sq_mul_sq Finset.univ v w
  have hsquare (u : ι → K) : ∑ i, u i ^ 2 = length sqrt u ^ 2 := by
    rw [sq (length sqrt u), length_mul_self hsqrt]
    exact Finset.sum_congr rfl fun i _ => sq (u i)
  rw [hsquare, hsquare, ← mul_pow] at hcauchy
  exact abs_le_of_sq_le_sq hcauchy (mul_nonneg (length_nonneg hsqrt v) (length_nonneg hsqrt w))

/-- **A sum is at most as long as its parts together.** -/
theorem length_add_le (hsqrt : Root sqrt) (v w : ι → K) :
    length sqrt (v + w) ≤ length sqrt v + length sqrt w := by
  have hv := length_nonneg hsqrt v
  have hw := length_nonneg hsqrt w
  refine le_of_sq_le_sq ?_ (add_nonneg hv hw)
  have hproduct := (le_abs_self _).trans (abs_dotProduct_le hsqrt v w)
  calc length sqrt (v + w) ^ 2
      = dotProduct v v + 2 * dotProduct v w + dotProduct w w := by
        rw [sq, length_mul_self hsqrt, add_dotProduct, dotProduct_add, dotProduct_add,
          dotProduct_comm w v]
        ring
    _ ≤ length sqrt v * length sqrt v + 2 * (length sqrt v * length sqrt w) +
        length sqrt w * length sqrt w := by
        rw [length_mul_self hsqrt, length_mul_self hsqrt]
        linarith
    _ = (length sqrt v + length sqrt w) ^ 2 := by ring

end Hologine.Library.Euclid
