import Mathlib.LinearAlgebra.Matrix.NonsingularInverse
import Mathlib.Tactic.LinearCombination
import Mathlib.Tactic.NormNum

/-!
# Matrices

Model of `matrix` (`core/math/matrix.cpp:15-75, 114-162, 230-233`), its components exact numbers
of any field in the place of `float`. `Matrix.toSquare` is the abstract view, Mathlib's matrix of
the same entries; the hand-written product, determinant, inverse and transpose are compared with
those of Mathlib.

Results:
* `Matrix.toSquare_mul`, `Matrix.det_toSquare`: product and determinant are the usual ones.
* `Matrix.mul_invert`: the sixteen cofactors are right.
* `Matrix.toSquare_invert`: `invert` is the inverse.
* `Matrix.invert_inverse`: both products with the inverse are the identity, and inverting twice
  gives the matrix back.
* `Matrix.product_laws`: what determinant, transpose and inverse are of a product.
-/

namespace Hologine

/-- Mathlib's square matrices, apart from the matrices of the source. -/
abbrev SquareMatrix (n : ℕ) (K : Type*) := Matrix (Fin n) (Fin n) K

end Hologine

namespace Hologine.Math

/-- A four-dimensional matrix in row-major order. -/
structure Matrix (K : Type*) where
  (m11 m12 m13 m14 : K)
  (m21 m22 m23 m24 : K)
  (m31 m32 m33 m34 : K)
  (m41 m42 m43 m44 : K)
  deriving Repr, DecidableEq

namespace Matrix

variable {K : Type*} [Field K]

/-- The default constructor. -/
def identity : Matrix K where
  m11 := 1; m12 := 0; m13 := 0; m14 := 0
  m21 := 0; m22 := 1; m23 := 0; m24 := 0
  m31 := 0; m32 := 0; m33 := 1; m34 := 0
  m41 := 0; m42 := 0; m43 := 0; m44 := 1

/-- `operator *=`. -/
def mulAssign (m other : Matrix K) : Matrix K where
  m11 := m.m11 * other.m11 + m.m12 * other.m21 + m.m13 * other.m31 + m.m14 * other.m41
  m12 := m.m11 * other.m12 + m.m12 * other.m22 + m.m13 * other.m32 + m.m14 * other.m42
  m13 := m.m11 * other.m13 + m.m12 * other.m23 + m.m13 * other.m33 + m.m14 * other.m43
  m14 := m.m11 * other.m14 + m.m12 * other.m24 + m.m13 * other.m34 + m.m14 * other.m44
  m21 := m.m21 * other.m11 + m.m22 * other.m21 + m.m23 * other.m31 + m.m24 * other.m41
  m22 := m.m21 * other.m12 + m.m22 * other.m22 + m.m23 * other.m32 + m.m24 * other.m42
  m23 := m.m21 * other.m13 + m.m22 * other.m23 + m.m23 * other.m33 + m.m24 * other.m43
  m24 := m.m21 * other.m14 + m.m22 * other.m24 + m.m23 * other.m34 + m.m24 * other.m44
  m31 := m.m31 * other.m11 + m.m32 * other.m21 + m.m33 * other.m31 + m.m34 * other.m41
  m32 := m.m31 * other.m12 + m.m32 * other.m22 + m.m33 * other.m32 + m.m34 * other.m42
  m33 := m.m31 * other.m13 + m.m32 * other.m23 + m.m33 * other.m33 + m.m34 * other.m43
  m34 := m.m31 * other.m14 + m.m32 * other.m24 + m.m33 * other.m34 + m.m34 * other.m44
  m41 := m.m41 * other.m11 + m.m42 * other.m21 + m.m43 * other.m31 + m.m44 * other.m41
  m42 := m.m41 * other.m12 + m.m42 * other.m22 + m.m43 * other.m32 + m.m44 * other.m42
  m43 := m.m41 * other.m13 + m.m42 * other.m23 + m.m43 * other.m33 + m.m44 * other.m43
  m44 := m.m41 * other.m14 + m.m42 * other.m24 + m.m43 * other.m34 + m.m44 * other.m44

/-- `operator *`, by `operator *=` on a copy. -/
instance : Mul (Matrix K) := ⟨mulAssign⟩

/-- `calculate_determinant`. -/
def calculateDeterminant (m : Matrix K) : K :=
  let d1 := (m.m33 * m.m44) - (m.m34 * m.m43)
  let d2 := (m.m32 * m.m44) - (m.m34 * m.m42)
  let d3 := (m.m32 * m.m43) - (m.m33 * m.m42)
  let d4 := (m.m31 * m.m44) - (m.m34 * m.m41)
  let d5 := (m.m31 * m.m43) - (m.m33 * m.m41)
  let d6 := (m.m31 * m.m42) - (m.m32 * m.m41)
  ((((m.m11 * (((m.m22 * d1) - (m.m23 * d2)) + (m.m24 * d3))) - (m.m12 * (((m.m21 * d1) -
    (m.m23 * d4)) + (m.m24 * d5)))) + (m.m13 * (((m.m21 * d2) - (m.m22 * d4)) +
    (m.m24 * d6)))) - (m.m14 * (((m.m21 * d3) - (m.m22 * d5)) + (m.m23 * d6))))

/-- `invert`. -/
def invert (m : Matrix K) : Matrix K :=
  let d := 1 / m.calculateDeterminant
  { m11 :=
      (m.m22 * m.m33 * m.m44 + m.m23 * m.m34 * m.m42 + m.m24 * m.m32 * m.m43 -
        m.m22 * m.m34 * m.m43 - m.m23 * m.m32 * m.m44 - m.m24 * m.m33 * m.m42) * d
    m12 :=
      (m.m12 * m.m34 * m.m43 + m.m13 * m.m32 * m.m44 + m.m14 * m.m33 * m.m42 -
        m.m12 * m.m33 * m.m44 - m.m13 * m.m34 * m.m42 - m.m14 * m.m32 * m.m43) * d
    m13 :=
      (m.m12 * m.m23 * m.m44 + m.m13 * m.m24 * m.m42 + m.m14 * m.m22 * m.m43 -
        m.m12 * m.m24 * m.m43 - m.m13 * m.m22 * m.m44 - m.m14 * m.m23 * m.m42) * d
    m14 :=
      (m.m12 * m.m24 * m.m33 + m.m13 * m.m22 * m.m34 + m.m14 * m.m23 * m.m32 -
        m.m12 * m.m23 * m.m34 - m.m13 * m.m24 * m.m32 - m.m14 * m.m22 * m.m33) * d
    m21 :=
      (m.m21 * m.m34 * m.m43 + m.m23 * m.m31 * m.m44 + m.m24 * m.m33 * m.m41 -
        m.m21 * m.m33 * m.m44 - m.m23 * m.m34 * m.m41 - m.m24 * m.m31 * m.m43) * d
    m22 :=
      (m.m11 * m.m33 * m.m44 + m.m13 * m.m34 * m.m41 + m.m14 * m.m31 * m.m43 -
        m.m11 * m.m34 * m.m43 - m.m13 * m.m31 * m.m44 - m.m14 * m.m33 * m.m41) * d
    m23 :=
      (m.m11 * m.m24 * m.m43 + m.m13 * m.m21 * m.m44 + m.m14 * m.m23 * m.m41 -
        m.m11 * m.m23 * m.m44 - m.m13 * m.m24 * m.m41 - m.m14 * m.m21 * m.m43) * d
    m24 :=
      (m.m11 * m.m23 * m.m34 + m.m13 * m.m24 * m.m31 + m.m14 * m.m21 * m.m33 -
        m.m11 * m.m24 * m.m33 - m.m13 * m.m21 * m.m34 - m.m14 * m.m23 * m.m31) * d
    m31 :=
      (m.m21 * m.m32 * m.m44 + m.m22 * m.m34 * m.m41 + m.m24 * m.m31 * m.m42 -
        m.m21 * m.m34 * m.m42 - m.m22 * m.m31 * m.m44 - m.m24 * m.m32 * m.m41) * d
    m32 :=
      (m.m11 * m.m34 * m.m42 + m.m12 * m.m31 * m.m44 + m.m14 * m.m32 * m.m41 -
        m.m11 * m.m32 * m.m44 - m.m12 * m.m34 * m.m41 - m.m14 * m.m31 * m.m42) * d
    m33 :=
      (m.m11 * m.m22 * m.m44 + m.m12 * m.m24 * m.m41 + m.m14 * m.m21 * m.m42 -
        m.m11 * m.m24 * m.m42 - m.m12 * m.m21 * m.m44 - m.m14 * m.m22 * m.m41) * d
    m34 :=
      (m.m11 * m.m24 * m.m32 + m.m12 * m.m21 * m.m34 + m.m14 * m.m22 * m.m31 -
        m.m11 * m.m22 * m.m34 - m.m12 * m.m24 * m.m31 - m.m14 * m.m21 * m.m32) * d
    m41 :=
      (m.m21 * m.m33 * m.m42 + m.m22 * m.m31 * m.m43 + m.m23 * m.m32 * m.m41 -
        m.m21 * m.m32 * m.m43 - m.m22 * m.m33 * m.m41 - m.m23 * m.m31 * m.m42) * d
    m42 :=
      (m.m11 * m.m32 * m.m43 + m.m12 * m.m33 * m.m41 + m.m13 * m.m31 * m.m42 -
        m.m11 * m.m33 * m.m42 - m.m12 * m.m31 * m.m43 - m.m13 * m.m32 * m.m41) * d
    m43 :=
      (m.m11 * m.m23 * m.m42 + m.m12 * m.m21 * m.m43 + m.m13 * m.m22 * m.m41 -
        m.m11 * m.m22 * m.m43 - m.m12 * m.m23 * m.m41 - m.m13 * m.m21 * m.m42) * d
    m44 :=
      (m.m11 * m.m22 * m.m33 + m.m12 * m.m23 * m.m31 + m.m13 * m.m21 * m.m32 -
        m.m11 * m.m23 * m.m32 - m.m12 * m.m21 * m.m33 - m.m13 * m.m22 * m.m31) * d }

/-- `transpose`. -/
def transpose (m : Matrix K) : Matrix K where
  m11 := m.m11; m12 := m.m21; m13 := m.m31; m14 := m.m41
  m21 := m.m12; m22 := m.m22; m23 := m.m32; m24 := m.m42
  m31 := m.m13; m32 := m.m23; m33 := m.m33; m34 := m.m43
  m41 := m.m14; m42 := m.m24; m43 := m.m34; m44 := m.m44

/-- The matrix of the same entries. -/
def toSquare (m : Matrix K) : SquareMatrix 4 K :=
  !![m.m11, m.m12, m.m13, m.m14;
     m.m21, m.m22, m.m23, m.m24;
     m.m31, m.m32, m.m33, m.m34;
     m.m41, m.m42, m.m43, m.m44]

omit [Field K] in
theorem toSquare_injective : Function.Injective (toSquare (K := K)) := by
  intro a b h
  have hentry (i j : Fin 4) : a.toSquare i j = b.toSquare i j := congrFun (congrFun h i) j
  cases a
  cases b
  simp only [mk.injEq]
  exact ⟨hentry 0 0, hentry 0 1, hentry 0 2, hentry 0 3, hentry 1 0, hentry 1 1, hentry 1 2,
    hentry 1 3, hentry 2 0, hentry 2 1, hentry 2 2, hentry 2 3, hentry 3 0, hentry 3 1, hentry 3 2,
    hentry 3 3⟩

theorem toSquare_identity : (identity : Matrix K).toSquare = 1 := by
  ext i j
  fin_cases i <;> fin_cases j <;> rfl

theorem toSquare_mul (a b : Matrix K) : (a * b).toSquare = a.toSquare * b.toSquare := by
  ext i j
  rw [Matrix.mul_apply, Fin.sum_univ_four]
  fin_cases i <;> fin_cases j <;> rfl

/-- The factorised determinant is the determinant. -/
theorem det_toSquare (m : Matrix K) : m.toSquare.det = m.calculateDeterminant := by
  rw [Matrix.det_succ_row_zero, Fin.sum_univ_four]
  simp only [Matrix.det_fin_three, Matrix.submatrix_apply]
  have hentries :
      (1 : Fin 4).succAbove 1 = 2 ∧ (1 : Fin 4).succAbove 2 = 3 ∧ (2 : Fin 4).succAbove 1 = 1 ∧
        (2 : Fin 4).succAbove 2 = 3 ∧ (3 : Fin 4).succAbove 1 = 1 ∧
        (3 : Fin 4).succAbove 2 = 2 := by
    decide
  simp [hentries, toSquare, calculateDeterminant]
  ring

/-- **The cofactors are right**: the matrix times its inverse is the identity. -/
theorem mul_invert (m : Matrix K) (hdet : m.calculateDeterminant ≠ 0) :
    m * invert m = identity := by
  have hd : m.calculateDeterminant * (1 / m.calculateDeterminant) = 1 := mul_one_div_cancel hdet
  unfold invert
  dsimp only
  generalize 1 / m.calculateDeterminant = d at hd ⊢
  change mulAssign m _ = identity
  unfold mulAssign identity
  simp only [calculateDeterminant] at hd
  simp only [mk.injEq]
  -- a diagonal entry is the determinant times `d`, every other one cancels
  refine ⟨?_, ?_, ?_, ?_, ?_, ?_, ?_, ?_, ?_, ?_, ?_, ?_, ?_, ?_, ?_, ?_⟩ <;>
    first | linear_combination hd | ring

/-- `invert` is the inverse of the matrix. -/
theorem toSquare_invert (m : Matrix K) (hdet : m.calculateDeterminant ≠ 0) :
    (invert m).toSquare = m.toSquare⁻¹ := by
  have hright : m.toSquare * (invert m).toSquare = 1 := by
    rw [← toSquare_mul, mul_invert m hdet, toSquare_identity]
  exact (Matrix.inv_eq_right_inv hright).symm

theorem isUnit_det_toSquare {m : Matrix K} (hdet : m.calculateDeterminant ≠ 0) :
    IsUnit m.toSquare.det := by
  rw [det_toSquare]
  exact hdet.isUnit

theorem invert_mul (m : Matrix K) (hdet : m.calculateDeterminant ≠ 0) :
    invert m * m = identity := by
  apply toSquare_injective
  rw [toSquare_mul, toSquare_invert m hdet, toSquare_identity]
  exact Matrix.nonsing_inv_mul m.toSquare (isUnit_det_toSquare hdet)

/-- An inverse can be inverted. -/
theorem calculateDeterminant_invert_ne_zero {m : Matrix K} (hdet : m.calculateDeterminant ≠ 0) :
    (invert m).calculateDeterminant ≠ 0 := by
  rw [← det_toSquare, toSquare_invert m hdet]
  exact (Matrix.isUnit_nonsing_inv_det m.toSquare (isUnit_det_toSquare hdet)).ne_zero

/-- **`invert` inverts**: a matrix whose determinant is not zero gives the identity with its inverse
on either side, and inverting twice gives it back. -/
theorem invert_inverse (m : Matrix K) (hdet : m.calculateDeterminant ≠ 0) :
    m * invert m = identity ∧ invert m * m = identity ∧ invert (invert m) = m := by
  have hunit : IsUnit m.toSquare.det := isUnit_det_toSquare hdet
  refine ⟨mul_invert m hdet, invert_mul m hdet, ?_⟩
  apply toSquare_injective
  rw [toSquare_invert _ (calculateDeterminant_invert_ne_zero hdet), toSquare_invert m hdet]
  exact Matrix.nonsing_inv_nonsing_inv m.toSquare hunit

/-- A dense matrix with determinant `613`. -/
def dense : Matrix ℚ where
  m11 := 2; m12 := 1; m13 := 3; m14 := 4
  m21 := 5; m22 := 7; m23 := 1; m24 := 2
  m31 := 3; m32 := 8; m33 := 6; m34 := 1
  m41 := 1; m42 := 2; m43 := 5; m44 := 9

theorem invert_inverse_dense :
    dense.calculateDeterminant ≠ 0 ∧ dense * invert dense = identity ∧
      invert dense * dense = identity ∧ invert (invert dense) = dense :=
  have hdet : dense.calculateDeterminant ≠ 0 := by norm_num [calculateDeterminant, dense]
  ⟨hdet, invert_inverse dense hdet⟩

/-! ## Products -/

omit [Field K] in
theorem toSquare_transpose (m : Matrix K) : (transpose m).toSquare = m.toSquare.transpose := by
  ext i j
  fin_cases i <;> fin_cases j <;> simp [toSquare, transpose]

theorem calculateDeterminant_product (a b : Matrix K) :
    (a * b).calculateDeterminant = a.calculateDeterminant * b.calculateDeterminant := by
  simp only [← det_toSquare, toSquare_mul, Matrix.det_mul]

theorem calculateDeterminant_transpose (m : Matrix K) :
    (transpose m).calculateDeterminant = m.calculateDeterminant := by
  simp only [← det_toSquare, toSquare_transpose, Matrix.det_transpose]

theorem transpose_product (a b : Matrix K) : transpose (a * b) = transpose b * transpose a := by
  apply toSquare_injective
  simp only [toSquare_transpose, toSquare_mul, Matrix.transpose_mul]

theorem invert_product {a b : Matrix K} (ha : a.calculateDeterminant ≠ 0)
    (hb : b.calculateDeterminant ≠ 0) : invert (a * b) = invert b * invert a := by
  have hab : (a * b).calculateDeterminant ≠ 0 := by
    rw [calculateDeterminant_product]
    exact mul_ne_zero ha hb
  apply toSquare_injective
  rw [toSquare_invert _ hab, toSquare_mul, toSquare_mul, toSquare_invert _ ha, toSquare_invert _ hb,
    Matrix.mul_inv_rev]

/-- **Determinant, transpose and inverse of a product**: the determinant is the product of the
determinants, and the transpose and the inverse are those of the factors in reverse. -/
theorem product_laws (a b : Matrix K) :
    (a * b).calculateDeterminant = a.calculateDeterminant * b.calculateDeterminant ∧
      transpose (a * b) = transpose b * transpose a ∧
      (transpose a).calculateDeterminant = a.calculateDeterminant ∧
      (a.calculateDeterminant ≠ 0 → b.calculateDeterminant ≠ 0 →
        invert (a * b) = invert b * invert a) :=
  ⟨calculateDeterminant_product a b, transpose_product a b, calculateDeterminant_transpose a,
    invert_product⟩

/-- The product of a dense matrix and its transpose. -/
theorem product_laws_dense :
    (dense * transpose dense).calculateDeterminant = 613 * 613 ∧
      invert (dense * transpose dense) = invert (transpose dense) * invert dense := by
  have hdet : dense.calculateDeterminant = 613 := by norm_num [calculateDeterminant, dense]
  have hsame : (transpose dense).calculateDeterminant = 613 :=
    (calculateDeterminant_transpose dense).trans hdet
  obtain ⟨hmul, -, -, hinvert⟩ := product_laws dense (transpose dense)
  rw [hdet, hsame] at hmul
  exact ⟨hmul, hinvert (by rw [hdet]; norm_num) (by rw [hsame]; norm_num)⟩

end Matrix

end Hologine.Math
