import Hologine.Math.Matrix
import Mathlib.LinearAlgebra.Matrix.ToLin

/-!
# Vectors and their transforms

Model of `vector3` and `vector4` (`core/math/vector3.cpp:107-110, 137-155`,
`core/math/vector4.cpp:142-151`) over the exact matrices of `Hologine.Math.Matrix`. A vector is a
column: `Vector4.toColumn` is the abstract view, and `transform` is Mathlib's `mulVec` there.

Results:
* `Vector4.toColumn_transform`: `transform` is the product with the column.
* `Vector4.transform_mul`: a product transforms as its right factor and then its left.
* `Vector3.transform_eq`, `Vector3.transformNormal_eq`: a `Vector3` is transformed as a `Vector4`
  with a `w` of one, a normal as one with a `w` of zero.
* `Matrix.KeepsW`: what matrices keep `w`, so that `Vector3.transform_mul` and
  `Vector3.transformNormal_mul` hold.
-/

namespace Hologine.Math

/-- A three-dimensional vector. -/
structure Vector3 (K : Type*) where
  (x y z : K)
  deriving Repr, DecidableEq

/-- A four-dimensional vector. -/
structure Vector4 (K : Type*) where
  (x y z w : K)
  deriving Repr, DecidableEq

variable {K : Type*} [Field K]

namespace Vector4

/-- `vector4::transform`. -/
def transform (vector : Vector4 K) (matrix : Matrix K) : Vector4 K where
  x := vector.x * matrix.m11 + vector.y * matrix.m12 + vector.z * matrix.m13 +
    vector.w * matrix.m14
  y := vector.x * matrix.m21 + vector.y * matrix.m22 + vector.z * matrix.m23 +
    vector.w * matrix.m24
  z := vector.x * matrix.m31 + vector.y * matrix.m32 + vector.z * matrix.m33 +
    vector.w * matrix.m34
  w := vector.x * matrix.m41 + vector.y * matrix.m42 + vector.z * matrix.m43 +
    vector.w * matrix.m44

/-- The vector of the first three components. -/
def xyz (vector : Vector4 K) : Vector3 K := ⟨vector.x, vector.y, vector.z⟩

/-- The column of the components. -/
def toColumn (vector : Vector4 K) : Fin 4 → K := ![vector.x, vector.y, vector.z, vector.w]

end Vector4

namespace Vector3

/-- `calculate_length_squared`. -/
def calculateLengthSquared (vector : Vector3 K) : K :=
  vector.x * vector.x + vector.y * vector.y + vector.z * vector.z

/-- `vector3::transform`. -/
def transform (vector : Vector3 K) (matrix : Matrix K) : Vector3 K where
  x := vector.x * matrix.m11 + vector.y * matrix.m12 + vector.z * matrix.m13 + matrix.m14
  y := vector.x * matrix.m21 + vector.y * matrix.m22 + vector.z * matrix.m23 + matrix.m24
  z := vector.x * matrix.m31 + vector.y * matrix.m32 + vector.z * matrix.m33 + matrix.m34

/-- `vector3::transform_normal`. -/
def transformNormal (vector : Vector3 K) (matrix : Matrix K) : Vector3 K where
  x := vector.x * matrix.m11 + vector.y * matrix.m12 + vector.z * matrix.m13
  y := vector.x * matrix.m21 + vector.y * matrix.m22 + vector.z * matrix.m23
  z := vector.x * matrix.m31 + vector.y * matrix.m32 + vector.z * matrix.m33

/-- The vector with a fourth component. -/
def withW (vector : Vector3 K) (w : K) : Vector4 K := ⟨vector.x, vector.y, vector.z, w⟩

end Vector3

/-- The last row of a matrix is that of the identity. -/
def Matrix.KeepsW (m : Matrix K) : Prop := m.m41 = 0 ∧ m.m42 = 0 ∧ m.m43 = 0 ∧ m.m44 = 1

instance [DecidableEq K] (m : Matrix K) : Decidable m.KeepsW :=
  inferInstanceAs (Decidable (_ ∧ _))

namespace Vector4

omit [Field K] in
theorem toColumn_injective : Function.Injective (toColumn (K := K)) := by
  intro u v h
  have hentry (i : Fin 4) : u.toColumn i = v.toColumn i := congrFun h i
  cases u
  cases v
  simp only [mk.injEq]
  exact ⟨hentry 0, hentry 1, hentry 2, hentry 3⟩

/-- **`transform` is the product with the column.** -/
theorem toColumn_transform (v : Vector4 K) (m : Matrix K) :
    (transform v m).toColumn = m.toSquare.mulVec v.toColumn := by
  funext i
  rw [Matrix.mulVec, dotProduct, Fin.sum_univ_four]
  fin_cases i <;> simp [transform, toColumn, Matrix.toSquare, mul_comm]

/-- **A product transforms as its right factor and then its left.** -/
theorem transform_mul (v : Vector4 K) (a b : Matrix K) :
    transform v (a * b) = transform (transform v b) a := by
  apply toColumn_injective
  rw [toColumn_transform, toColumn_transform, toColumn_transform, Matrix.toSquare_mul,
    Matrix.mulVec_mulVec]

/-- A matrix that keeps `w` does. -/
theorem transform_w {m : Matrix K} (h : m.KeepsW) (v : Vector4 K) : (transform v m).w = v.w := by
  obtain ⟨h1, h2, h3, h4⟩ := h
  simp [transform, h1, h2, h3, h4]

end Vector4

namespace Vector3

/-- **`transform` is that of the vector with a `w` of one.** -/
theorem transform_eq (v : Vector3 K) (m : Matrix K) :
    transform v m = ((v.withW 1).transform m).xyz := by
  simp [transform, withW, Vector4.transform, Vector4.xyz]

/-- **`transform_normal` is that of the vector with a `w` of zero.** -/
theorem transformNormal_eq (v : Vector3 K) (m : Matrix K) :
    transformNormal v m = ((v.withW 0).transform m).xyz := by
  simp [transformNormal, withW, Vector4.transform, Vector4.xyz]

omit [Field K] in
theorem withW_xyz (v : Vector4 K) : v.xyz.withW v.w = v := rfl

theorem withW_transform {m : Matrix K} (h : m.KeepsW) (v : Vector3 K) :
    (transform v m).withW 1 = (v.withW 1).transform m := by
  rw [transform_eq, ← withW_xyz ((v.withW 1).transform m), Vector4.transform_w h]
  rfl

theorem withW_transformNormal {m : Matrix K} (h : m.KeepsW) (v : Vector3 K) :
    (transformNormal v m).withW 0 = (v.withW 0).transform m := by
  rw [transformNormal_eq, ← withW_xyz ((v.withW 0).transform m), Vector4.transform_w h]
  rfl

/-- **A product transforms a vector as its factors do**, if the right one keeps `w`. -/
theorem transform_mul (v : Vector3 K) (a : Matrix K) {b : Matrix K} (hb : b.KeepsW) :
    transform v (a * b) = transform (transform v b) a := by
  rw [transform_eq, Vector4.transform_mul, ← withW_transform hb, ← transform_eq]

/-- **A product transforms a normal as its factors do**, if the right one keeps `w`. -/
theorem transformNormal_mul (v : Vector3 K) (a : Matrix K) {b : Matrix K} (hb : b.KeepsW) :
    transformNormal v (a * b) = transformNormal (transformNormal v b) a := by
  rw [transformNormal_eq, Vector4.transform_mul, ← withW_transformNormal hb, ← transformNormal_eq]

end Vector3

/-- The matrices that keep `w` are closed under products. -/
theorem Matrix.KeepsW.mul {a b : Matrix K} (ha : a.KeepsW) (hb : b.KeepsW) : (a * b).KeepsW := by
  obtain ⟨ha1, ha2, ha3, ha4⟩ := ha
  obtain ⟨hb1, hb2, hb3, hb4⟩ := hb
  change (mulAssign a b).KeepsW
  simp [KeepsW, mulAssign, ha1, ha2, ha3, ha4, hb1, hb2, hb3, hb4]

end Hologine.Math
