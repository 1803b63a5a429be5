import Hologine.Math.Vector
import Mathlib.Analysis.SpecialFunctions.Trigonometric.Basic

/-!
# Rotations, translations and scales

Model of `matrix::rotate`, `matrix::translate` and `matrix::scale` (`core/math/matrix.cpp:77-112`).
`std::cos` and `std::sin` are any two functions (`Trigonometry`); what is used of them is the
square identity, parity and the addition formulas (`Trigonometry.Lawful`).

* `rotation axis c s` is the matrix that `rotate` builds from a cosine and a sine. Its product, its
  determinant and the length of what it transforms are polynomial identities, which
  `rotation_mul`, `calculateDeterminant_rotation` and `calculateLengthSquared_rotation` state
  before anything is asked of the axis.

Results:
* `transforms_compose`: products transform as their factors do, for all that is built of the three.
* `rotations`: the rotations about a unit axis are a group, and move neither the axis nor the
  length of a vector.
-/

namespace Hologine.Math

variable {K : Type*}

/-- `std::cos` and `std::sin`. -/
structure Trigonometry (K : Type*) where
  cos : K → K
  sin : K → K

/-- What is assumed of the cosine and the sine. -/
structure Trigonometry.Lawful [Field K] (trig : Trigonometry K) : Prop where
  square : ∀ a, trig.cos a * trig.cos a + trig.sin a * trig.sin a = 1
  cos_neg : ∀ a, trig.cos (-a) = trig.cos a
  sin_neg : ∀ a, trig.sin (-a) = -trig.sin a
  cos_add : ∀ a b, trig.cos (a + b) = trig.cos a * trig.cos b - trig.sin a * trig.sin b
  sin_add : ∀ a b, trig.sin (a + b) = trig.sin a * trig.cos b + trig.cos a * trig.sin b

namespace Matrix

variable [Field K] {trig : Trigonometry K} {axis : Vector3 K} {m : Matrix K}

/-- The matrix of `rotate`, of the cosine and the sine it takes. -/
def rotation (axis : Vector3 K) (c s : K) : Matrix K :=
  let t := 1 - c
  { m11 := t * axis.x * axis.x + c
    m12 := t * axis.x * axis.y - s * axis.z
    m13 := t * axis.x * axis.z + s * axis.y
    m14 := 0
    m21 := t * axis.x * axis.y + s * axis.z
    m22 := t * axis.y * axis.y + c
    m23 := t * axis.y * axis.z - s * axis.x
    m24 := 0
    m31 := t * axis.x * axis.z - s * axis.y
    m32 := t * axis.y * axis.z + s * axis.x
    m33 := t * axis.z * axis.z + c
    m34 := 0
    m41 := 0
    m42 := 0
    m43 := 0
    m44 := 1 }

/-- `rotate`. -/
def rotate (trig : Trigonometry K) (axis : Vector3 K) (angle : K) : Matrix K :=
  let c := trig.cos (-angle)
  let s := trig.sin (-angle)
  rotation axis c s

/-- `translate`. -/
def translate (translation : Vector3 K) : Matrix K where
  m11 := 1; m12 := 0; m13 := 0; m14 := translation.x
  m21 := 0; m22 := 1; m23 := 0; m24 := translation.y
  m31 := 0; m32 := 0; m33 := 1; m34 := translation.z
  m41 := 0; m42 := 0; m43 := 0; m44 := 1

/-- `scale`. -/
def scale (scale : Vector3 K) : Matrix K where
  m11 := scale.x; m12 := 0; m13 := 0; m14 := 0
  m21 := 0; m22 := scale.y; m23 := 0; m24 := 0
  m31 := 0; m32 := 0; m33 := scale.z; m34 := 0
  m41 := 0; m42 := 0; m43 := 0; m44 := 1

/-- The matrices that are built of translations, scales and rotations. -/
inductive Placement (trig : Trigonometry K) : Matrix K → Prop
  | rotate (axis : Vector3 K) (angle : K) : Placement trig (rotate trig axis angle)
  | translate (translation : Vector3 K) : Placement trig (translate translation)
  | scale (factors : Vector3 K) : Placement trig (scale factors)
  | mul {a b : Matrix K} : Placement trig a → Placement trig b → Placement trig (a * b)

/-! ## Composition -/

/-- **What is built of translations, scales and rotations keeps `w`.** -/
theorem Placement.keepsW (h : Placement trig m) : m.KeepsW := by
  induction h with
  | rotate axis angle => exact ⟨rfl, rfl, rfl, rfl⟩
  | translate translation => exact ⟨rfl, rfl, rfl, rfl⟩
  | scale factors => exact ⟨rfl, rfl, rfl, rfl⟩
  | mul _ _ iha ihb => exact iha.mul ihb

/-- **Transforms compose**: a product transforms as its right factor and then its left, a
`Vector3` and a normal if the right one keeps `w`, and they are transformed as the `Vector4` with a
`w` of one and of zero. -/
theorem transforms_compose (trig : Trigonometry K) (a b : Matrix K) :
    (∀ v, Vector4.transform v (a * b) = Vector4.transform (Vector4.transform v b) a) ∧
      (b.KeepsW → ∀ v,
        Vector3.transform v (a * b) = Vector3.transform (Vector3.transform v b) a ∧
          Vector3.transformNormal v (a * b) =
            Vector3.transformNormal (Vector3.transformNormal v b) a) ∧
      (∀ m, Placement trig m → m.KeepsW) ∧
      ∀ v, Vector3.transform v a = (Vector4.transform (v.withW 1) a).xyz ∧
        Vector3.transformNormal v a = (Vector4.transform (v.withW 0) a).xyz :=
  ⟨fun v => Vector4.transform_mul v a b,
    fun hb v => ⟨Vector3.transform_mul v a hb, Vector3.transformNormal_mul v a hb⟩,
    fun _ h => h.keepsW,
    fun v => ⟨Vector3.transform_eq v a, Vector3.transformNormal_eq v a⟩⟩

/-- A dense matrix after a translation. -/
theorem transforms_compose_dense :
    Vector3.transform ⟨1, 2, 3⟩ (dense * translate ⟨4, 5, 6⟩) =
      Vector3.transform (Vector3.transform ⟨1, 2, 3⟩ (translate ⟨4, 5, 6⟩)) dense :=
  ((transforms_compose ⟨fun _ => 0, fun _ => 1⟩ dense (translate ⟨4, 5, 6⟩)).2.1
    ⟨rfl, rfl, rfl, rfl⟩ ⟨1, 2, 3⟩).1

/-! ## Rotations -/

/-- The rotations about a unit axis multiply as the complex numbers of cosine and sine do. -/
theorem rotation_mul (haxis : axis.calculateLengthSquared = 1) (c s c' s' : K) :
    rotation axis c s * rotation axis c' s' =
      rotation axis (c * c' - s * s') (s * c' + c * s') := by
  unfold Vector3.calculateLengthSquared at haxis
  change mulAssign _ _ = _
  unfold mulAssign rotation
  simp only [mk.injEq]
  refine ⟨?_, ?_, ?_, ?_, ?_, ?_, ?_, ?_, ?_, ?_, ?_, ?_, ?_, ?_, ?_, ?_⟩
  · linear_combination ((1 - c) * (1 - c') * axis.x * axis.x - s * s') * haxis
  · linear_combination ((1 - c) * (1 - c') * axis.x * axis.y) * haxis
  · linear_combination ((1 - c) * (1 - c') * axis.x * axis.z) * haxis
  · ring
  · linear_combination ((1 - c) * (1 - c') * axis.x * axis.y) * haxis
  · linear_combination ((1 - c) * (1 - c') * axis.y * axis.y - s * s') * haxis
  · linear_combination ((1 - c) * (1 - c') * axis.y * axis.z) * haxis
  · ring
  · linear_combination ((1 - c) * (1 - c') * axis.x * axis.z) * haxis
  · linear_combination ((1 - c) * (1 - c') * axis.y * axis.z) * haxis
  · linear_combination ((1 - c) * (1 - c') * axis.z * axis.z - s * s') * haxis
  all_goals ring

/-- The other way round is the transpose. -/
theorem transpose_rotation (axis : Vector3 K) (c s : K) :
    transpose (rotation axis c s) = rotation axis c (-s) := by
  simp [transpose, rotation, sub_eq_add_neg]

theorem rotation_one_zero (axis : Vector3 K) : rotation axis 1 0 = identity := by
  unfold rotation identity
  simp

theorem calculateDeterminant_rotation (axis : Vector3 K) (c s : K) :
    (rotation axis c s).calculateDeterminant =
      (c + (1 - c) * axis.calculateLengthSquared) *
        (c * c + s * s * axis.calculateLengthSquared) := by
  unfold calculateDeterminant rotation Vector3.calculateLengthSquared
  ring

/-- The axis is moved along itself. -/
theorem transform_axis_rotation (axis : Vector3 K) (c s : K) :
    (axis.transform (rotation axis c s)) =
      let scale := c + (1 - c) * axis.calculateLengthSquared
      ⟨scale * axis.x, scale * axis.y, scale * axis.z⟩ := by
  unfold Vector3.transform rotation Vector3.calculateLengthSquared
  simp only [Vector3.mk.injEq]
  refine ⟨?_, ?_, ?_⟩ <;> ring

/-- The length of what is rotated, of any axis. -/
theorem calculateLengthSquared_rotation (axis v : Vector3 K) (c s : K) :
    (v.transform (rotation axis c s)).calculateLengthSquared =
      let along := v.x * axis.x + v.y * axis.y + v.z * axis.z
      let length := axis.calculateLengthSquared
      v.calculateLengthSquared * (c * c + s * s * length) +
        along * along * ((1 - c) * (1 - c) * length + 2 * c * (1 - c) - s * s) := by
  unfold Vector3.transform rotation Vector3.calculateLengthSquared
  ring

end Matrix

namespace Trigonometry.Lawful

variable [Field K] {trig : Trigonometry K} {axis : Vector3 K}

theorem rotate_neg (h : trig.Lawful) (axis : Vector3 K) (a : K) :
    Matrix.rotate trig axis (-a) = Matrix.transpose (Matrix.rotate trig axis a) := by
  unfold Matrix.rotate
  rw [Matrix.transpose_rotation]
  simp only [h.cos_neg, h.sin_neg, neg_neg]

theorem rotate_add (h : trig.Lawful) (haxis : axis.calculateLengthSquared = 1) (a b : K) :
    Matrix.rotate trig axis a * Matrix.rotate trig axis b = Matrix.rotate trig axis (a + b) := by
  unfold Matrix.rotate
  dsimp only
  rw [Matrix.rotation_mul haxis, neg_add, h.cos_add, h.sin_add]

theorem rotate_mul_transpose (h : trig.Lawful) (haxis : axis.calculateLengthSquared = 1) (a : K) :
    Matrix.rotate trig axis a * Matrix.transpose (Matrix.rotate trig axis a) = Matrix.identity := by
  have hsquare := h.square (-a)
  unfold Matrix.rotate
  dsimp only
  rw [Matrix.transpose_rotation, Matrix.rotation_mul haxis, ← Matrix.rotation_one_zero axis,
    ← hsquare]
  congr 1
  · ring
  · ring

theorem calculateDeterminant_rotate (h : trig.Lawful) (haxis : axis.calculateLengthSquared = 1)
    (a : K) : (Matrix.rotate trig axis a).calculateDeterminant = 1 := by
  have hsquare := h.square (-a)
  unfold Matrix.rotate
  rw [Matrix.calculateDeterminant_rotation, haxis]
  linear_combination hsquare

/-- **The rotations about a unit axis are a group**: each has determinant one and its transpose for
its inverse, they add their angles, and they keep the axis and every length. -/
theorem rotations (h : trig.Lawful) (haxis : axis.calculateLengthSquared = 1) (a b : K) :
    (Matrix.rotate trig axis a).calculateDeterminant = 1 ∧
      Matrix.rotate trig axis a * Matrix.transpose (Matrix.rotate trig axis a) = Matrix.identity ∧
      Matrix.rotate trig axis a * Matrix.rotate trig axis b = Matrix.rotate trig axis (a + b) ∧
      Matrix.rotate trig axis (-a) = Matrix.transpose (Matrix.rotate trig axis a) ∧
      axis.transform (Matrix.rotate trig axis a) = axis ∧
      ∀ v, (Vector3.transform v (Matrix.rotate trig axis a)).calculateLengthSquared =
        v.calculateLengthSquared := by
  have hsquare := h.square (-a)
  refine ⟨h.calculateDeterminant_rotate haxis a, h.rotate_mul_transpose haxis a,
    h.rotate_add haxis a b, h.rotate_neg axis a, ?_, fun v => ?_⟩
  · unfold Matrix.rotate
    rw [Matrix.transform_axis_rotation, haxis]
    simp
  · unfold Matrix.rotate
    rw [Matrix.calculateLengthSquared_rotation, haxis]
    dsimp only
    generalize trig.cos (-a) = c at hsquare ⊢
    generalize trig.sin (-a) = s at hsquare ⊢
    generalize v.x * axis.x + v.y * axis.y + v.z * axis.z = along
    linear_combination (v.calculateLengthSquared - along * along) * hsquare

end Trigonometry.Lawful

/-- The cosine and the sine of the reals. -/
noncomputable def Trigonometry.real : Trigonometry ℝ := ⟨Real.cos, Real.sin⟩

theorem Trigonometry.lawful_real : Trigonometry.real.Lawful where
  square a := by
    have h := Real.cos_sq_add_sin_sq a
    rwa [sq, sq] at h
  cos_neg := Real.cos_neg
  sin_neg := Real.sin_neg
  cos_add := Real.cos_add
  sin_add := Real.sin_add

/-- Two rotations about an axis off the coordinate directions, by `1` and by `2`. -/
theorem Trigonometry.Lawful.rotations_real :
    Matrix.rotate Trigonometry.real ⟨2 / 3, 1 / 3, 2 / 3⟩ 1 *
        Matrix.rotate Trigonometry.real ⟨2 / 3, 1 / 3, 2 / 3⟩ 2 =
      Matrix.rotate Trigonometry.real ⟨2 / 3, 1 / 3, 2 / 3⟩ (1 + 2) :=
  (Trigonometry.lawful_real.rotations
    (by norm_num [Vector3.calculateLengthSquared]) 1 2).2.2.1

end Hologine.Math
