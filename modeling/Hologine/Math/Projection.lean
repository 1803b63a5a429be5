import Hologine.Math.Vector
import Mathlib.Algebra.Order.Field.Basic
import Mathlib.Tactic.FieldSimp
import Mathlib.Tactic.Linarith
import Mathlib.Tactic.Positivity

/-!
# Projections

Model of `matrix::ortho`, `matrix::perspective` and `matrix::frustum`
(`core/math/matrix.cpp:164-211`) over the numbers of any ordered field. `std::tan` is any function,
and `math::pi` any number.

* `perspective` takes the depths from the near plane to the far plane to `-1` up to `1`, `ortho`
  and `frustum` to `-1` up to `0`: where the third row of `perspective` has `far + near` and
  `2 * far * near`, that of `frustum` has `near` and `near * far`.

Results:
* `depth_ortho`, `depth_perspective`, `depth_frustum`: the depth of a point after division by `w`.
* `never_projectionsAgree`: the three agree at the near plane and never at the far plane, and
  `frustum` and `perspective` are never the same matrix.
-/

namespace Hologine.Math

variable {K : Type*}

namespace Matrix

section Builders

variable [Field K]

/-- `ortho`. -/
def ortho (left right bottom top near far : K) : Matrix K :=
  let rightLeft := 1 / (right - left)
  let topBottom := 1 / (top - bottom)
  let farNear := 1 / (far - near)
  { m11 := 2 * rightLeft, m12 := 0, m13 := 0, m14 := -(right + left) * rightLeft
    m21 := 0, m22 := 2 * topBottom, m23 := 0, m24 := -(top + bottom) * topBottom
    m31 := 0, m32 := 0, m33 := -farNear, m34 := -far * farNear
    m41 := 0, m42 := 0, m43 := 0, m44 := 1 }

/-- The factor `f` of `perspective`: the cotangent of half the field of view. -/
def fovFactor (tan : K → K) (pi fov : K) : K := tan (pi / 2 - fov / 2)

/-- `perspective`. -/
def perspective (tan : K → K) (pi fov aspect near far : K) : Matrix K :=
  let f := fovFactor tan pi fov
  let a := f / aspect
  let b := (far + near) / (near - far)
  let c := (2 * far * near) / (near - far)
  { m11 := a, m12 := 0, m13 := 0, m14 := 0
    m21 := 0, m22 := f, m23 := 0, m24 := 0
    m31 := 0, m32 := 0, m33 := b, m34 := c
    m41 := 0, m42 := 0, m43 := -1, m44 := 0 }

/-- `frustum`. -/
def frustum (left right bottom top near far : K) : Matrix K :=
  let x := (2 * near) / (right - left)
  let y := (2 * near) / (top - bottom)
  let a := (right + left) / (right - left)
  let b := (top + bottom) / (top - bottom)
  let c := -near / (far - near)
  let d := -(near * far) / (far - near)
  { m11 := x, m12 := 0, m13 := a, m14 := 0
    m21 := 0, m22 := y, m23 := b, m24 := 0
    m31 := 0, m32 := 0, m33 := c, m34 := d
    m41 := 0, m42 := 0, m43 := -1, m44 := 0 }

/-- The depth of a point after division by `w`. -/
def depth (m : Matrix K) (x y z : K) : K :=
  let clip := Vector4.transform ⟨x, y, z, 1⟩ m
  clip.z / clip.w

end Builders

end Matrix

/-- What the three projections are built from. -/
structure Projection (K : Type*) where
  (left right bottom top near far : K)
  tan : K → K
  (pi fov aspect : K)

namespace Projection

section Matrices

variable [Field K] (p : Projection K)

/-- The matrix of `ortho`. -/
def ortho : Matrix K := .ortho p.left p.right p.bottom p.top p.near p.far

/-- The matrix of `perspective`. -/
def perspective : Matrix K := .perspective p.tan p.pi p.fov p.aspect p.near p.far

/-- The matrix of `frustum`. -/
def frustum : Matrix K := .frustum p.left p.right p.bottom p.top p.near p.far

/-- The factor of `perspective`. -/
def factor : K := Matrix.fovFactor p.tan p.pi p.fov

/-- The points at a depth in front of the eye have one depth after division by `w`, whichever of
the three projects them. -/
def AgreeAt (z : K) : Prop :=
  ∃ depth, ∀ x y, p.ortho.depth x y z = depth ∧ p.perspective.depth x y z = depth ∧
    p.frustum.depth x y z = depth

/-- The bounds are symmetric, and those of the field of view. -/
structure Matching : Prop where
  left : p.left = -p.right
  bottom : p.bottom = -p.top
  top : p.top / p.near = 1 / p.factor
  right : p.right = p.top * p.aspect

/-- **The projections agree**: on the depths of the near and the far plane, and `frustum` with
`perspective` for matching bounds. -/
structure ProjectionsAgree : Prop where
  near : p.AgreeAt (-p.near)
  far : p.AgreeAt (-p.far)
  same : p.Matching → p.frustum = p.perspective

end Matrices

/-- The planes are in front of the eye, one behind the other, and the bounds enclose an area. -/
structure Sound [Field K] [LinearOrder K] (p : Projection K) : Prop where
  near_pos : 0 < p.near
  near_lt_far : p.near < p.far
  width : p.left ≠ p.right
  height : p.bottom ≠ p.top
  aspect : p.aspect ≠ 0
  factor : p.factor ≠ 0

variable [Field K] [LinearOrder K] [IsStrictOrderedRing K] {p : Projection K}

namespace Sound

omit [IsStrictOrderedRing K] in
theorem far_pos (h : p.Sound) : 0 < p.far := h.near_pos.trans h.near_lt_far

theorem sub_ne_zero (h : p.Sound) : p.far - p.near ≠ 0 := by
  have := h.near_lt_far
  exact (sub_pos.mpr this).ne'

theorem depth_ortho (h : p.Sound) (x y z : K) :
    p.ortho.depth x y z = -(z + p.far) / (p.far - p.near) := by
  have hne := h.sub_ne_zero
  simp only [ortho, Matrix.depth, Matrix.ortho, Vector4.transform, mul_zero, mul_one, zero_add,
    add_zero, one_mul]
  field_simp
  ring

theorem depth_perspective (h : p.Sound) {z : K} (hz : z ≠ 0) (x y : K) :
    p.perspective.depth x y z =
      ((p.far + p.near) * z + 2 * p.far * p.near) / ((p.far - p.near) * z) := by
  have hne := h.sub_ne_zero
  have hne' : p.near - p.far ≠ 0 := by
    rw [← neg_sub]
    exact neg_ne_zero.mpr hne
  simp only [perspective, Matrix.depth, Matrix.perspective, Vector4.transform, mul_zero, zero_add,
    add_zero, one_mul]
  field_simp
  ring

theorem depth_frustum (h : p.Sound) {z : K} (hz : z ≠ 0) (x y : K) :
    p.frustum.depth x y z = (p.near * z + p.near * p.far) / ((p.far - p.near) * z) := by
  have hne := h.sub_ne_zero
  simp only [frustum, Matrix.depth, Matrix.frustum, Vector4.transform, mul_zero, zero_add, add_zero,
    one_mul]
  field_simp
  ring

/-- All three take the near plane to `-1`. -/
theorem agreeAt_near (h : p.Sound) : p.AgreeAt (-p.near) := by
  have hne := h.sub_ne_zero
  have hnear := h.near_pos.ne'
  refine ⟨-1, fun x y => ⟨?_, ?_, ?_⟩⟩
  · rw [h.depth_ortho]
    field_simp
    ring
  · rw [h.depth_perspective (neg_ne_zero.mpr hnear)]
    field_simp
    ring
  · rw [h.depth_frustum (neg_ne_zero.mpr hnear)]
    field_simp
    ring

/-- `ortho` takes the far plane to `0` and `perspective` takes it to `1`. -/
theorem not_agreeAt_far (h : p.Sound) : ¬ p.AgreeAt (-p.far) := by
  have hne := h.sub_ne_zero
  have hfar := h.far_pos.ne'
  rintro ⟨depth, hagree⟩
  obtain ⟨hortho, hperspective, -⟩ := hagree 0 0
  rw [h.depth_ortho, neg_add_cancel, neg_zero, zero_div] at hortho
  have hone : p.perspective.depth 0 0 (-p.far) = 1 := by
    rw [h.depth_perspective (neg_ne_zero.mpr hfar)]
    field_simp
    ring
  rw [hone, ← hortho] at hperspective
  exact one_ne_zero hperspective

/-- `frustum` and `perspective` differ in the third row, whatever the bounds. -/
theorem frustum_ne (h : p.Sound) : p.frustum ≠ p.perspective := by
  intro heq
  have hentry : p.frustum.m33 = p.perspective.m33 := by rw [heq]
  have hne := h.sub_ne_zero
  have hne' : p.near - p.far ≠ 0 := by
    rw [← neg_sub]
    exact neg_ne_zero.mpr hne
  change -p.near / (p.far - p.near) = (p.far + p.near) / (p.near - p.far) at hentry
  rw [div_eq_div_iff hne hne'] at hentry
  have hzero : p.far * (p.far - p.near) = 0 := by linear_combination -hentry
  exact (mul_ne_zero h.far_pos.ne' hne) hzero

end Sound

/-- **The projections never agree**: the near plane has one depth, the far plane has not, and
`frustum` is not `perspective`, for matching bounds or others. -/
theorem never_projectionsAgree (h : p.Sound) :
    p.AgreeAt (-p.near) ∧ ¬ p.AgreeAt (-p.far) ∧ p.frustum ≠ p.perspective ∧
      ¬ p.ProjectionsAgree :=
  ⟨h.agreeAt_near, h.not_agreeAt_far, h.frustum_ne, fun hagree => h.not_agreeAt_far hagree.far⟩

/-- Symmetric bounds, with a field of view of a right angle. -/
def rightAngle : Projection ℚ where
  left := -1
  right := 1
  bottom := -1
  top := 1
  near := 1
  far := 3
  tan := fun _ => 1
  pi := 22 / 7
  fov := 11 / 7
  aspect := 1

theorem sound_rightAngle : rightAngle.Sound := by
  constructor <;> norm_num [rightAngle, factor, Matrix.fovFactor]

theorem never_projectionsAgree_rightAngle :
    rightAngle.Matching ∧ ¬ rightAngle.ProjectionsAgree := by
  refine ⟨?_, (never_projectionsAgree sound_rightAngle).2.2.2⟩
  constructor <;> norm_num [rightAngle, factor, Matrix.fovFactor]

/-- **The far plane has two depths**: the bounds of a right angle, the far plane at `3`. -/
theorem not_projectionsAgree : ¬ ∀ p : Projection ℚ, p.Sound → p.ProjectionsAgree := by
  intro hall
  obtain ⟨depth, hagree⟩ := (hall rightAngle sound_rightAngle).far
  obtain ⟨hortho, hperspective, -⟩ := hagree 0 0
  rw [← hortho] at hperspective
  norm_num [rightAngle, ortho, perspective, Matrix.depth, Matrix.ortho, Matrix.perspective,
    Matrix.fovFactor, Vector4.transform] at hperspective

end Projection

end Hologine.Math
