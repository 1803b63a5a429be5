import Hologine.Math.Transform
import Hologine.Math.Vectors

/-!
# Views

Model of `matrix::look_at` (`core/math/matrix.cpp:213-228`), with the operators of `vector3` under
names and its product `cross` (`core/math/vector3.cpp:122-125`). `std::sqrt` is any root.

* The third axis is a product of two unit vectors at right angles, so `look_at` normalizes a vector
  that has a length of one (`normalize_eq_self`).

Results:
* `Vector3.dot_mul_dot`: along three axes of length one, at right angles to each other, two vectors
  have the product that they have.
* `Matrix.lookAt_rigid`: **`look_at` moves the eye to the origin and its target in front of it**,
  keeps distances, products and orientation, and holds `up` upright.
-/

namespace Hologine.Math

open Hologine.Library.Euclid

namespace Vector3

variable {K : Type*} [Field K]

/-- The default constructor. -/
def zero : Vector3 K := (vector3 K).zero

/-- `operator -`, of one vector. -/
def neg (vector : Vector3 K) : Vector3 K := (vector3 K).neg vector

/-- `operator -`, of two vectors. -/
def sub (left right : Vector3 K) : Vector3 K := (vector3 K).operate .sub left right

/-- `operator *`, of a vector and a number. -/
def scaled (left : Vector3 K) (right : K) : Vector3 K := (vector3 K).operateNumber .mul left right

/-- `calculate_length`. -/
def calculateLength (sqrt : K → K) (vector : Vector3 K) : K :=
  (vector3 K).calculateLength sqrt vector

/-- `vector3::normalize`. -/
def normalize (sqrt : K → K) (vector : Vector3 K) : Vector3 K := (vector3 K).normalize sqrt vector

/-- `vector3::cross`. -/
def cross (left right : Vector3 K) : Vector3 K where
  x := left.y * right.z - left.z * right.y
  y := left.z * right.x - left.x * right.z
  z := left.x * right.y - left.y * right.x

/-- `vector3::dot`. -/
def dot (a b : Vector3 K) : K := (vector3 K).dot a b

/-- `vector3::distance`. -/
def distance (sqrt : K → K) (origin target : Vector3 K) : K :=
  (vector3 K).distance sqrt origin target

end Vector3

/-- `look_at`. -/
def Matrix.lookAt {K : Type*} [Field K] (sqrt : K → K) (eye target up : Vector3 K) : Matrix K :=
  let f := Vector3.normalize sqrt (target.sub eye)
  let s := Vector3.normalize sqrt (Vector3.cross f up)
  let u := Vector3.normalize sqrt (Vector3.cross s f)
  let m : Matrix K :=
    { m11 := s.x, m12 := s.y, m13 := s.z, m14 := 0
      m21 := u.x, m22 := u.y, m23 := u.z, m24 := 0
      m31 := -f.x, m32 := -f.y, m33 := -f.z, m34 := 0
      m41 := 0, m42 := 0, m43 := 0, m44 := 1 }
  m * translate eye.neg

namespace Vector3

section Products

variable {K : Type*} [Field K]

theorem zero_eq : (zero : Vector3 K) = ⟨0, 0, 0⟩ := rfl

theorem neg_eq (v : Vector3 K) : v.neg = ⟨-v.x, -v.y, -v.z⟩ := rfl

theorem sub_eq (v w : Vector3 K) : v.sub w = ⟨v.x - w.x, v.y - w.y, v.z - w.z⟩ := rfl

theorem scaled_eq (v : Vector3 K) (a : K) : v.scaled a = ⟨v.x * a, v.y * a, v.z * a⟩ := rfl

theorem dot_eq (v w : Vector3 K) : dot v w = v.x * w.x + v.y * w.y + v.z * w.z := rfl

theorem normalize_eq (sqrt : K → K) (v : Vector3 K) :
    normalize sqrt v = v.scaled (1 / v.calculateLength sqrt) := rfl

theorem distance_eq (sqrt : K → K) (v w : Vector3 K) :
    distance sqrt v w = sqrt (dot (v.sub w) (v.sub w)) := rfl

theorem dot_comm (v w : Vector3 K) : dot v w = dot w v := by
  simp only [dot_eq]
  ring

@[simp] theorem dot_scaled (v w : Vector3 K) (a : K) : dot v (w.scaled a) = dot v w * a := by
  simp only [dot_eq, scaled_eq]
  ring

@[simp] theorem scaled_dot (v w : Vector3 K) (a : K) : dot (v.scaled a) w = dot v w * a := by
  simp only [dot_eq, scaled_eq]
  ring

theorem scaled_eq_zero_iff {v : Vector3 K} {a : K} (ha : a ≠ 0) : v.scaled a = zero ↔ v = zero := by
  cases v
  simp [scaled_eq, zero_eq, ha]

theorem cross_scaled (v w : Vector3 K) (a : K) : cross (v.scaled a) w = (cross v w).scaled a := by
  simp only [cross, scaled_eq, mk.injEq]
  exact ⟨by ring, by ring, by ring⟩

theorem dot_cross_left (v w : Vector3 K) : dot v (cross v w) = 0 := by
  simp only [dot_eq, cross]
  ring

theorem dot_cross_right (v w : Vector3 K) : dot w (cross v w) = 0 := by
  simp only [dot_eq, cross]
  ring

theorem dot_cross_rotate (u v w : Vector3 K) : dot (cross u v) w = dot u (cross v w) := by
  simp only [dot_eq, cross]
  ring

theorem dot_cross_self (v w : Vector3 K) :
    dot (cross v w) (cross v w) = dot v v * dot w w - dot v w * dot v w := by
  simp only [dot_eq, cross]
  ring

/-- **Along three axes two vectors have the product that they have**, the third being the product
of the first two. -/
theorem dot_mul_dot {a b : Vector3 K} (ha : dot a a = 1) (hb : dot b b = 1) (hab : dot a b = 0)
    (v w : Vector3 K) :
    dot a v * dot a w + dot (cross a b) v * dot (cross a b) w + dot b v * dot b w = dot v w := by
  have hgram : dot (cross a b) v * dot (cross a b) w =
      dot v w * (dot a a * dot b b - dot a b * dot a b) - dot a v * dot a w * dot b b -
        dot b v * dot b w * dot a a + (dot a v * dot b w + dot b v * dot a w) * dot a b := by
    simp only [dot_eq, cross]
    ring
  rw [hgram, ha, hb, hab]
  ring

end Products

section Lengths

variable {K : Type*} [Field K] [LinearOrder K] [IsStrictOrderedRing K] {sqrt : K → K}
  {v : Vector3 K}

theorem calculateLength_pos (hsqrt : Root sqrt) (hv : v ≠ zero) : 0 < v.calculateLength sqrt :=
  componentwise_vector3.calculateLength_pos hsqrt hv

theorem calculateLength_mul_self (hsqrt : Root sqrt) (v : Vector3 K) :
    v.calculateLength sqrt * v.calculateLength sqrt = dot v v := by
  unfold calculateLength
  rw [componentwise_vector3.calculateLength_eq, length_mul_self hsqrt]
  exact (componentwise_vector3.dot v v).symm

/-- **A normalized vector** has a length of one, and the vector is that as long as it is itself. -/
theorem normalize_spec (hsqrt : Root sqrt) (hv : v ≠ zero) :
    dot (normalize sqrt v) (normalize sqrt v) = 1 ∧
      (normalize sqrt v).scaled (v.calculateLength sqrt) = v := by
  have hpos := calculateLength_pos hsqrt hv
  obtain ⟨hone, -⟩ := (componentwise_vector3.eq_normalize_iff hsqrt hv _).mp rfl
  have hsquare := calculateLength_mul_self hsqrt (normalize sqrt v)
  refine ⟨?_, ?_⟩
  · rw [← hsquare, calculateLength, normalize, hone, mul_one]
  · have hmul := componentwise_vector3.operateNumber_mul_mul v (1 / v.calculateLength sqrt)
      (v.calculateLength sqrt)
    rw [one_div_mul_cancel hpos.ne', componentwise_vector3.operateNumber_mul_one] at hmul
    exact hmul

/-- The product with a normalized vector is its length. -/
theorem dot_normalize (hsqrt : Root sqrt) (hv : v ≠ zero) :
    dot (normalize sqrt v) v = v.calculateLength sqrt := by
  obtain ⟨hone, hscaled⟩ := normalize_spec hsqrt hv
  generalize normalize sqrt v = w at hone hscaled
  generalize v.calculateLength sqrt = a at hscaled
  rw [← hscaled, dot_scaled, hone, one_mul]

/-- A vector with a length of one is normalized. -/
theorem normalize_eq_self (hsqrt : Root sqrt) (hv : dot v v = 1) : normalize sqrt v = v := by
  have hne : v ≠ zero := by
    rintro rfl
    simp [dot_eq, zero_eq] at hv
  refine ((componentwise_vector3.eq_normalize_iff hsqrt hne v).mpr ⟨?_, 1, one_pos, ?_⟩).symm
  · rw [componentwise_vector3.calculateLength_eq]
    refine length_eq hsqrt zero_le_one ?_
    rw [mul_one]
    exact (componentwise_vector3.dot v v).symm.trans hv
  · exact (componentwise_vector3.operateNumber_mul_one v).symm

end Lengths

end Vector3

namespace Matrix

open Hologine.Math.Vector3

section Rows

variable {K : Type*} [Field K] {sqrt : K → K} {s f eye : Vector3 K}

/-- A view of three axes from an eye. -/
def view (s u f eye : Vector3 K) : Matrix K :=
  let m : Matrix K :=
    { m11 := s.x, m12 := s.y, m13 := s.z, m14 := 0
      m21 := u.x, m22 := u.y, m23 := u.z, m24 := 0
      m31 := -f.x, m32 := -f.y, m33 := -f.z, m34 := 0
      m41 := 0, m42 := 0, m43 := 0, m44 := 1 }
  m * translate eye.neg

theorem keepsW_view (s u f eye : Vector3 K) : (view s u f eye).KeepsW :=
  KeepsW.mul ⟨rfl, rfl, rfl, rfl⟩ ⟨rfl, rfl, rfl, rfl⟩

/-- A vector has the components along the axes that its distance from the eye has. -/
theorem transform_view (s u f eye v : Vector3 K) : transform v (view s u f eye) =
    ⟨dot s (v.sub eye), dot u (v.sub eye), -dot f (v.sub eye)⟩ := by
  unfold view
  rw [transform_mul _ _ ⟨rfl, rfl, rfl, rfl⟩]
  simp only [transform, translate, neg_eq, dot_eq, sub_eq, Vector3.mk.injEq]
  exact ⟨by ring, by ring, by ring⟩

theorem transformNormal_view (s u f eye v : Vector3 K) :
    transformNormal v (view s u f eye) = ⟨dot s v, dot u v, -dot f v⟩ := by
  unfold view
  rw [transformNormal_mul _ _ ⟨rfl, rfl, rfl, rfl⟩]
  simp only [transformNormal, translate, dot_eq, Vector3.mk.injEq]
  exact ⟨by ring, by ring, by ring⟩

theorem calculateDeterminant_view (s u f eye : Vector3 K) :
    (view s u f eye).calculateDeterminant = dot u (cross s f) := by
  unfold view
  rw [calculateDeterminant_product]
  simp only [calculateDeterminant, translate, dot_eq, cross]
  ring

/-- What `look_at` leaves as it is. -/
structure Rigid (sqrt : K → K) (m : Matrix K) : Prop where
  keepsW : m.KeepsW
  determinant : m.calculateDeterminant = 1
  distance : ∀ v w, Vector3.distance sqrt (transform v m) (transform w m) =
    Vector3.distance sqrt v w
  dot : ∀ v w, Vector3.dot (transformNormal v m) (transformNormal w m) = Vector3.dot v w

/-- Three axes of length one, at right angles, are a rigid view. -/
theorem rigid_view (hs : dot s s = 1) (hf : dot f f = 1) (hsf : dot s f = 0) :
    Rigid sqrt (view s (cross s f) f eye) where
  keepsW := keepsW_view s (cross s f) f eye
  determinant := by
    rw [calculateDeterminant_view, Vector3.dot_cross_self, hs, hf, hsf]
    ring
  distance v w := by
    have hlength := dot_mul_dot hs hf hsf (v.sub w) (v.sub w)
    rw [distance_eq, distance_eq, ← hlength, transform_view, transform_view]
    congr 1
    simp only [dot_eq, sub_eq]
    ring
  dot v w := by
    rw [transformNormal_view, transformNormal_view, ← dot_mul_dot hs hf hsf v w]
    simp only [dot_eq]
    ring

end Rows

section Views

variable {K : Type*} [Field K] [LinearOrder K] [IsStrictOrderedRing K] {sqrt : K → K}
  {eye target up : Vector3 K}

/-- The axes of `look_at`: its second is one without being normalized. -/
theorem lookAt_eq (hsqrt : Root sqrt) (hforward : target.sub eye ≠ zero)
    (hup : cross (target.sub eye) up ≠ zero) :
    ∃ s f, lookAt sqrt eye target up = view s (cross s f) f eye ∧
      dot s s = 1 ∧ dot f f = 1 ∧ dot s f = 0 ∧ f = Vector3.normalize sqrt (target.sub eye) ∧
      s = Vector3.normalize sqrt (cross f up) ∧ cross f up ≠ zero := by
  have hpos := calculateLength_pos hsqrt hforward
  have hside : cross (Vector3.normalize sqrt (target.sub eye)) up ≠ zero := by
    intro hzero
    rw [Vector3.normalize_eq, cross_scaled] at hzero
    exact hup ((scaled_eq_zero_iff (one_div_pos.mpr hpos).ne').mp hzero)
  have hf := (normalize_spec hsqrt hforward).1
  generalize hfeq : Vector3.normalize sqrt (target.sub eye) = f at hside hf
  have hs := (normalize_spec hsqrt hside).1
  have hsf : dot (Vector3.normalize sqrt (cross f up)) f = 0 := by
    rw [Vector3.normalize_eq, scaled_dot, dot_comm, dot_cross_left, zero_mul]
  generalize hseq : Vector3.normalize sqrt (cross f up) = s at hs hsf
  have hunit : dot (cross s f) (cross s f) = 1 := by
    rw [Vector3.dot_cross_self, hs, hf, hsf]
    ring
  refine ⟨s, f, ?_, hs, hf, hsf, rfl, hseq.symm, hside⟩
  unfold lookAt view
  rw [hfeq]
  dsimp only
  rw [hseq, normalize_eq_self hsqrt hunit]

/-- **A view is rigid**: an eye that looks at another point, not along `up`, is moved to the
origin, and what it looks at lies ahead of it, as far away as it was. Distances, products of
normals and orientation are kept, and `up` points up, to neither side. -/
theorem lookAt_rigid (hsqrt : Root sqrt) (hforward : target.sub eye ≠ zero)
    (hup : cross (target.sub eye) up ≠ zero) :
    Rigid sqrt (lookAt sqrt eye target up) ∧
      transform eye (lookAt sqrt eye target up) = zero ∧
      transform target (lookAt sqrt eye target up) = ⟨0, 0, -Vector3.distance sqrt target eye⟩ ∧
      (transformNormal up (lookAt sqrt eye target up)).x = 0 ∧
      0 < (transformNormal up (lookAt sqrt eye target up)).y := by
  obtain ⟨s, f, heq, hs, hf, hsf, hfeq, hseq, hside⟩ := lookAt_eq hsqrt hforward hup
  have hpos := calculateLength_pos hsqrt hside
  rw [heq]
  refine ⟨rigid_view hs hf hsf, ?_, ?_, ?_, ?_⟩
  · rw [transform_view]
    simp [sub_eq, dot_eq, zero_eq]
  · -- what is ahead is the first axis, as long as the way to the target
    have hahead : target.sub eye = f.scaled ((target.sub eye).calculateLength sqrt) := by
      rw [hfeq, (normalize_spec hsqrt hforward).2]
    have hu : dot (cross s f) f = 0 := by rw [dot_comm, dot_cross_right]
    rw [transform_view, hahead, dot_scaled, dot_scaled, dot_scaled, hsf, hu, hf, zero_mul, one_mul]
    rfl
  · rw [transformNormal_view, hseq, Vector3.normalize_eq, scaled_dot, dot_comm, dot_cross_right,
      zero_mul]
  · rw [transformNormal_view]
    change 0 < dot (cross s f) up
    rw [dot_cross_rotate, hseq, dot_normalize hsqrt hside]
    exact hpos

end Views

end Matrix

/-- An eye off the axes, looking down and aside. -/
theorem Matrix.lookAt_rigid_aside :
    Vector3.transform ⟨4, 0, 2⟩ (lookAt Real.sqrt ⟨1, 2, 8⟩ ⟨4, 0, 2⟩ ⟨0, 1, 0⟩) =
      ⟨0, 0, -7⟩ := by
  have hforward : Vector3.sub ⟨4, 0, 2⟩ ⟨1, 2, 8⟩ ≠ (Vector3.zero : Vector3 ℝ) := by
    norm_num [Vector3.sub_eq, Vector3.zero_eq]
  have hup : Vector3.cross (Vector3.sub ⟨4, 0, 2⟩ ⟨1, 2, 8⟩) ⟨0, 1, 0⟩ ≠
      (Vector3.zero : Vector3 ℝ) := by
    norm_num [Vector3.sub_eq, Vector3.zero_eq, Vector3.cross]
  have h := (lookAt_rigid root_real hforward hup).2.2.1
  have hseven : Real.sqrt 49 = 7 := by
    rw [show (49 : ℝ) = 7 * 7 by norm_num, Real.sqrt_mul_self (by norm_num)]
  rw [h]
  norm_num [Vector3.distance_eq, Vector3.dot_eq, Vector3.sub_eq, hseven]

end Hologine.Math
