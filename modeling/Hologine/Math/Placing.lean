import Hologine.Math.Transform
import Mathlib.LinearAlgebra.Matrix.ToLinearEquiv

/-!
# Placing things and taking them back

What is placed by `matrix::rotate`, `matrix::translate` and `matrix::scale`, one after another
(`core/math/matrix.cpp:51-112`), and `matrix::invert` of the product
(`core/math/matrix.cpp:128-151`). The first of the steps is the factor on the right, which
`vector3::transform` goes through first.

* `invert_eq_of_mul`: what a matrix gives the identity with is its inverse.
* `KeepsW.invert`: the inverse of a matrix that keeps `w` does.
* `calculateDeterminant_placed`: the determinant is the product of all factors that are scaled by.

Results:
* `KeepsW.transform_bijective_iff`: points are transformed one to one, and onto all, iff the
  determinant is not zero.
* `placed_taken_back_iff`: **what is placed can be taken back iff nothing is scaled by zero**; its
  inverse is then the product of what takes each step back, the last step first.
-/

namespace Hologine.Math

variable {K : Type*} [Field K]

namespace Matrix

variable {m n : Matrix K}

/-! ## Products -/

theorem product_assoc (a b c : Matrix K) : a * b * c = a * (b * c) := by
  apply toSquare_injective
  simp only [toSquare_mul, Matrix.mul_assoc]

theorem product_identity (a : Matrix K) : a * identity = a := by
  apply toSquare_injective
  rw [toSquare_mul, toSquare_identity, Matrix.mul_one]

theorem identity_product (a : Matrix K) : identity * a = a := by
  apply toSquare_injective
  rw [toSquare_mul, toSquare_identity, Matrix.one_mul]

theorem calculateDeterminant_identity : (identity : Matrix K).calculateDeterminant = 1 := by
  rw [← det_toSquare, toSquare_identity, Matrix.det_one]

/-- **What a matrix gives the identity with is its inverse.** -/
theorem invert_eq_of_mul (h : m * n = identity) :
    m.calculateDeterminant ≠ 0 ∧ invert m = n := by
  have hdet : m.calculateDeterminant ≠ 0 := by
    intro hzero
    have hproduct := calculateDeterminant_product m n
    rw [h, calculateDeterminant_identity, hzero, zero_mul] at hproduct
    exact one_ne_zero hproduct
  refine ⟨hdet, ?_⟩
  rw [← product_identity (invert m), ← h, ← product_assoc, invert_mul m hdet, identity_product]

/-! ## Inverses of transforms -/

/-- A matrix keeps `w` iff no vector is transformed to one of another `w`. -/
theorem keepsW_iff : m.KeepsW ↔ ∀ v, (Vector4.transform v m).w = v.w := by
  refine ⟨fun h v => Vector4.transform_w h v, fun h => ?_⟩
  have h1 := h ⟨1, 0, 0, 0⟩
  have h2 := h ⟨0, 1, 0, 0⟩
  have h3 := h ⟨0, 0, 1, 0⟩
  have h4 := h ⟨0, 0, 0, 1⟩
  simp only [Vector4.transform, one_mul, zero_mul, add_zero, zero_add] at h1 h2 h3 h4
  exact ⟨h1, h2, h3, h4⟩

theorem transform_identity (v : Vector4 K) : Vector4.transform v identity = v := by
  apply Vector4.toColumn_injective
  rw [Vector4.toColumn_transform, toSquare_identity, Matrix.one_mulVec]

/-- **The inverse takes every vector back.** -/
theorem transform_invert (hdet : m.calculateDeterminant ≠ 0) (v : Vector4 K) :
    Vector4.transform (Vector4.transform v m) (invert m) = v ∧
      Vector4.transform (Vector4.transform v (invert m)) m = v := by
  constructor
  · rw [← Vector4.transform_mul, invert_mul m hdet, transform_identity]
  · rw [← Vector4.transform_mul, mul_invert m hdet, transform_identity]

/-- **The inverse of a matrix that keeps `w` does.** -/
theorem KeepsW.invert (h : m.KeepsW) (hdet : m.calculateDeterminant ≠ 0) :
    (Matrix.invert m).KeepsW := by
  refine keepsW_iff.mpr fun v => ?_
  rw [← Vector4.transform_w h, (transform_invert hdet v).2]

/-- A point and a normal are taken back. -/
theorem KeepsW.transform_invert (h : m.KeepsW) (hdet : m.calculateDeterminant ≠ 0)
    (v : Vector3 K) :
    (v.transform m).transform (Matrix.invert m) = v ∧
      (v.transform (Matrix.invert m)).transform m = v ∧
      (v.transformNormal m).transformNormal (Matrix.invert m) = v ∧
      (v.transformNormal (Matrix.invert m)).transformNormal m = v := by
  have hinvert := h.invert hdet
  have hpoint := Matrix.transform_invert hdet (v.withW 1)
  have hnormal := Matrix.transform_invert hdet (v.withW 0)
  refine ⟨?_, ?_, ?_, ?_⟩
  · rw [Vector3.transform_eq, Vector3.withW_transform h, hpoint.1]
    rfl
  · rw [Vector3.transform_eq, Vector3.withW_transform hinvert, hpoint.2]
    rfl
  · rw [Vector3.transformNormal_eq, Vector3.withW_transformNormal h, hnormal.1]
    rfl
  · rw [Vector3.transformNormal_eq, Vector3.withW_transformNormal hinvert, hnormal.2]
    rfl

/-- **Points are transformed one to one, and onto all, iff the determinant is not zero.** -/
theorem KeepsW.transform_bijective_iff (h : m.KeepsW) :
    Function.Bijective (fun v : Vector3 K => v.transform m) ↔ m.calculateDeterminant ≠ 0 := by
  constructor
  · intro hbijective hzero
    rw [← det_toSquare] at hzero
    obtain ⟨u, hne, hu⟩ := Matrix.exists_mulVec_eq_zero_iff.mpr hzero
    -- what is taken to zero is a normal, which makes no difference to the origin
    obtain ⟨v, rfl⟩ : ∃ v : Vector4 K, v.toColumn = u := by
      refine ⟨⟨u 0, u 1, u 2, u 3⟩, ?_⟩
      funext i
      fin_cases i <;> rfl
    have hv : Vector4.transform v m = ⟨0, 0, 0, 0⟩ := by
      apply Vector4.toColumn_injective
      rw [Vector4.toColumn_transform, hu]
      funext i
      fin_cases i <;> rfl
    have hw : v.w = 0 := by rw [← Vector4.transform_w h, hv]
    obtain ⟨hx, hy, hz, -⟩ := (Vector4.mk.injEq ..).mp hv
    simp only [hw, zero_mul, add_zero] at hx hy hz
    have hsame : v.xyz.transform m = Vector3.transform ⟨0, 0, 0⟩ m := by
      simp [Vector3.transform, Vector4.xyz, hx, hy, hz]
    have hxyz := hbijective.1 hsame
    refine hne ?_
    rw [← Vector3.withW_xyz v, hxyz, hw]
    funext i
    fin_cases i <;> rfl
  · intro hdet
    exact Function.bijective_iff_has_inverse.mpr ⟨fun v => v.transform (Matrix.invert m),
      fun v => (h.transform_invert hdet v).1, fun v => (h.transform_invert hdet v).2.1⟩

end Matrix

/-! ## Steps -/

/-- A step by which things are placed. -/
inductive PlacingStep (K : Type*)
  | rotate (axis : Vector3 K) (angle : K)
  | translate (translation : Vector3 K)
  | scale (factors : Vector3 K)
  deriving Repr, DecidableEq

namespace PlacingStep

/-- The matrix of a step. -/
def matrix (trig : Trigonometry K) : PlacingStep K → Matrix K
  | rotate axis angle => Matrix.rotate trig axis angle
  | translate translation => Matrix.translate translation
  | scale factors => Matrix.scale factors

/-- What takes a step back. -/
def back : PlacingStep K → PlacingStep K
  | rotate axis angle => rotate axis (-angle)
  | translate translation => translate ⟨-translation.x, -translation.y, -translation.z⟩
  | scale factors => scale ⟨1 / factors.x, 1 / factors.y, 1 / factors.z⟩

/-- If a step rotates, then about a unit axis. -/
def UnitAxis : PlacingStep K → Prop
  | rotate axis _ => axis.calculateLengthSquared = 1
  | translate _ | scale _ => True

/-- All that a step scales by. -/
def factor : PlacingStep K → K
  | rotate _ _ | translate _ => 1
  | scale factors => factors.x * factors.y * factors.z

variable {trig : Trigonometry K} {s : PlacingStep K}

theorem keepsW_matrix (trig : Trigonometry K) (s : PlacingStep K) : (s.matrix trig).KeepsW := by
  cases s with
  | rotate axis angle => exact ⟨rfl, rfl, rfl, rfl⟩
  | translate translation => exact ⟨rfl, rfl, rfl, rfl⟩
  | scale factors => exact ⟨rfl, rfl, rfl, rfl⟩

theorem calculateDeterminant_matrix (h : trig.Lawful) (haxis : s.UnitAxis) :
    (s.matrix trig).calculateDeterminant = s.factor := by
  cases s with
  | rotate axis angle => exact h.calculateDeterminant_rotate haxis angle
  | translate translation => simp [matrix, factor, Matrix.calculateDeterminant, Matrix.translate]
  | scale factors =>
    simp [matrix, factor, Matrix.calculateDeterminant, Matrix.scale, mul_assoc]

/-- **A step is taken back**, unless it scales by zero. -/
theorem invert_matrix (h : trig.Lawful) (haxis : s.UnitAxis) (hfactor : s.factor ≠ 0) :
    (s.matrix trig).invert = s.back.matrix trig := by
  refine (Matrix.invert_eq_of_mul ?_).2
  cases s with
  | rotate axis angle =>
    rw [back, matrix, matrix, h.rotate_neg]
    exact h.rotate_mul_transpose haxis angle
  | translate translation =>
    change Matrix.mulAssign _ _ = _
    simp [back, matrix, Matrix.mulAssign, Matrix.translate, Matrix.identity]
  | scale factors =>
    have hx : factors.x ≠ 0 := left_ne_zero_of_mul (left_ne_zero_of_mul hfactor)
    have hy : factors.y ≠ 0 := right_ne_zero_of_mul (left_ne_zero_of_mul hfactor)
    have hz : factors.z ≠ 0 := right_ne_zero_of_mul hfactor
    change Matrix.mulAssign _ _ = _
    simp [back, matrix, Matrix.mulAssign, Matrix.scale, Matrix.identity, hx, hy, hz]

end PlacingStep

/-! ## One step after another -/

namespace Matrix

open PlacingStep

/-- The product of the steps, the first one on the right. -/
def placed (trig : Trigonometry K) : List (PlacingStep K) → Matrix K
  | [] => identity
  | s :: steps => placed trig steps * s.matrix trig

variable {trig : Trigonometry K} {steps : List (PlacingStep K)}

theorem placed_append (trig : Trigonometry K) (steps later : List (PlacingStep K)) :
    placed trig (steps ++ later) = placed trig later * placed trig steps := by
  induction steps with
  | nil => exact (product_identity _).symm
  | cons s steps ih => rw [List.cons_append, placed, placed, ih, product_assoc]

theorem keepsW_placed (trig : Trigonometry K) (steps : List (PlacingStep K)) :
    (placed trig steps).KeepsW := by
  induction steps with
  | nil => exact ⟨rfl, rfl, rfl, rfl⟩
  | cons s steps ih => exact ih.mul (s.keepsW_matrix trig)

/-- **The determinant is the product of all factors.** -/
theorem calculateDeterminant_placed (h : trig.Lawful) (haxes : ∀ s ∈ steps, s.UnitAxis) :
    (placed trig steps).calculateDeterminant = (steps.map factor).prod := by
  induction steps with
  | nil => exact calculateDeterminant_identity
  | cons s steps ih =>
    obtain ⟨haxis, haxes⟩ := List.forall_mem_cons.mp haxes
    rw [placed, calculateDeterminant_product, ih haxes, calculateDeterminant_matrix h haxis,
      List.map_cons, List.prod_cons, mul_comm]

theorem calculateDeterminant_placed_ne_zero (h : trig.Lawful)
    (haxes : ∀ s ∈ steps, s.UnitAxis) :
    (placed trig steps).calculateDeterminant ≠ 0 ↔ ∀ s ∈ steps, s.factor ≠ 0 := by
  rw [calculateDeterminant_placed h haxes, Ne, List.prod_eq_zero_iff, List.mem_map]
  simp

/-- **The inverse takes the steps back**, the last one first. -/
theorem invert_placed (h : trig.Lawful) (haxes : ∀ s ∈ steps, s.UnitAxis)
    (hfactors : ∀ s ∈ steps, s.factor ≠ 0) :
    invert (placed trig steps) = placed trig (steps.map back).reverse := by
  induction steps with
  | nil => exact (invert_eq_of_mul (product_identity identity)).2
  | cons s steps ih =>
    obtain ⟨haxis, haxes⟩ := List.forall_mem_cons.mp haxes
    obtain ⟨hfactor, hfactors⟩ := List.forall_mem_cons.mp hfactors
    have hdet := (calculateDeterminant_placed_ne_zero h haxes).mpr hfactors
    have hstep : (s.matrix trig).calculateDeterminant ≠ 0 := by
      rwa [calculateDeterminant_matrix h haxis]
    rw [placed, invert_product hdet hstep, ih haxes hfactors, s.invert_matrix h haxis hfactor,
      List.map_cons, List.reverse_cons, placed_append, placed, placed, identity_product]

/-- **What is placed can be taken back iff nothing is scaled by zero**, where rotations are about
unit axes. The inverse is then what takes the steps back, the last one first, and it takes every
point and every normal back. -/
theorem placed_taken_back_iff (h : trig.Lawful) (haxes : ∀ s ∈ steps, s.UnitAxis) :
    (Function.Bijective (fun v : Vector3 K => v.transform (placed trig steps)) ↔
      ∀ s ∈ steps, s.factor ≠ 0) ∧
    ((∀ s ∈ steps, s.factor ≠ 0) →
      invert (placed trig steps) = placed trig (steps.map back).reverse ∧
      ∀ v : Vector3 K,
        (v.transform (placed trig steps)).transform (invert (placed trig steps)) = v ∧
        (v.transform (invert (placed trig steps))).transform (placed trig steps) = v ∧
        (v.transformNormal (placed trig steps)).transformNormal
          (invert (placed trig steps)) = v ∧
        (v.transformNormal (invert (placed trig steps))).transformNormal
          (placed trig steps) = v) := by
  have hkeeps := keepsW_placed trig steps
  have hdet := calculateDeterminant_placed_ne_zero h haxes
  refine ⟨hkeeps.transform_bijective_iff.trans hdet, fun hfactors => ⟨?_, fun v => ?_⟩⟩
  · exact invert_placed h haxes hfactors
  · exact hkeeps.transform_invert (hdet.mpr hfactors) v

/-- A turn about an axis off the coordinate directions, between a scale and a translation. -/
theorem placed_taken_back_iff_turn :
    invert (placed Trigonometry.real [.scale ⟨2, 3, 4⟩, .rotate ⟨2 / 3, 1 / 3, 2 / 3⟩ 1,
      .translate ⟨5, 6, 7⟩]) =
      placed Trigonometry.real [.translate ⟨-5, -6, -7⟩, .rotate ⟨2 / 3, 1 / 3, 2 / 3⟩ (-1),
        .scale ⟨1 / 2, 1 / 3, 1 / 4⟩] := by
  have haxes : ∀ s ∈ [PlacingStep.scale ⟨2, 3, 4⟩, .rotate ⟨2 / 3, 1 / 3, 2 / 3⟩ 1,
      .translate ⟨5, 6, (7 : ℝ)⟩], s.UnitAxis := by
    simp only [List.forall_mem_cons, UnitAxis, Vector3.calculateLengthSquared]
    norm_num
  refine ((placed_taken_back_iff Trigonometry.lawful_real haxes).2 ?_).1
  simp only [List.forall_mem_cons, factor]
  norm_num

end Matrix

end Hologine.Math
