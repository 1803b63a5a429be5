import Hologine.Library.Euclid
import Hologine.Math.Vector
import Mathlib.Algebra.BigOperators.Fin
import Mathlib.Analysis.Real.Sqrt

/-!
# Vectors of two, three and four components

Model of what `vector2`, `vector3` and `vector4` have in common: their arithmetic, lengths,
products and distances (`core/math/vector2.cpp:12-178`, `core/math/vector3.cpp:14-135, 157-215`,
`core/math/vector4.cpp:14-140, 153-211`), over exact components. What a type does with its
components is in `Vectors`; the functions that are the same for all the types are over that.
`std::sqrt` is any root.

Results:
* `Vectors.Componentwise`: what the vectors are, as columns.
* `vectors_euclidean`: **the vectors of each type are a Euclidean space**. Distances are those of a
  metric, which moving and scaling keep, and normalizing finds the one vector of length one in the
  direction of a vector.
-/

namespace Hologine.Math

open Hologine.Library.Euclid

/-- A two-dimensional vector. -/
structure Vector2 (K : Type*) where
  (x y : K)
  deriving Repr, DecidableEq

/-- What the operators compute. -/
inductive Arithmetic
  | add
  | sub
  | mul
  | div
  deriving Repr, DecidableEq

/-- What an operator computes of two numbers. -/
def Arithmetic.apply {K : Type*} [Field K] : Arithmetic → K → K → K
  | .add => (· + ·)
  | .sub => (· - ·)
  | .mul => (· * ·)
  | .div => (· / ·)

/-- What a type of vectors does with its components. -/
structure Vectors (K V : Type*) where
  /-- The default constructor. -/
  zero : V
  /-- A vector that is constructed of the same number again and again. -/
  splat : K → V
  /-- `operator +=`, `operator -=`, `operator *=` and `operator /=`, with a vector. -/
  assign : Arithmetic → V → V → V
  /-- `operator +=`, `operator -=`, `operator *=` and `operator /=`, with a number. -/
  assignNumber : Arithmetic → V → K → V
  /-- `operator -`, of one vector. -/
  neg : V → V
  calculateLengthSquared : V → K
  dot : V → V → K

namespace Vectors

variable {K V : Type*} [Field K] (vectors : Vectors K V)

/-- `operator +`, `operator -`, `operator *` and `operator /`, of two vectors. -/
def operate (op : Arithmetic) (left right : V) : V := vectors.assign op left right

/-- The operators, of a vector and a number. -/
def operateNumber (op : Arithmetic) (left : V) (right : K) : V :=
  vectors.assignNumber op left right

/-- The operators, of a number and a vector. -/
def numberOperate (op : Arithmetic) (left : K) (right : V) : V :=
  vectors.assign op (vectors.splat left) right

/-- `calculate_length`. -/
def calculateLength (sqrt : K → K) (vector : V) : K :=
  sqrt (vectors.calculateLengthSquared vector)

/-- `normalize`. -/
def normalize (sqrt : K → K) (vector : V) : V :=
  vectors.operateNumber .mul vector (1 / vectors.calculateLength sqrt vector)

/-- `distance`. -/
def distance (sqrt : K → K) (origin target : V) : K :=
  vectors.calculateLength sqrt (vectors.operate .sub origin target)

end Vectors

/-! ## The types -/

section Types

variable (K : Type*) [Field K]

/-- `vector2`. -/
def vector2 : Vectors K (Vector2 K) where
  zero := ⟨0, 0⟩
  splat a := ⟨a, a⟩
  assign op v other := ⟨op.apply v.x other.x, op.apply v.y other.y⟩
  assignNumber op v other := ⟨op.apply v.x other, op.apply v.y other⟩
  neg v := ⟨-v.x, -v.y⟩
  calculateLengthSquared v := v.x * v.x + v.y * v.y
  dot a b := a.x * b.x + a.y * b.y

/-- `vector3`. -/
def vector3 : Vectors K (Vector3 K) where
  zero := ⟨0, 0, 0⟩
  splat a := ⟨a, a, a⟩
  assign op v other := ⟨op.apply v.x other.x, op.apply v.y other.y, op.apply v.z other.z⟩
  assignNumber op v other := ⟨op.apply v.x other, op.apply v.y other, op.apply v.z other⟩
  neg v := ⟨-v.x, -v.y, -v.z⟩
  calculateLengthSquared := Vector3.calculateLengthSquared
  dot a b := a.x * b.x + a.y * b.y + a.z * b.z

/-- `vector4`. -/
def vector4 : Vectors K (Vector4 K) where
  zero := ⟨0, 0, 0, 0⟩
  splat a := ⟨a, a, a, a⟩
  assign op v other :=
    ⟨op.apply v.x other.x, op.apply v.y other.y, op.apply v.z other.z, op.apply v.w other.w⟩
  assignNumber op v other :=
    ⟨op.apply v.x other, op.apply v.y other, op.apply v.z other, op.apply v.w other⟩
  neg v := ⟨-v.x, -v.y, -v.z, -v.w⟩
  calculateLengthSquared v := v.x * v.x + v.y * v.y + v.z * v.z + v.w * v.w
  dot a b := a.x * b.x + a.y * b.y + a.z * b.z + a.w * b.w

end Types

namespace Vectors

variable {K V ι : Type*} [Field K] [Fintype ι]

/-- **What vectors are**: columns, whose components are each operated on. -/
structure Componentwise (vectors : Vectors K V) (column : V → ι → K) : Prop where
  injective : Function.Injective column
  zero : column vectors.zero = 0
  splat : ∀ a i, column (vectors.splat a) i = a
  assign : ∀ op v w i, column (vectors.assign op v w) i = op.apply (column v i) (column w i)
  assignNumber : ∀ op v a i, column (vectors.assignNumber op v a) i = op.apply (column v i) a
  neg : ∀ v, column (vectors.neg v) = -column v
  calculateLengthSquared : ∀ v,
    vectors.calculateLengthSquared v = dotProduct (column v) (column v)
  dot : ∀ v w, vectors.dot v w = dotProduct (column v) (column w)

/-- **What vectors are for**: the operators with a number are those with a vector of it, lengths and
products are those of a Euclidean space, and distances those of a metric. -/
structure Euclidean [LinearOrder K] (vectors : Vectors K V) (sqrt : K → K) : Prop where
  operateNumber : ∀ op v a, vectors.operateNumber op v a = vectors.operate op v (vectors.splat a)
  neg : ∀ v, vectors.neg v = vectors.numberOperate .sub 0 v
  abs_dot_le : ∀ v w,
    |vectors.dot v w| ≤ vectors.calculateLength sqrt v * vectors.calculateLength sqrt w
  distance_eq_zero_iff : ∀ v w, vectors.distance sqrt v w = 0 ↔ v = w
  distance_comm : ∀ v w, vectors.distance sqrt v w = vectors.distance sqrt w v
  distance_triangle : ∀ u v w,
    vectors.distance sqrt u w ≤ vectors.distance sqrt u v + vectors.distance sqrt v w
  distance_add : ∀ u v w,
    vectors.distance sqrt (vectors.operate .add v u) (vectors.operate .add w u) =
      vectors.distance sqrt v w
  distance_mul : ∀ v w a,
    vectors.distance sqrt (vectors.operateNumber .mul v a) (vectors.operateNumber .mul w a) =
      |a| * vectors.distance sqrt v w
  /-- A vector is normalized to the one that is of length one and in its direction. -/
  eq_normalize_iff : ∀ v w, v ≠ vectors.zero → (w = vectors.normalize sqrt v ↔
    vectors.calculateLength sqrt w = 1 ∧ ∃ a, 0 < a ∧ v = vectors.operateNumber .mul w a)

namespace Componentwise

variable {vectors : Vectors K V} {column : V → ι → K} (h : vectors.Componentwise column)
include h

theorem column_add (v w : V) : column (vectors.operate .add v w) = column v + column w :=
  funext fun i => h.assign .add v w i

theorem column_sub (v w : V) : column (vectors.operate .sub v w) = column v - column w :=
  funext fun i => h.assign .sub v w i

theorem column_mul (v : V) (a : K) : column (vectors.operateNumber .mul v a) = a • column v :=
  funext fun i => (h.assignNumber .mul v a i).trans (mul_comm (column v i) a)

theorem calculateLength_eq (sqrt : K → K) (v : V) :
    vectors.calculateLength sqrt v = length sqrt (column v) :=
  congrArg sqrt (h.calculateLengthSquared v)

theorem distance_eq (sqrt : K → K) (v w : V) :
    vectors.distance sqrt v w = length sqrt (column v - column w) := by
  rw [Vectors.distance, h.calculateLength_eq, h.column_sub]

theorem eq_zero_iff (v : V) : v = vectors.zero ↔ column v = 0 := by
  rw [← h.injective.eq_iff, h.zero]

/-- Scaling twice is scaling by the product. -/
theorem operateNumber_mul_mul (v : V) (a b : K) :
    vectors.operateNumber .mul (vectors.operateNumber .mul v a) b =
      vectors.operateNumber .mul v (a * b) := by
  refine h.injective ?_
  rw [h.column_mul, h.column_mul, h.column_mul, smul_smul, mul_comm]

theorem operateNumber_mul_one (v : V) : vectors.operateNumber .mul v 1 = v := by
  refine h.injective ?_
  rw [h.column_mul, one_smul]

variable [LinearOrder K] [IsStrictOrderedRing K] {sqrt : K → K}

theorem calculateLength_pos (hsqrt : Root sqrt) {v : V} (hv : v ≠ vectors.zero) :
    0 < vectors.calculateLength sqrt v := by
  rw [h.calculateLength_eq]
  refine lt_of_le_of_ne (length_nonneg hsqrt _) fun hzero => hv ?_
  exact (h.eq_zero_iff v).mpr ((length_eq_zero_iff hsqrt).mp hzero.symm)

theorem calculateLength_mul (hsqrt : Root sqrt) (v : V) (a : K) :
    vectors.calculateLength sqrt (vectors.operateNumber .mul v a) =
      |a| * vectors.calculateLength sqrt v := by
  rw [h.calculateLength_eq, h.calculateLength_eq, h.column_mul, length_smul hsqrt]

/-- **A normalized vector** is the one of length one in the direction of the vector. -/
theorem eq_normalize_iff (hsqrt : Root sqrt) {v : V} (hv : v ≠ vectors.zero) (w : V) :
    w = vectors.normalize sqrt v ↔
      vectors.calculateLength sqrt w = 1 ∧ ∃ a, 0 < a ∧ v = vectors.operateNumber .mul w a := by
  have hpos := h.calculateLength_pos hsqrt hv
  constructor
  · rintro rfl
    unfold normalize
    refine ⟨?_, _, hpos, ?_⟩
    · rw [h.calculateLength_mul hsqrt, abs_of_pos (one_div_pos.mpr hpos),
        one_div_mul_cancel hpos.ne']
    · rw [h.operateNumber_mul_mul, one_div_mul_cancel hpos.ne', h.operateNumber_mul_one]
  · rintro ⟨hone, a, ha, rfl⟩
    unfold normalize
    rw [h.calculateLength_mul hsqrt, hone, abs_of_pos ha, mul_one, h.operateNumber_mul_mul,
      mul_one_div_cancel ha.ne', h.operateNumber_mul_one]

/-- **Vectors that are columns are a Euclidean space.** -/
theorem euclidean (hsqrt : Root sqrt) : vectors.Euclidean sqrt where
  operateNumber op v a := by
    refine h.injective (funext fun i => ?_)
    rw [Vectors.operateNumber, h.assignNumber, operate, h.assign, h.splat]
  neg v := by
    refine h.injective (funext fun i => ?_)
    rw [numberOperate, h.assign, h.splat, h.neg]
    exact (zero_sub (column v i)).symm
  abs_dot_le v w := by
    rw [h.dot, h.calculateLength_eq, h.calculateLength_eq]
    exact abs_dotProduct_le hsqrt _ _
  distance_eq_zero_iff v w := by
    rw [h.distance_eq, length_eq_zero_iff hsqrt, sub_eq_zero, h.injective.eq_iff]
  distance_comm v w := by
    rw [h.distance_eq, h.distance_eq, ← neg_sub, length_neg]
  distance_triangle u v w := by
    rw [h.distance_eq, h.distance_eq, h.distance_eq, ← sub_add_sub_cancel _ (column v)]
    exact length_add_le hsqrt _ _
  distance_add u v w := by
    rw [h.distance_eq, h.distance_eq, h.column_add, h.column_add, add_sub_add_right_eq_sub]
  distance_mul v w a := by
    rw [h.distance_eq, h.distance_eq, h.column_mul, h.column_mul, ← smul_sub, length_smul hsqrt]
  eq_normalize_iff v w hv := h.eq_normalize_iff hsqrt hv w

end Componentwise

end Vectors

section Columns

variable {K : Type*} [Field K]

theorem componentwise_vector2 : (vector2 K).Componentwise fun v => ![v.x, v.y] where
  injective v w h := by
    cases v
    cases w
    simpa using h
  zero := by simp [vector2]
  splat a i := by fin_cases i <;> rfl
  assign op v w i := by fin_cases i <;> rfl
  assignNumber op v a i := by fin_cases i <;> rfl
  neg v := by simp [vector2]
  calculateLengthSquared v := by simp [vector2, dotProduct, Fin.sum_univ_succ]
  dot v w := by simp [vector2, dotProduct, Fin.sum_univ_succ]

theorem componentwise_vector3 : (vector3 K).Componentwise fun v => ![v.x, v.y, v.z] where
  injective v w h := by
    cases v
    cases w
    simpa using h
  zero := by simp [vector3]
  splat a i := by fin_cases i <;> rfl
  assign op v w i := by fin_cases i <;> rfl
  assignNumber op v a i := by fin_cases i <;> rfl
  neg v := by simp [vector3]
  calculateLengthSquared v := by
    simp [vector3, Vector3.calculateLengthSquared, dotProduct, Fin.sum_univ_succ, add_assoc]
  dot v w := by simp [vector3, dotProduct, Fin.sum_univ_succ, add_assoc]

theorem componentwise_vector4 : (vector4 K).Componentwise Vector4.toColumn where
  injective v w h := by
    cases v
    cases w
    simpa [Vector4.toColumn] using h
  zero := by simp [vector4, Vector4.toColumn]
  splat a i := by fin_cases i <;> rfl
  assign op v w i := by fin_cases i <;> rfl
  assignNumber op v a i := by fin_cases i <;> rfl
  neg v := by simp [vector4, Vector4.toColumn]
  calculateLengthSquared v := by
    simp [vector4, Vector4.toColumn, dotProduct, Fin.sum_univ_succ, add_assoc]
  dot v w := by simp [vector4, Vector4.toColumn, dotProduct, Fin.sum_univ_succ, add_assoc]

/-- **The vectors of each type are a Euclidean space.** -/
theorem vectors_euclidean [LinearOrder K] [IsStrictOrderedRing K] {sqrt : K → K}
    (hsqrt : Root sqrt) : (vector2 K).Euclidean sqrt ∧ (vector3 K).Euclidean sqrt ∧
      (vector4 K).Euclidean sqrt :=
  ⟨componentwise_vector2.euclidean hsqrt, componentwise_vector3.euclidean hsqrt,
    componentwise_vector4.euclidean hsqrt⟩

end Columns

/-- The root of the reals. -/
theorem root_real : Root Real.sqrt := fun a ha => ⟨Real.sqrt_nonneg a, Real.mul_self_sqrt ha⟩

/-- In the plane the way by the corner is no shorter than the straight one, which is of length
five. -/
theorem vectors_euclidean_plane :
    5 ≤ (vector2 ℝ).distance Real.sqrt ⟨0, 0⟩ ⟨3, 0⟩ +
      (vector2 ℝ).distance Real.sqrt ⟨3, 0⟩ ⟨3, 4⟩ := by
  have hstraight : (vector2 ℝ).distance Real.sqrt ⟨0, 0⟩ ⟨3, 4⟩ = 5 := by
    rw [componentwise_vector2.distance_eq]
    refine length_eq root_real (by norm_num) ?_
    norm_num [dotProduct, Fin.sum_univ_succ]
  rw [← hstraight]
  exact (vectors_euclidean root_real).1.distance_triangle _ _ _

end Hologine.Math
