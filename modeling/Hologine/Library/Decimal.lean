import Hologine.Library.Numeral
import Mathlib.Algebra.Order.Field.Power
import Mathlib.Data.Int.Log
import Mathlib.Data.List.TakeWhile
import Mathlib.Data.Nat.Cast.Field
import Mathlib.Data.Rat.Floor
import Mathlib.Tactic.FieldSimp
import Mathlib.Tactic.Linarith

/-!
# Decimals

Numbers in text with digits behind a point, in plain and in scientific notation. What is written is
`n / 10 ^ p`, where `n` is rounded to the nearest whole number.

* `readNumber_decimals`, `readNumber_scientific`: a number is read back as what was written, with or
  without the zeros at its end.
* `scientific_near`: the digits in scientific notation are the number within half a unit of the last
  of them.
* `round_scientific`: the same digits come of rounding at the place where they end.
-/

namespace Hologine.Library.Decimal

open Hologine.Library.Numeral

/-! ## Text -/

/-- The last `p` digits of a number, the last one first. -/
def lastDigits (p n : ℕ) : List ℕ := (List.range p).map fun i => n / 10 ^ i % 10

/-- The digits of `n / 10 ^ p` behind the point, the last one first. The zeros at their end are
kept or not. -/
def fraction (keep : Bool) (p n : ℕ) : List ℕ :=
  if keep then lastDigits p n else (lastDigits p n).dropWhile (· = 0)

/-- `n / 10 ^ p`, if need be with a point that no digits are behind. -/
def decimals (keep point : Bool) (p n : ℕ) : List UInt8 :=
  let digits := fraction keep p n
  numeral 10 false (n / 10 ^ p) ++
    if digits = [] ∧ ¬ point then [] else 46 :: (digits.map (digitChar false)).reverse

/-- An exponent, of two digits at least. -/
def exponentText (upper : Bool) (e : ℤ) : List UInt8 :=
  let digits := numeral 10 false e.natAbs
  (if upper then 69 else 101) :: (if e < 0 then 45 else 43) ::
    (List.replicate (2 - digits.length) (digitChar false 0) ++ digits)

/-- The number at the front of a text, which may have digits behind a point, and the rest. -/
def readDecimals (text : List UInt8) : ℚ × List UInt8 :=
  let (n, text) := readDigits 10 0 text
  if text.head? = some 46 then
    let (n, rest) := readDigits 10 n text.tail
    (n / 10 ^ (text.tail.length - rest.length), rest)
  else (n, text)

/-- The exponent at the front of a text, if there is one with digits, and the rest. -/
def readExponent (text : List UInt8) : ℤ × List UInt8 :=
  if text.head? = some 69 ∨ text.head? = some 101 then
    let sign := text.tail.head?
    let digits := if sign = some 43 ∨ sign = some 45 then text.tail.tail else text.tail
    let (e, rest) := readDigits 10 0 digits
    if rest = digits then (0, text) else (if sign = some 45 then -e else e, rest)
  else (0, text)

/-- The number at the front of a text, which may have an exponent, and the rest. -/
def readNumber (text : List UInt8) : ℚ × List UInt8 :=
  let (q, text) := readDecimals text
  let (e, rest) := readExponent text
  (q * 10 ^ e, rest)

/-! ## Reading what is written -/

variable {p n : ℕ} {rest : List UInt8}

theorem ofDigits_lastDigits (p n : ℕ) : Nat.ofDigits 10 (lastDigits p n) = n % 10 ^ p := by
  induction p with
  | zero => simp [lastDigits, Nat.mod_one]
  | succ p ih =>
    have hsucc : lastDigits (p + 1) n = lastDigits p n ++ [n / 10 ^ p % 10] := by
      simp [lastDigits, List.range_succ]
    have hlength : (lastDigits p n).length = p := by simp [lastDigits]
    rw [hsucc, Nat.ofDigits_append, ih, hlength, Nat.ofDigits_singleton, Nat.mod_pow_succ]

/-- The digits behind the point are those of the number but for some zeros. -/
theorem fraction_spec (keep : Bool) (p n : ℕ) : ∃ k, k + (fraction keep p n).length = p ∧
    10 ^ k * Nat.ofDigits 10 (fraction keep p n) = n % 10 ^ p ∧
    ∀ d ∈ fraction keep p n, d < 10 := by
  have hlength : (lastDigits p n).length = p := by simp [lastDigits]
  have hlt : ∀ d ∈ lastDigits p n, d < 10 := by
    intro d hd
    obtain ⟨i, -, rfl⟩ := List.mem_map.mp hd
    exact Nat.mod_lt _ (by decide)
  cases keep with
  | true => exact ⟨0, by rw [Nat.zero_add]; exact hlength,
      by rw [pow_zero, one_mul]; exact ofDigits_lastDigits p n, hlt⟩
  | false =>
    have hsplit := List.takeWhile_append_dropWhile (p := fun d : ℕ => decide (d = 0))
      (l := lastDigits p n)
    have hzeros : (lastDigits p n).takeWhile (fun d => decide (d = 0)) =
        List.replicate ((lastDigits p n).takeWhile fun d => decide (d = 0)).length 0 :=
      List.eq_replicate_of_mem fun d hd =>
        of_decide_eq_true (List.mem_takeWhile_imp (p := fun d => decide (d = 0)) hd)
    have hsum := congrArg List.length hsplit
    have hofDigits := ofDigits_lastDigits p n
    rw [List.length_append, hlength] at hsum
    rw [← hsplit, Nat.ofDigits_append, hzeros, Nat.ofDigits_replicate_zero, Nat.zero_add,
      List.length_replicate] at hofDigits
    exact ⟨_, hsum, hofDigits, fun d hd => hlt d ((List.dropWhile_suffix _).mem hd)⟩

theorem readDecimals_whole {text : List UInt8} {m : ℕ} (h : readDigits 10 0 text = (m, rest))
    (hno : rest.head? ≠ some 46) : readDecimals text = ((m : ℚ), rest) := by
  simp [readDecimals, h, hno]

theorem readDecimals_point {text digits : List UInt8} {m m' : ℕ}
    (h : readDigits 10 0 text = (m, 46 :: digits)) (h' : readDigits 10 m digits = (m', rest)) :
    readDecimals text = ((m' : ℚ) / 10 ^ (digits.length - rest.length), rest) := by
  simp [readDecimals, h, h']

theorem readDecimals_decimals (keep point : Bool) (p n : ℕ)
    (hrest : ∀ c ∈ rest.head?, ¬ IsDigit 10 c ∧ c ≠ 46) :
    readDecimals (decimals keep point p n ++ rest) = ((n : ℚ) / 10 ^ p, rest) := by
  obtain ⟨k, hlength, hvalue, hlt⟩ := fraction_spec keep p n
  have hwhole {rest : List UInt8} (hrest : ∀ c ∈ rest.head?, ¬ IsDigit 10 c) :
      readDigits 10 0 (numeral 10 false (n / 10 ^ p) ++ rest) = (n / 10 ^ p, rest) :=
    readDigits_numeral (by decide) (by decide) false 0 (n / 10 ^ p) hrest
  have hn := Nat.div_add_mod n (10 ^ p)
  have hstop : ∀ c ∈ rest.head?, ¬ IsDigit 10 c := fun c hc => (hrest c hc).1
  unfold decimals
  dsimp only
  generalize fraction keep p n = digits at hlength hvalue hlt
  by_cases hempty : digits = [] ∧ ¬ point
  · -- nothing is behind the whole number
    have hno : rest.head? ≠ some 46 := fun h => (hrest 46 h).2 rfl
    rw [if_pos hempty, List.append_nil, readDecimals_whole (hwhole hstop) hno]
    rw [hempty.1] at hvalue
    have hzero : n % 10 ^ p = 0 := hvalue.symm
    rw [Nat.cast_div (Nat.dvd_of_mod_eq_zero hzero) (by positivity), Nat.cast_pow, Nat.cast_ofNat]
  · have hpoint : ∀ c ∈ (46 :: ((digits.map (digitChar false)).reverse ++ rest)).head?,
        ¬ IsDigit 10 c := by
      intro c hc
      cases hc
      decide
    have hread : readDigits 10 (n / 10 ^ p) ((digits.map (digitChar false)).reverse ++ rest) =
        (10 ^ digits.length * (n / 10 ^ p) + Nat.ofDigits 10 digits, rest) := by
      rw [readDigits_digits (by decide) false _ hlt, readDigits_of_stops hstop]
    -- the zeros that are left out are a factor of both sides
    have hfactor : n = 10 ^ k * (10 ^ digits.length * (n / 10 ^ p) + Nat.ofDigits 10 digits) := by
      rw [Nat.mul_add, ← Nat.mul_assoc, ← pow_add, hlength, hvalue, hn]
    have hpow : (10 : ℚ) ^ p = 10 ^ k * 10 ^ digits.length := by rw [← pow_add, hlength]
    have hcast := congrArg (Nat.cast (R := ℚ)) hfactor
    rw [if_neg hempty, List.append_assoc, List.cons_append,
      readDecimals_point (hwhole hpoint) hread, List.length_append, Nat.add_sub_cancel,
      List.length_reverse, List.length_map, hpow, hcast, Nat.cast_mul, Nat.cast_pow,
      Nat.cast_ofNat, mul_div_mul_left _ _ (by positivity)]

theorem readExponent_exponentText (upper : Bool) (e : ℤ) :
    readExponent (exponentText upper e) = (e, []) := by
  have hdigits := readDigits_numeral (by decide : 10 ≤ 16) (by decide) false
    (2 - (numeral 10 false e.natAbs).length) e.natAbs
    (show ∀ c ∈ ([] : List UInt8).head?, ¬ IsDigit 10 c from fun c hc => by cases hc)
  rw [List.append_nil] at hdigits
  have hne : [] ≠ List.replicate (2 - (numeral 10 false e.natAbs).length) (digitChar false 0) ++
      numeral 10 false e.natAbs := fun h =>
    numeral_ne_nil 10 false e.natAbs (List.append_eq_nil_iff.mp h.symm).2
  unfold readExponent exponentText
  by_cases hneg : e < 0
  · simp [hneg, hdigits, hne, abs_of_neg hneg]
  · simp [hneg, hdigits, hne, Int.not_lt.mp hneg]

/-- **A number in plain notation is read back.** -/
theorem readNumber_decimals (keep point : Bool) (p n : ℕ) :
    readNumber (decimals keep point p n) = ((n : ℚ) / 10 ^ p, []) := by
  have h : readDecimals (decimals keep point p n ++ []) = ((n : ℚ) / 10 ^ p, []) :=
    readDecimals_decimals keep point p n fun c hc => by cases hc
  rw [List.append_nil] at h
  simp [readNumber, h, readExponent]

/-- **A number in scientific notation is read back.** -/
theorem readNumber_scientific (keep point upper : Bool) (p n : ℕ) (e : ℤ) :
    readNumber (decimals keep point p n ++ exponentText upper e) =
      ((n : ℚ) * 10 ^ (e - p), []) := by
  have h : readDecimals (decimals keep point p n ++ exponentText upper e) =
      ((n : ℚ) / 10 ^ p, exponentText upper e) :=
    readDecimals_decimals keep point p n fun c hc => by
      cases upper <;> cases hc <;> decide
  simp only [readNumber, h, readExponent_exponentText]
  rw [zpow_sub₀ (by norm_num), zpow_natCast]
  congr 1
  field_simp

/-! ## Digits -/

/-- A rounding to the nearest whole number. -/
def Nearest (round : ℚ → ℕ) : Prop := ∀ q, 0 ≤ q → |(round q : ℚ) - q| ≤ 1 / 2

/-- The digits of a number in scientific notation, `p` of them behind the point, and the
exponent. -/
def scientific (round : ℚ → ℕ) (p : ℕ) (q : ℚ) : ℕ × ℤ :=
  if q = 0 then (0, 0)
  else
    let e := Int.log 10 q
    let n := round (q * 10 ^ (p - e))
    if n = 10 ^ (p + 1) then (10 ^ p, e + 1) else (n, e)

variable {round : ℚ → ℕ} {q : ℚ}

/-- A whole number that is near enough is the nearest. -/
theorem Nearest.eq_of_near (h : Nearest round) (hq : 0 ≤ q) (hnear : |q - n| < 1 / 2) :
    round q = n := by
  have htriangle := abs_sub_le (round q : ℚ) q n
  have hlt : |((round q : ℤ) : ℚ) - ((n : ℤ) : ℚ)| < 1 := by
    push_cast
    linarith [h q hq]
  have hint : |(round q : ℤ) - n| < 1 := by exact_mod_cast hlt
  have hzero := Int.abs_lt_one_iff.mp hint
  omega

theorem Nearest.zero (h : Nearest round) : round 0 = 0 :=
  h.eq_of_near (n := 0) le_rfl (by norm_num)

/-- **Rounded at a place, a number is within half a unit of it.** -/
theorem Nearest.near (h : Nearest round) (hq : 0 ≤ q) (place : ℤ) :
    |(round (q * 10 ^ place) : ℚ) * 10 ^ (-place) - q| ≤ 1 / 2 * 10 ^ (-place) := by
  have hpos : (0 : ℚ) < 10 ^ (-place) := by positivity
  have hcancel : (10 : ℚ) ^ place * 10 ^ (-place) = 1 := by
    rw [← zpow_add₀ (by norm_num), add_neg_cancel, zpow_zero]
  have hfactor : (round (q * 10 ^ place) : ℚ) * 10 ^ (-place) - q =
      (round (q * 10 ^ place) - q * 10 ^ place) * 10 ^ (-place) := by
    rw [sub_mul, mul_assoc q, hcancel, mul_one]
  rw [hfactor, abs_mul, abs_of_pos hpos]
  exact mul_le_mul_of_nonneg_right (h _ (by positivity)) hpos.le

/-- The digits in scientific notation are those that come of rounding at a place; when there is one
more, they are a power of ten. -/
theorem scientific_cases (round : ℚ → ℕ) (p : ℕ) (q : ℚ) :
    q = 0 ∧ scientific round p q = (0, 0) ∨
      scientific round p q = (round (q * 10 ^ (p - Int.log 10 q)), Int.log 10 q) ∨
      round (q * 10 ^ (p - Int.log 10 q)) = 10 ^ (p + 1) ∧
        scientific round p q = (10 ^ p, Int.log 10 q + 1) := by
  unfold scientific
  dsimp only
  split_ifs with hzero hcarry
  · exact .inl ⟨hzero, rfl⟩
  · exact .inr (.inr ⟨hcarry, rfl⟩)
  · exact .inr (.inl rfl)

/-- **The digits in scientific notation are the number** within half a unit of the last of them. -/
theorem scientific_near (h : Nearest round) (hq : 0 ≤ q) (p : ℕ) :
    |((scientific round p q).1 : ℚ) * 10 ^ ((scientific round p q).2 - p) - q| ≤
      1 / 2 * 10 ^ (Int.log 10 q - p) := by
  have hnear := h.near hq (p - Int.log 10 q)
  rw [neg_sub] at hnear
  rcases scientific_cases round p q with ⟨rfl, heq⟩ | heq | ⟨hcarry, heq⟩
  · rw [heq]
    simp only [Nat.cast_zero, zero_mul, sub_zero, abs_zero]
    positivity
  · rw [heq]
    exact hnear
  · have hsame : (10 : ℚ) ^ p * 10 ^ (Int.log 10 q + 1 - p) =
        10 ^ (p + 1) * 10 ^ (Int.log 10 q - p) := by
      rw [← zpow_natCast, ← zpow_natCast, ← zpow_add₀ (by norm_num), ← zpow_add₀ (by norm_num)]
      congr 1
      push_cast
      ring
    rw [hcarry] at hnear
    rw [heq]
    push_cast at hnear ⊢
    rw [hsame]
    exact hnear

/-- **Rounding at the place where the digits in scientific notation end** gives the same digits. -/
theorem round_scientific (h : Nearest round) (hq : 0 ≤ q) (p : ℕ) :
    round (q * 10 ^ (p - (scientific round p q).2)) = (scientific round p q).1 := by
  rcases scientific_cases round p q with ⟨rfl, heq⟩ | heq | ⟨hcarry, heq⟩
  · rw [heq, zero_mul]
    exact h.zero
  · rw [heq]
  · -- a tenth of what is within a half of a power of ten
    have hnear := h (q * 10 ^ (p - Int.log 10 q)) (by positivity)
    have htenth : q * 10 ^ (p - (Int.log 10 q + 1)) = q * 10 ^ (p - Int.log 10 q) / 10 := by
      rw [← sub_sub, zpow_sub_one₀ (by norm_num)]
      ring
    rw [heq]
    refine h.eq_of_near (by positivity) ?_
    rw [hcarry] at hnear
    rw [htenth]
    push_cast at hnear ⊢
    rw [abs_le] at hnear
    rw [abs_lt]
    have hpow : (10 : ℚ) ^ (p + 1) = 10 * 10 ^ p := pow_succ' 10 p
    constructor <;> linarith [hnear.1, hnear.2]

end Hologine.Library.Decimal
