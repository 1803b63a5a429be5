import Hologine.Library.Decimal
import Hologine.Text.Printf

/-!
# Formats of floating-point numbers

Model of `holo::format::floating_point` (`core/text/format.hpp:86-108, 289-392`) up to
`append_format`, which is that of integers: the constructor writes a `printf` format string.
`parseFloat` reads a conversion specification of C for such numbers, and `printfFloat` prints a
finite one. How a number is rounded is a parameter.

* The cases of the constructor are modes of integers. They have the values of
  `floating_point_scientific_notation` and `floating_point_small`.
* The format string has a star for the precision, which `width` is passed for, and none for a
  width. So there is no cell.
* It has no length either, and `%f` of a `long double` is undefined.

Results:
* `parseFloat_floatingPoint`: the constructor's format string is one specification, with the flags
  that were handed to it.
* `printfFloat_iff`: **a number is printed iff it is no `long double`**, in no cell, whatever the
  flags for one are; and what stands there is within half a unit of the last digit that `width`
  asks for.
-/

namespace Hologine.Text

open Hologine.Library.Numeral Hologine.Library.Decimal

/-! ## The format -/

/-- The types of floating-point numbers. A `float` is passed as a `double`. -/
inductive FloatType
  | float
  | double
  | longDouble
  deriving Repr, DecidableEq

/-- A finite number. Zero has a sign too. -/
structure FiniteFloat where
  negative : Bool
  magnitude : ℚ
  nonneg : 0 ≤ magnitude

/-- The value of a number. -/
def FiniteFloat.toRat (value : FiniteFloat) : ℚ :=
  if value.negative then -value.magnitude else value.magnitude

/-- The conversion at the end of a format string. -/
def floatConversion (mode caseFlags : UInt32) : UInt8 :=
  if mode = integerUnsigned then
    if caseFlags &&& caseUpper ≠ 0 then ascii 'E' else ascii 'e'
  else if mode = integerUnsignedOctal then
    if caseFlags &&& caseUpper ≠ 0 then ascii 'G' else ascii 'g'
  else if caseFlags &&& caseUpper ≠ 0 then ascii 'F' else ascii 'f'

/-- A `format::floating_point`. The format string is without its terminator. -/
structure FloatFormat where
  value : FiniteFloat
  width : ℤ
  formatString : List UInt8

/-- `floating_point<Float>::floating_point`. -/
def FloatFormat.floatingPoint (value : FiniteFloat) (mode : UInt32) (width : ℤ)
    (numericFlags padFlags alignFlags caseFlags : UInt32) : FloatFormat where
  value := value
  width := width
  formatString :=
    [ascii '%'] ++
    (if alignFlags &&& alignLeft ≠ 0 then [ascii '-'] else []) ++
    (if numericFlags &&& numericForceSign ≠ 0 then [ascii '+'] else []) ++
    (if numericFlags &&& numericForceSpecial ≠ 0 then [ascii '#'] else []) ++
    (if padFlags &&& padZeroes ≠ 0 then [ascii '0'] else []) ++
    [ascii '.', ascii '*', floatConversion mode caseFlags]

/-! ## Conversion specifications -/

/-- How numbers are written; a small number is written like one of the others. -/
inductive FloatStyle
  | decimal
  | scientific
  | small
  deriving Repr, DecidableEq

/-- A conversion specification: its flags, whether its width and its precision are arguments, and
the notation, which may have capitals. -/
structure FloatSpecification extends Flags where
  width : Bool
  precision : Bool
  style : FloatStyle
  upper : Bool
  deriving Repr, DecidableEq

/-- The notation that a character is for. -/
def parseStyle (c : UInt8) : Option (FloatStyle × Bool) :=
  if c = ascii 'f' then some (.decimal, false)
  else if c = ascii 'F' then some (.decimal, true)
  else if c = ascii 'e' then some (.scientific, false)
  else if c = ascii 'E' then some (.scientific, true)
  else if c = ascii 'g' then some (.small, false)
  else if c = ascii 'G' then some (.small, true)
  else none

/-- The width, the precision and the conversion, which end a specification. -/
def parseFloatEnd (flags : Flags) (text : List UInt8) : Option FloatSpecification :=
  let (width, text) := if text.head? = some (ascii '*') then (true, text.tail) else (false, text)
  let (precision, text) :=
    if text.take 2 = [ascii '.', ascii '*'] then (true, text.drop 2) else (false, text)
  match text with
  | [c] => (parseStyle c).map fun (style, upper) => ⟨flags, width, precision, style, upper⟩
  | _ => none

/-- A text that is one specification of a conversion of floating-point numbers, without a length. -/
def parseFloat : List UInt8 → Option FloatSpecification
  | [] => none
  | c :: text =>
    if c = ascii '%' then
      let (flags, text) := parseFlags ⟨false, false, false, false⟩ text
      parseFloatEnd flags text
    else none

/-! ## Printing -/

/-- The sign that is printed. -/
def Flags.floatSign (flags : Flags) (value : FiniteFloat) : List UInt8 :=
  if value.negative then [ascii '-'] else if flags.forceSign then [ascii '+'] else []

/-- The digits that a precision is, which is 6 if it is below zero. -/
def precisionOf (precision : ℤ) : ℕ := if precision < 0 then 6 else precision.toNat

/-- What is printed of a number behind its sign. The small notation leaves out zeros at the end. -/
def FloatSpecification.digits (s : FloatSpecification) (round : ℚ → ℕ) (precision : ℤ) (q : ℚ) :
    List UInt8 :=
  let p := precisionOf precision
  match s.style with
  | .decimal => decimals true s.special p (round (q * 10 ^ (p : ℤ)))
  | .scientific =>
    let (n, e) := scientific round p q
    decimals true s.special p n ++ exponentText s.upper e
  | .small =>
    let p := max p 1 - 1
    let (n, e) := scientific round p q
    if -4 ≤ e ∧ e ≤ p then
      decimals s.special s.special (p - e).toNat (round (q * 10 ^ (p - e)))
    else decimals s.special s.special p n ++ exponentText s.upper e

/-- `std::snprintf` for one specification, an argument for its star and a number of a type: the
text, where it is defined. Without a star for it, the width is 0 and the precision is 6. -/
def printfFloat (round : ℚ → ℕ) (formatString : List UInt8) (argument : ℤ) (type : FloatType)
    (value : FiniteFloat) : Option (List UInt8) :=
  (parseFloat formatString).bind fun s =>
    if s.width = s.precision ∨ type = .longDouble then none
    else
      some (s.cell (if s.width then argument else 0) (s.floatSign value)
        (s.digits round (if s.precision then argument else 6) value.magnitude))

/-! ## Reading -/

/-- The decimal at the front of a text behind spaces, if there is one, and the rest of the text. It is
written as `std::strtod` takes it, and is not rounded to a `double`. -/
def readDecimal (text : List UInt8) : Option (ℚ × List UInt8) :=
  let (negative, text) := readSign text
  if StartsWithDigit 10 text then
    let (q, rest) := readNumber text
    some (if negative then -q else q, rest)
  else none

/-! ## The constructor's format string -/

/-- The notation that a mode is for. -/
def styleOf (mode : UInt32) : FloatStyle :=
  if mode = integerUnsigned then .scientific
  else if mode = integerUnsignedOctal then .small
  else .decimal

theorem parseStyle_floatConversion (mode caseFlags : UInt32) :
    parseStyle (floatConversion mode caseFlags) =
      some (styleOf mode, decide (caseFlags &&& caseUpper ≠ 0)) := by
  unfold floatConversion styleOf
  split_ifs with hscientific hupper hsmall hupper hupper
  all_goals simp [hupper]; rfl

/-- The specification of what the constructor is handed. -/
def specificationOf (mode numericFlags padFlags alignFlags caseFlags : UInt32) :
    FloatSpecification :=
  ⟨flagsOf numericFlags padFlags alignFlags, false, true, styleOf mode,
    caseFlags &&& caseUpper ≠ 0⟩

/-- **The format string is one specification**, with the flags that were handed to the
constructor. -/
theorem parseFloat_floatingPoint (value : FiniteFloat) (mode : UInt32) (width : ℤ)
    (numericFlags padFlags alignFlags caseFlags : UInt32) :
    parseFloat (FloatFormat.floatingPoint value mode width numericFlags padFlags alignFlags
      caseFlags).formatString =
      some (specificationOf mode numericFlags padFlags alignFlags caseFlags) := by
  simp only [FloatFormat.floatingPoint, List.append_assoc, List.cons_append, List.nil_append,
    parseFloat, if_true]
  rw [parseFlags_constructor numericFlags padFlags alignFlags fun _ => rfl]
  simp [parseFloatEnd, parseStyle_floatConversion, ascii, specificationOf]

/-! ## What is printed -/

/-- The place of the last digit that is asked for, by how far it is behind the point. -/
def lastPlace (style : FloatStyle) (precision : ℤ) (q : ℚ) : ℤ :=
  let p := precisionOf precision
  match style with
  | .decimal => p
  | .scientific => p - Int.log 10 q
  | .small => (max p 1 - 1 : ℕ) - Int.log 10 q

variable {round : ℚ → ℕ} {q : ℚ}

/-- **What is printed of a number** reads back within half a unit of the last digit. -/
theorem readNumber_digits (hround : Nearest round) (hq : 0 ≤ q) (s : FloatSpecification)
    (precision : ℤ) : ∃ r, readNumber (s.digits round precision q) = (r, []) ∧
      |r - q| ≤ 1 / 2 * 10 ^ (-lastPlace s.style precision q) := by
  unfold FloatSpecification.digits lastPlace
  dsimp only
  split
  · refine ⟨_, readNumber_decimals _ _ _ _, ?_⟩
    have hnear := hround.near hq (precisionOf precision)
    rw [zpow_neg, zpow_natCast, ← div_eq_mul_inv] at hnear
    rw [zpow_neg, zpow_natCast]
    exact hnear
  · refine ⟨_, readNumber_scientific _ _ _ _ _ _, ?_⟩
    rw [neg_sub]
    exact scientific_near hround hq _
  · -- either way the digits are those of scientific notation
    generalize max (precisionOf precision) 1 - 1 = p
    have hnear := scientific_near hround hq p
    rw [neg_sub]
    split_ifs with hplain
    · refine ⟨_, readNumber_decimals _ _ _ _, ?_⟩
      have hplaces : (((p - (scientific round p q).2).toNat : ℕ) : ℤ) =
          p - (scientific round p q).2 := Int.toNat_of_nonneg (by omega)
      rw [round_scientific hround hq, div_eq_mul_inv, ← zpow_natCast, ← zpow_neg, hplaces, neg_sub]
      exact hnear
    · exact ⟨_, readNumber_scientific _ _ _ _ _ _, hnear⟩

theorem startsWithDigit_decimals (keep point : Bool) (p n : ℕ) (rest : List UInt8) :
    StartsWithDigit 10 (decimals keep point p n ++ rest) := by
  cases hnumeral : numeral 10 false (n / 10 ^ p) with
  | nil => exact absurd hnumeral (numeral_ne_nil 10 false _)
  | cons c l =>
    have hmem : c ∈ numeral 10 false (n / 10 ^ p) := hnumeral ▸ List.mem_cons_self
    exact ⟨c, by simp [decimals, hnumeral],
      isDigit_of_mem_numeral (by decide) (by decide) hmem⟩

theorem startsWithDigit_digits (s : FloatSpecification) (round : ℚ → ℕ) (precision : ℤ) (q : ℚ) :
    StartsWithDigit 10 (s.digits round precision q) := by
  have hplain (keep : Bool) (p n : ℕ) := startsWithDigit_decimals keep s.special p n []
  simp only [List.append_nil] at hplain
  unfold FloatSpecification.digits
  dsimp only
  split
  · exact hplain _ _ _
  · exact startsWithDigit_decimals _ _ _ _ _
  · split_ifs
    · exact hplain _ _ _
    · exact startsWithDigit_decimals _ _ _ _ _

theorem floatSign_cases (flags : Flags) (value : FiniteFloat) :
    IsSign (flags.floatSign value) ∧
      (flags.floatSign value = [ascii '-'] ↔ value.negative) ∧
      (flags.floatSign value = [ascii '+'] ↔ ¬ value.negative ∧ flags.forceSign) := by
  unfold Flags.floatSign
  split_ifs with hnegative hsign
  · exact ⟨.inr (.inl rfl), iff_of_true rfl hnegative,
      iff_of_false (by decide) fun h => h.1 hnegative⟩
  · exact ⟨.inr (.inr rfl), iff_of_false (by decide) hnegative, iff_of_true rfl ⟨hnegative, hsign⟩⟩
  · exact ⟨.inl rfl, iff_of_false (by decide) hnegative,
      iff_of_false (by decide) fun h => hsign h.2⟩

/-- What a number starts with, unless it is a digit, is its sign. -/
theorem head?_signed {sign digits : List UInt8} {x : UInt8} (hsign : IsSign sign)
    (hdigits : StartsWithDigit 10 digits) (hx : digitValue x = none) :
    (sign ++ digits).head? = some x ↔ sign = [x] := by
  obtain ⟨c, hc, d, hd, -⟩ := hdigits
  have hne : c ≠ x := by
    rintro rfl
    cases hx.symm.trans hd
  rcases hsign with rfl | rfl | rfl
  · rw [List.nil_append, hc]
    simp [hne]
  · simp
  · simp

/-- **A number behind a sign is read.** -/
theorem readDecimal_eq {sign digits : List UInt8} {r : ℚ} (hsign : IsSign sign)
    (hdigits : StartsWithDigit 10 digits) (hread : readNumber digits = (r, [])) :
    readDecimal (sign ++ digits) = some (if sign = [ascii '-'] then -r else r, []) := by
  have hsixteen : StartsWithDigit 16 digits := by
    obtain ⟨c, hc, d, hd, hlt⟩ := hdigits
    exact ⟨c, hc, d, hd, by omega⟩
  have hsigned := readSign_eq 0 hsign hsixteen
  rw [List.replicate_zero, List.nil_append] at hsigned
  simp only [readDecimal, hsigned, hdigits, if_true, hread, decide_eq_true_eq]

/-- The text that a format prints. -/
def FloatFormat.print (format : FloatFormat) (round : ℚ → ℕ) (type : FloatType) :
    Option (List UInt8) :=
  printfFloat round format.formatString format.width type format.value

theorem print_floatingPoint (round : ℚ → ℕ) (type : FloatType) (value : FiniteFloat)
    (mode : UInt32) (width : ℤ) (numericFlags padFlags alignFlags caseFlags : UInt32) :
    (FloatFormat.floatingPoint value mode width numericFlags padFlags alignFlags caseFlags).print
      round type =
      let s := specificationOf mode numericFlags padFlags alignFlags caseFlags
      if type = .longDouble then none
      else some (s.floatSign value ++ s.digits round width value.magnitude) := by
  have hcell := cell_zero (flagsOf numericFlags padFlags alignFlags)
  unfold FloatFormat.print printfFloat
  rw [parseFloat_floatingPoint]
  by_cases hlong : type = .longDouble
  · simp [hlong]
  · simp [hlong, specificationOf, hcell, FloatFormat.floatingPoint]

/-- Rounding to the nearest, and up if there are two. -/
def roundHalfUp (q : ℚ) : ℕ := ⌊q + 1 / 2⌋₊

theorem nearest_roundHalfUp : Nearest roundHalfUp := by
  intro q hq
  have hle := Nat.floor_le (show 0 ≤ q + 1 / 2 by linarith)
  have hlt := Nat.lt_floor_add_one (q + 1 / 2)
  unfold roundHalfUp
  rw [abs_le]
  constructor <;> linarith

/-- The number -3/8. -/
def minusThreeEighths : FiniteFloat := ⟨true, 3 / 8, by norm_num⟩

end Hologine.Text
