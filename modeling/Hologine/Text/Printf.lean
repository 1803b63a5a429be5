import Hologine.Library.Numeral
import Hologine.Text.Format

/-!
# What a formatted integer prints

The format strings of `format::integer` (`core/text/format.hpp:163-267`) as `std::snprintf` takes
them: `parse` reads a conversion specification of C, and `printf` prints an integer for one. The
bits of a `long` are a parameter.

* The constructor takes any mode for any type. An argument that is not a value of the type that the
  conversion expects, and `#` before `d` or `u`, are undefined.

Results:
* `parse_integer`: the constructor's format string is one specification, with the flags that were
  handed to it.
* `printf_integer_iff`: **an integer is printed iff it is a value of the conversion's type**, and
  the special form is asked for in octal and hexadecimal only; then the text is in a cell of the
  width, and its digits are those of the integer.
-/

namespace Hologine.Text

open Hologine.Library.Numeral

/-! ## Conversion specifications -/

/-- The conversions of integers. -/
inductive Conversion
  | signed
  | unsigned
  | octal
  | hexadecimal (upper : Bool)
  deriving Repr, DecidableEq

/-- The flags of a conversion specification. -/
structure Flags where
  alignLeft : Bool
  forceSign : Bool
  special : Bool
  zeroes : Bool
  deriving Repr, DecidableEq

/-- A conversion specification: its flags, whether its width is an argument, the length of its
argument and the conversion. -/
structure Specification extends Flags where
  width : Bool
  length : List UInt8
  conversion : Conversion
  deriving Repr, DecidableEq

/-- The flags with one more, if the character is one. -/
def Flags.flag (flags : Flags) (c : UInt8) : Option Flags :=
  if c = ascii '-' then some { flags with alignLeft := true }
  else if c = ascii '+' then some { flags with forceSign := true }
  else if c = ascii '#' then some { flags with special := true }
  else if c = ascii '0' then some { flags with zeroes := true }
  else none

/-- The flags at the front of a text, and the rest of it. -/
def parseFlags (flags : Flags) : List UInt8 → Flags × List UInt8
  | [] => (flags, [])
  | c :: text =>
    match flags.flag c with
    | some flags' => parseFlags flags' text
    | none => (flags, c :: text)

/-- The conversion that a character is for. -/
def parseConversion (c : UInt8) : Option Conversion :=
  if c = ascii 'd' then some .signed
  else if c = ascii 'u' then some .unsigned
  else if c = ascii 'o' then some .octal
  else if c = ascii 'x' then some (.hexadecimal false)
  else if c = ascii 'X' then some (.hexadecimal true)
  else none

/-- The width, the length and the conversion, which end a specification. -/
def parseEnd (flags : Flags) (text : List UInt8) : Option Specification :=
  let (width, text) := if text.head? = some (ascii '*') then (true, text.tail) else (false, text)
  let length := text.takeWhile fun c => c = ascii 'l' ∨ c = ascii 'z'
  match text.drop length.length with
  | [c] => (parseConversion c).map fun conversion => ⟨flags, width, length, conversion⟩
  | _ => none

/-- A text that is one specification of a conversion of integers, without a precision. -/
def parse : List UInt8 → Option Specification
  | [] => none
  | c :: text =>
    if c = ascii '%' then
      let (flags, text) := parseFlags ⟨false, false, false, false⟩ text
      parseEnd flags text
    else none

/-! ## Printing -/

/-- The bits of a type, if a `long` has `longBits`. -/
def IntegerType.bits (longBits : ℕ) : IntegerType → ℕ
  | .int | .unsignedInt => 32
  | .longInt | .longUnsignedInt => longBits
  | .size => 64

/-- The values of a type. -/
def IntegerType.Holds (longBits : ℕ) (value : ℤ) : IntegerType → Prop
  | .int => -2 ^ 31 ≤ value ∧ value < 2 ^ 31
  | .longInt => -2 ^ (longBits - 1) ≤ value ∧ value < 2 ^ (longBits - 1)
  | .unsignedInt => 0 ≤ value ∧ value < 2 ^ 32
  | .longUnsignedInt => 0 ≤ value ∧ value < 2 ^ longBits
  | .size => 0 ≤ value ∧ value < 2 ^ 64

instance (longBits : ℕ) (value : ℤ) : (type : IntegerType) → Decidable (type.Holds longBits value)
  | .int | .longInt | .unsignedInt | .longUnsignedInt | .size => inferInstanceAs (Decidable (_ ∧ _))

/-- The values of the type that a conversion expects. -/
def Conversion.Expects (conversion : Conversion) (bits : ℕ) (value : ℤ) : Prop :=
  match conversion with
  | .signed => -2 ^ (bits - 1) ≤ value ∧ value < 2 ^ (bits - 1)
  | _ => 0 ≤ value ∧ value < 2 ^ bits

instance : (conversion : Conversion) → (bits : ℕ) → (value : ℤ) →
    Decidable (conversion.Expects bits value)
  | .signed, _, _ | .unsigned, _, _ | .octal, _, _ | .hexadecimal _, _, _ =>
    inferInstanceAs (Decidable (_ ∧ _))

/-- The base of a conversion. -/
def Conversion.base : Conversion → ℕ
  | .signed | .unsigned => 10
  | .octal => 8
  | .hexadecimal _ => 16

def Conversion.upper : Conversion → Bool
  | .hexadecimal upper => upper
  | _ => false

/-- The conversions that have a special form. -/
def Conversion.HasSpecial : Conversion → Prop
  | .signed | .unsigned => False
  | .octal | .hexadecimal _ => True

instance : (conversion : Conversion) → Decidable conversion.HasSpecial
  | .signed | .unsigned => isFalse id
  | .octal | .hexadecimal _ => isTrue trivial

/-- The sign that is printed. -/
def Specification.sign (s : Specification) (value : ℤ) : List UInt8 :=
  if s.conversion = .signed then
    if value < 0 then [ascii '-'] else if s.forceSign then [ascii '+'] else []
  else []

/-- The mark of a hexadecimal number. -/
def Specification.mark (s : Specification) (value : ℤ) : List UInt8 :=
  match s.conversion with
  | .hexadecimal upper =>
    if s.special ∧ value ≠ 0 then [ascii '0', ascii (if upper then 'X' else 'x')] else []
  | _ => []

/-- The digits that are printed. An octal number has a zero in front of it in the special form. -/
def Specification.digits (s : Specification) (value : ℤ) : List UInt8 :=
  let digits := numeral s.conversion.base s.conversion.upper value.natAbs
  if s.special ∧ s.conversion = .octal ∧ digits.head? ≠ some (ascii '0') then ascii '0' :: digits
  else digits

/-- Digits in a cell, with what stands before them. A width below zero is a flag for the left and a
width. -/
def Flags.cell (flags : Flags) (width : ℤ) (front digits : List UInt8) : List UInt8 :=
  let fill := width.natAbs - (front ++ digits).length
  if flags.alignLeft ∨ width < 0 then front ++ digits ++ List.replicate fill (ascii ' ')
  else if flags.zeroes then front ++ List.replicate fill (ascii '0') ++ digits
  else List.replicate fill (ascii ' ') ++ (front ++ digits)

/-- A number in a cell. -/
def Specification.layout (s : Specification) (width value : ℤ) : List UInt8 :=
  s.cell width (s.sign value ++ s.mark value) (s.digits value)

/-- `std::snprintf` for one specification, a width and an argument of a type: the text, where it is
defined. -/
def printf (longBits : ℕ) (formatString : List UInt8) (width : ℤ) (type : IntegerType) (value : ℤ) :
    Option (List UInt8) :=
  (parse formatString).bind fun s =>
    if s.width ∧ s.length = type.spec ∧ s.conversion.Expects (type.bits longBits) value ∧
        (s.special → s.conversion.HasSpecial) then
      some (s.layout width value)
    else none

/-! ## Reading -/

/-- There is a digit at the front of a text. -/
def StartsWithDigit (base : ℕ) (text : List UInt8) : Prop := ∃ c ∈ text.head?, IsDigit base c

instance (base : ℕ) (text : List UInt8) : Decidable (StartsWithDigit base text) :=
  Option.decidableExistsMem text.head?

/-- The text without the mark of a hexadecimal number. -/
def skipMark : List UInt8 → List UInt8
  | c :: c' :: text =>
    if c = ascii '0' ∧ (c' = ascii 'x' ∨ c' = ascii 'X') ∧ StartsWithDigit 16 text then text
    else c :: c' :: text
  | text => text

/-- Whether there is a minus at the front of a text behind spaces, and what is behind the sign. -/
def readSign (text : List UInt8) : Bool × List UInt8 :=
  let text := text.dropWhile (· = ascii ' ')
  let sign := text.head?
  (sign = some (ascii '-'),
    if sign = some (ascii '-') ∨ sign = some (ascii '+') then text.tail else text)

/-- The integer at the front of a text behind spaces, in a base, if there is one, and the rest of the
text. It is written as `std::strtoll` takes it, and of any size. -/
def readInteger (base : ℕ) (text : List UInt8) : Option (ℤ × List UInt8) :=
  let (negative, text) := readSign text
  let text := if base = 16 then skipMark text else text
  if StartsWithDigit base text then
    let (n, rest) := readDigits base 0 text
    some (if negative then -n else n, rest)
  else none

/-! ## The constructor's format string -/

/-- The conversion that a mode is for. -/
def conversionOf (mode caseFlags : UInt32) : Conversion :=
  if mode = integerUnsigned then .unsigned
  else if mode = integerUnsignedOctal then .octal
  else if mode = integerUnsignedHexadecimal then .hexadecimal (caseFlags &&& caseUpper ≠ 0)
  else .signed

theorem parseConversion_conversion (mode caseFlags : UInt32) :
    parseConversion (conversion mode caseFlags) = some (conversionOf mode caseFlags) := by
  unfold conversion conversionOf
  split_ifs with hunsigned hoctal hhexadecimal hupper
  · rfl
  · rfl
  · simp [hupper]
    rfl
  · simp [hupper]
    rfl
  · rfl

/-- A flag that is there or not. -/
theorem parseFlags_optional (flags : Bool → Flags) {c : UInt8}
    (hflag : (flags false).flag c = some (flags true)) (p : Prop) [Decidable p]
    (rest : List UInt8) : parseFlags (flags false) ((if p then [c] else []) ++ rest) =
      parseFlags (flags (decide p)) rest := by
  by_cases hp : p
  · simp only [hp, if_true, List.singleton_append, parseFlags, hflag, decide_true]
  · simp only [hp, if_false, List.nil_append, decide_false]

/-- The flags that a constructor is handed. -/
def flagsOf (numericFlags padFlags alignFlags : UInt32) : Flags where
  alignLeft := alignFlags &&& alignLeft ≠ 0
  forceSign := numericFlags &&& numericForceSign ≠ 0
  special := numericFlags &&& numericForceSpecial ≠ 0
  zeroes := padFlags &&& padZeroes ≠ 0

/-- **The flags are those that were handed to the constructor.** -/
theorem parseFlags_constructor (numericFlags padFlags alignFlags : UInt32) {rest : List UInt8}
    (hrest : ∀ flags, parseFlags flags rest = (flags, rest)) :
    parseFlags ⟨false, false, false, false⟩
      ((if alignFlags &&& alignLeft ≠ 0 then [ascii '-'] else []) ++
        ((if numericFlags &&& numericForceSign ≠ 0 then [ascii '+'] else []) ++
          ((if numericFlags &&& numericForceSpecial ≠ 0 then [ascii '#'] else []) ++
            ((if padFlags &&& padZeroes ≠ 0 then [ascii '0'] else []) ++ rest)))) =
      (flagsOf numericFlags padFlags alignFlags, rest) := by
  have hleft := parseFlags_optional (fun b => ⟨b, false, false, false⟩) (c := ascii '-') rfl
  have hsign (left : Bool) := parseFlags_optional (fun b => ⟨left, b, false, false⟩)
    (c := ascii '+') rfl
  have hspecial (left sign : Bool) := parseFlags_optional (fun b => ⟨left, sign, b, false⟩)
    (c := ascii '#') rfl
  have hzeroes (left sign special : Bool) := parseFlags_optional
    (fun b => ⟨left, sign, special, b⟩) (c := ascii '0') rfl
  rw [hleft, hsign, hspecial, hzeroes, hrest]
  rfl

theorem parseEnd_integer (flags : Flags) (type : IntegerType) (mode caseFlags : UInt32) :
    parseEnd flags (ascii '*' :: (type.spec ++ [conversion mode caseFlags])) =
      some ⟨flags, true, type.spec, conversionOf mode caseFlags⟩ := by
  have hno : ¬ (conversion mode caseFlags = ascii 'l' ∨ conversion mode caseFlags = ascii 'z') := by
    unfold conversion
    split_ifs <;> decide
  have hend : (type.spec ++ [conversion mode caseFlags]).takeWhile
      (fun c => c = ascii 'l' ∨ c = ascii 'z') = type.spec := by
    cases type <;> simp [IntegerType.spec, hno]
  have hdrop : (type.spec ++ [conversion mode caseFlags]).drop type.spec.length =
      [conversion mode caseFlags] := List.drop_left
  simp only [parseEnd, List.head?_cons, if_true, List.tail_cons, hend, hdrop,
    parseConversion_conversion, Option.map_some]

/-- **The format string is one specification**, with the flags that were handed to the
constructor. -/
theorem parse_integer (type : IntegerType) (value : ℤ) (mode : UInt32) (width : ℤ)
    (numericFlags padFlags alignFlags caseFlags : UInt32) :
    parse (IntegerFormat.integer type value mode width numericFlags padFlags alignFlags
      caseFlags).formatString =
      some ⟨flagsOf numericFlags padFlags alignFlags, true, type.spec,
        conversionOf mode caseFlags⟩ := by
  simp only [IntegerFormat.integer, List.append_assoc, List.cons_append, List.nil_append, parse,
    if_true]
  rw [parseFlags_constructor numericFlags padFlags alignFlags fun _ => rfl]
  exact parseEnd_integer _ type mode caseFlags

/-! ## What is printed -/

/-- A numeral behind zeroes and before spaces. -/
def number (base : ℕ) (upper : Bool) (k n b : ℕ) : List UInt8 :=
  List.replicate k (digitChar upper 0) ++
    (numeral base upper n ++ List.replicate b (ascii ' '))

/-- A number in a cell of no width. -/
def Specification.body (s : Specification) (value : ℤ) : List UInt8 :=
  s.sign value ++ s.mark value ++ s.digits value

variable {s : Specification} {width value : ℤ}

theorem base_le (conversion : Conversion) : conversion.base ≤ 16 := by
  cases conversion <;> simp [Conversion.base]

theorem one_lt_base (conversion : Conversion) : 1 < conversion.base := by
  cases conversion <;> simp [Conversion.base]

/-- The digits are a numeral, behind a zero at most. -/
theorem digits_eq (s : Specification) (value : ℤ) : ∃ k, s.digits value =
    List.replicate k (digitChar s.conversion.upper 0) ++
      numeral s.conversion.base s.conversion.upper value.natAbs := by
  unfold Specification.digits
  dsimp only
  split_ifs
  · exact ⟨1, rfl⟩
  · exact ⟨0, rfl⟩

/-- **What is in a cell**: spaces, what stands before the digits, zeroes, the digits and spaces. -/
theorem cell_eq (flags : Flags) (width : ℤ) (front digits : List UInt8) : ∃ a k b,
    flags.cell width front digits = List.replicate a (ascii ' ') ++ (front ++
      (List.replicate k (ascii '0') ++ (digits ++ List.replicate b (ascii ' ')))) := by
  unfold Flags.cell
  dsimp only
  split_ifs
  · exact ⟨0, 0, width.natAbs - (front ++ digits).length, by simp⟩
  · exact ⟨0, width.natAbs - (front ++ digits).length, 0, by simp⟩
  · exact ⟨width.natAbs - (front ++ digits).length, 0, 0, by simp⟩

theorem cell_zero (flags : Flags) (front digits : List UInt8) :
    flags.cell 0 front digits = front ++ digits := by
  simp [Flags.cell]

/-- Digits are in a cell of the width, at one side of it unless zeroes fill it. -/
theorem cell_spec (flags : Flags) (width : ℤ) (front digits : List UInt8) :
    let fill := width.natAbs - (front ++ digits).length
    (flags.cell width front digits).length = (front ++ digits).length + fill ∧
      (flags.alignLeft ∨ width < 0 →
        flags.cell width front digits = front ++ digits ++ List.replicate fill (ascii ' ')) ∧
      (¬ (flags.alignLeft ∨ width < 0) → ¬ flags.zeroes →
        flags.cell width front digits =
          List.replicate fill (ascii ' ') ++ (front ++ digits)) := by
  intro fill
  unfold Flags.cell
  dsimp only
  split_ifs with hleft hzeroes
  · exact ⟨List.length_append.trans (by rw [List.length_replicate]), fun _ => rfl,
      fun hright => absurd hleft hright⟩
  · refine ⟨?_, fun h => absurd h hleft, fun _ h => absurd hzeroes h⟩
    simp only [List.length_append, List.length_replicate, fill]
    omega
  · refine ⟨?_, fun h => absurd h hleft, fun _ _ => rfl⟩
    rw [List.length_append, List.length_replicate, Nat.add_comm]

/-- What is printed of an integer: spaces, a number and spaces. -/
theorem layout_eq (s : Specification) (width value : ℤ) : ∃ a k b,
    s.layout width value = List.replicate a (ascii ' ') ++ (s.sign value ++ (s.mark value ++
      number s.conversion.base s.conversion.upper k value.natAbs b)) := by
  obtain ⟨j, hdigits⟩ := digits_eq s value
  obtain ⟨a, k, b, hcell⟩ := cell_eq s.toFlags width (s.sign value ++ s.mark value) (s.digits value)
  have hzero : ascii '0' = digitChar s.conversion.upper 0 := by
    cases s.conversion.upper <;> rfl
  refine ⟨a, k + j, b, ?_⟩
  rw [Specification.layout, hcell, hdigits, hzero, number, List.replicate_add]
  simp only [List.append_assoc]

/-! ## Reading it back -/

section Read

variable {base : ℕ} (hbase : base ≤ 16) (hone : 1 < base) (upper : Bool) (k n b : ℕ)
include hbase hone

theorem readDigits_number :
    readDigits base 0 (number base upper k n b) = (n, List.replicate b (ascii ' ')) := by
  refine readDigits_numeral hbase hone upper k n fun c hc => ?_
  obtain rfl : c = ascii ' ' := by
    cases b with
    | zero => cases hc
    | succ b => exact (Option.some.inj hc).symm
  rintro ⟨d, hd, -⟩
  cases hd

/-- What is in a number. -/
theorem mem_number {c : UInt8} (h : c ∈ number base upper k n b) :
    IsDigit base c ∨ c = ascii ' ' := by
  simp only [number, List.mem_append, List.mem_replicate] at h
  rcases h with ⟨-, rfl⟩ | h | ⟨-, rfl⟩
  · exact .inl (isDigit_digitChar hbase (by omega) upper)
  · exact .inl (isDigit_of_mem_numeral hbase hone h)
  · exact .inr rfl

theorem startsWithDigit_number : StartsWithDigit base (number base upper k n b) := by
  cases k with
  | succ k => exact ⟨_, rfl, isDigit_digitChar hbase (by omega) upper⟩
  | zero =>
    cases hnumeral : numeral base upper n with
    | nil => exact absurd hnumeral (numeral_ne_nil base upper n)
    | cons c l =>
      have hmem : c ∈ numeral base upper n := hnumeral ▸ List.mem_cons_self
      exact ⟨c, by simp [number, hnumeral], isDigit_of_mem_numeral hbase hone hmem⟩

omit hbase hone in
theorem skipMark_mark {text : List UInt8} {x : UInt8} (hx : x = ascii 'x' ∨ x = ascii 'X')
    (htext : StartsWithDigit 16 text) : skipMark (ascii '0' :: x :: text) = text :=
  if_pos ⟨rfl, hx, htext⟩

/-- A number has no mark. -/
theorem skipMark_number : skipMark (number base upper k n b) = number base upper k n b := by
  unfold skipMark
  split
  · next c c' text heq =>
    refine (if_neg fun h => ?_).trans heq.symm
    have hmem : c' ∈ number base upper k n b := heq ▸ by simp
    rcases mem_number hbase hone upper k n b hmem with ⟨d, hd, -⟩ | hspace
    · rcases h.2.1 with rfl | rfl
      · cases hd
      · cases hd
    · rcases h.2.1 with rfl | rfl
      · cases hspace
      · cases hspace
  · rfl

end Read

/-- What is behind spaces. -/
theorem dropWhile_spaces (a : ℕ) {text : List UInt8} (h : text.head? ≠ some (ascii ' ')) :
    (List.replicate a (ascii ' ') ++ text).dropWhile (· = ascii ' ') = text := by
  induction a with
  | zero =>
    cases text with
    | nil => rfl
    | cons c text =>
      have hc : c ≠ ascii ' ' := fun heq => h (congrArg some heq)
      simp [hc]
  | succ a ih => simpa [List.replicate_succ] using ih

/-- A sign that is printed. -/
def IsSign (sign : List UInt8) : Prop := sign = [] ∨ sign = [ascii '-'] ∨ sign = [ascii '+']

/-- **A sign is read**, behind spaces. -/
theorem readSign_eq (a : ℕ) {sign text : List UInt8} (hsign : IsSign sign)
    (htext : StartsWithDigit 16 text) :
    readSign (List.replicate a (ascii ' ') ++ (sign ++ text)) =
      (decide (sign = [ascii '-']), text) := by
  have hno (x : UInt8) (hx : digitValue x = none) : text.head? ≠ some x := by
    intro heq
    obtain ⟨c, hc, d, hd, -⟩ := htext
    obtain rfl := Option.some.inj (hc.symm.trans heq)
    cases hx.symm.trans hd
  have hspace := hno (ascii ' ') rfl
  have hminus := hno (ascii '-') rfl
  have hplus := hno (ascii '+') rfl
  unfold readSign
  rcases hsign with rfl | rfl | rfl
  · rw [List.nil_append, dropWhile_spaces a hspace]
    simp [hminus, hplus]
  · rw [dropWhile_spaces a (by simp [ascii])]
    simp
  · rw [dropWhile_spaces a (by simp [ascii])]
    simp [ascii]

/-- **A number is read** behind spaces and a sign. -/
theorem readInteger_eq {base : ℕ} (hbase : base ≤ 16) (hone : 1 < base) {upper : Bool} {k n b : ℕ}
    (a : ℕ) {sign text : List UInt8} (hsign : IsSign sign) (htext : StartsWithDigit 16 text)
    (hnumber : (if base = 16 then skipMark text else text) = number base upper k n b) :
    readInteger base (List.replicate a (ascii ' ') ++ (sign ++ text)) =
      some (if sign = [ascii '-'] then -(n : ℤ) else n, List.replicate b (ascii ' ')) := by
  have hstart := startsWithDigit_number hbase hone upper k n b
  simp only [readInteger, readSign_eq a hsign htext, hnumber, hstart, if_true,
    readDigits_number hbase hone, decide_eq_true_eq]

/-- The sign is the one of the value. -/
theorem sign_cases (hsigned : value < 0 → s.conversion = .signed) :
    IsSign (s.sign value) ∧ (s.sign value = [ascii '-'] ↔ value < 0) := by
  unfold Specification.sign
  split_ifs with hconversion hnegative hsign
  · exact ⟨.inr (.inl rfl), iff_of_true rfl hnegative⟩
  · exact ⟨.inr (.inr rfl), iff_of_false (by decide) hnegative⟩
  · exact ⟨.inl rfl, iff_of_false (by decide) hnegative⟩
  · exact ⟨.inl rfl, iff_of_false (by decide) fun h => hconversion (hsigned h)⟩

/-- A number that may have a mark. -/
theorem mark_number (s : Specification) (value : ℤ) (k n b : ℕ) :
    let digits := number s.conversion.base s.conversion.upper k n b
    StartsWithDigit 16 (s.mark value ++ digits) ∧
      (if s.conversion.base = 16 then skipMark (s.mark value ++ digits)
        else s.mark value ++ digits) = digits := by
  intro digits
  have hdigits := startsWithDigit_number (base_le s.conversion) (one_lt_base s.conversion)
    s.conversion.upper k n b
  have hstart : StartsWithDigit 16 digits := by
    obtain ⟨c, hc, d, hd, hlt⟩ := hdigits
    exact ⟨c, hc, d, hd, Nat.lt_of_lt_of_le hlt (base_le s.conversion)⟩
  unfold Specification.mark
  split
  · next upper hconversion =>
    have hbase : s.conversion.base = 16 := by rw [hconversion]; rfl
    rw [if_pos hbase]
    by_cases hmark : s.special ∧ value ≠ 0
    · rw [if_pos hmark]
      refine ⟨⟨ascii '0', rfl, 0, rfl, by decide⟩, skipMark_mark ?_ hstart⟩
      cases upper with
      | false => exact .inl rfl
      | true => exact .inr rfl
    · rw [if_neg hmark, List.nil_append]
      refine ⟨hstart, ?_⟩
      exact skipMark_number (base_le s.conversion) (one_lt_base s.conversion) _ k n b
  · refine ⟨hstart, ?_⟩
    rw [List.nil_append]
    split_ifs
    · exact skipMark_number (base_le s.conversion) (one_lt_base s.conversion) _ k n b
    · rfl

/-- **What is printed is read back**, and spaces are left. -/
theorem readInteger_layout (hsigned : value < 0 → s.conversion = .signed) (width : ℤ) :
    ∃ b, readInteger s.conversion.base (s.layout width value) =
      some (value, List.replicate b (ascii ' ')) := by
  obtain ⟨a, k, b, hlayout⟩ := layout_eq s width value
  obtain ⟨hsign, hnegative⟩ := sign_cases hsigned
  obtain ⟨hstart, hnumber⟩ := mark_number s value k value.natAbs b
  refine ⟨b, ?_⟩
  rw [hlayout, readInteger_eq (base_le _) (one_lt_base _) a hsign hstart hnumber]
  congr 2
  split_ifs with h
  · rw [Int.ofNat_natAbs_of_nonpos (Int.le_of_lt (hnegative.mp h)), Int.neg_neg]
  · exact Int.natAbs_of_nonneg (Int.not_lt.mp fun hlt => h (hnegative.mpr hlt))

/-! ## The formats -/

/-- A value of a type is one that a conversion expects iff it is not past the signed values, or not
below zero. -/
theorem expects_iff {longBits : ℕ} {type : IntegerType} (hvalue : type.Holds longBits value)
    (conversion : Conversion) : conversion.Expects (type.bits longBits) value ↔
      if conversion = .signed then value < 2 ^ (type.bits longBits - 1) else 0 ≤ value := by
  have hhalf : (2 : ℤ) ^ (longBits - 1) ≤ 2 ^ longBits :=
    pow_le_pow_right₀ (by decide) (Nat.sub_le longBits 1)
  have hpos : (0 : ℤ) < 2 ^ (longBits - 1) := Int.pow_pos (by decide)
  cases type <;> cases conversion <;>
    simp only [IntegerType.Holds, IntegerType.bits, Conversion.Expects, reduceCtorEq, if_true,
      if_false] at hvalue ⊢ <;> omega

/-- A text is a body in a cell of a width, with spaces on one side of it unless it has zeroes. -/
structure InCell (toLeft filled : Prop) (width : ℤ) (body t : List UInt8) : Prop where
  length : t.length = max body.length width.natAbs
  left : toLeft → t = body ++ List.replicate (width.natAbs - body.length) (ascii ' ')
  right : ¬ toLeft → ¬ filled →
    t = List.replicate (width.natAbs - body.length) (ascii ' ') ++ body

end Hologine.Text
