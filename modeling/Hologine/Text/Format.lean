import Mathlib.Data.List.Basic

/-!
# Formats of integers

Model of `holo::format::integer` (`core/text/format.hpp:77-94, 122-267`) up to `append_format`,
which is with the string builder: the constructor writes a `printf` format string from the flags.
`std::snprintf` is in `snprintf`, by the text it is to print.

Results:
* `formatString_length`: the format string and its terminator fit the array they are written to.
-/

namespace Hologine.Text

/-- A character of a format string. -/
def ascii (c : Char) : UInt8 := .ofNat c.toNat

/-- `flags::numeric_force_sign`. -/
def numericForceSign : UInt32 := 0x1

/-- `flags::numeric_force_special`. -/
def numericForceSpecial : UInt32 := 0x2

/-- `flags::pad_zeroes`. -/
def padZeroes : UInt32 := 0x1

/-- `flags::align_left`. -/
def alignLeft : UInt32 := 0x1

/-- `flags::case_upper`. -/
def caseUpper : UInt32 := 0x1

/-- `modes::integer_unsigned`. -/
def integerUnsigned : UInt32 := 1

/-- `modes::integer_unsigned_octal`. -/
def integerUnsignedOctal : UInt32 := 2

/-- `modes::integer_unsigned_hexadecimal`. -/
def integerUnsignedHexadecimal : UInt32 := 3

/-- The types of integer that can be formatted. -/
inductive IntegerType
  | int
  | unsignedInt
  | longInt
  | longUnsignedInt
  | size
  deriving Repr, DecidableEq

/-- `length_specifier<I>::spec`. -/
def IntegerType.spec : IntegerType → List UInt8
  | .int | .unsignedInt => []
  | .longInt | .longUnsignedInt => [ascii 'l']
  | .size => [ascii 'z']

/-- The conversion at the end of a format string. -/
def conversion (mode caseFlags : UInt32) : UInt8 :=
  if mode = integerUnsigned then ascii 'u'
  else if mode = integerUnsignedOctal then ascii 'o'
  else if mode = integerUnsignedHexadecimal then
    if caseFlags &&& caseUpper ≠ 0 then ascii 'X' else ascii 'x'
  else ascii 'd'

/-- A `format::integer`. The format string is without its terminator. -/
structure IntegerFormat where
  value : Int
  width : Int
  formatString : List UInt8
  deriving Repr, DecidableEq

/-- `integer<Integer>::integer`. -/
def IntegerFormat.integer (type : IntegerType) (value : Int) (mode : UInt32) (width : Int)
    (numericFlags padFlags alignFlags caseFlags : UInt32) : IntegerFormat where
  value := value
  width := width
  formatString :=
    [ascii '%'] ++
    (if alignFlags &&& alignLeft ≠ 0 then [ascii '-'] else []) ++
    (if numericFlags &&& numericForceSign ≠ 0 then [ascii '+'] else []) ++
    (if numericFlags &&& numericForceSpecial ≠ 0 then [ascii '#'] else []) ++
    (if padFlags &&& padZeroes ≠ 0 then [ascii '0'] else []) ++
    [ascii '*'] ++ type.spec ++ [conversion mode caseFlags]

/-- **The format string and its terminator fit the array**, of 16 characters. -/
theorem formatString_length (type : IntegerType) (value : Int) (mode : UInt32) (width : Int)
    (numericFlags padFlags alignFlags caseFlags : UInt32) :
    (IntegerFormat.integer type value mode width numericFlags padFlags alignFlags
      caseFlags).formatString.length + 1 ≤ 16 := by
  have hspec : type.spec.length ≤ 1 := by cases type <;> decide
  have hflag : ∀ (p : Prop) [Decidable p] (c : UInt8), (if p then [c] else []).length ≤ 1 := by
    intro p _ c
    split_ifs
    · exact Nat.le_refl 1
    · exact Nat.zero_le 1
  simp only [IntegerFormat.integer, List.length_append, List.length_singleton]
  have halign := hflag (alignFlags &&& alignLeft ≠ 0) (ascii '-')
  have hsign := hflag (numericFlags &&& numericForceSign ≠ 0) (ascii '+')
  have hspecial := hflag (numericFlags &&& numericForceSpecial ≠ 0) (ascii '#')
  have hpad := hflag (padFlags &&& padZeroes ≠ 0) (ascii '0')
  omega

/-- `std::snprintf` to `size` bytes of a text: how long the text is, and what is written. -/
def snprintf (text : List UInt8) (size : UInt64) : Nat × List UInt8 :=
  (text.length, if size = 0 then [] else text.take (size.toNat - 1) ++ [0])

end Hologine.Text
