import Hologine.Library.Run
import Mathlib.Logic.Function.Basic

/-!
# Exception codes

Model of `exception_code_generator` (`core/exception.cpp:16-75`) and of the codes that the program
draws from it before `main` (`core/exception.cpp:78-88`, `core/memory/allocator.cpp:36-37`,
`core/text/unicode.cpp:21-28`). The linker has the last word on which file comes first; here they
are in the order in which the build lists them.

The slip of the source is in `is_initialized`, which says the opposite: the generator that has drawn
nothing counts as initialized, and every other one is initialized again before it is used.

* `indexOutOfRange_eq`: so the first code that is drawn is that of `exception::none`.
* `exceptionCodes_eq`: and all others are one.
-/

namespace Hologine

open Hologine.Library.Run

/-- `holo::exception_code`. -/
abbrev ExceptionCode := Int

/-- `holo::max_exception_codes`. -/
def maxExceptionCodes : Int := 256

/-- The static members of `exception_code_generator`. -/
structure ExceptionCodeGenerator where
  currentExceptionCode : Int
  exceptionCodeEnumerations : Nat → Option String

namespace ExceptionCodeGenerator

/-- What the members are at program start. -/
def start : ExceptionCodeGenerator := ⟨0, fun _ => none⟩

/-- `exception_code_generator::is_initialized`. -/
def isInitialized (g : ExceptionCodeGenerator) : Bool := decide (g.currentExceptionCode < 1)

/-- `exception_code_generator::initialize`. -/
def initializeCodes (g : ExceptionCodeGenerator) : ExceptionCodeGenerator where
  currentExceptionCode := 1
  exceptionCodeEnumerations :=
    Function.update g.exceptionCodeEnumerations 0 (some "holo_exception_none")

/-- The lazy initialization. -/
def ensureInitialized (g : ExceptionCodeGenerator) : ExceptionCodeGenerator :=
  if g.isInitialized then g else g.initializeCodes

/-- `exception_code_generator::generate_exception_code`. -/
def generateExceptionCode (g : ExceptionCodeGenerator) (enumeration : String) :
    Option (Int × ExceptionCodeGenerator) :=
  let g := g.ensureInitialized
  -- the program terminates
  if g.currentExceptionCode ≥ maxExceptionCodes then none
  else some (g.currentExceptionCode, {
    currentExceptionCode := g.currentExceptionCode + 1
    exceptionCodeEnumerations := Function.update g.exceptionCodeEnumerations
      g.currentExceptionCode.toNat (some enumeration) })

end ExceptionCodeGenerator

/-! ## The codes of the program -/

/-- The names that codes are drawn for, in the order of the draws. -/
def exceptionNames : List String :=
  ["holo_exception_index_out_of_range", "holo_exception_invalid_operation",
    "holo_exception_invalid_argument", "holo_exception_platform",
    "holo_exception_out_of_memory",
    "holo_exception_invalid_unicode_lead", "holo_exception_incomplete_unicode_sequence",
    "holo_exception_overlong_unicode_sequence", "holo_exception_invalid_unicode_code_point"]

/-- The codes that are drawn for them. -/
def exceptionCodes : List ExceptionCode :=
  (exec ExceptionCodeGenerator.generateExceptionCode .start exceptionNames).elim [] Prod.fst

namespace ExceptionCode

/-- `exception::none`. -/
def none : ExceptionCode := 0

/-- `exception::index_out_of_range`. -/
def indexOutOfRange : ExceptionCode := exceptionCodes.getD 0 none

/-- `exception::invalid_operation`. -/
def invalidOperation : ExceptionCode := exceptionCodes.getD 1 none

/-- `exception::invalid_argument`. -/
def invalidArgument : ExceptionCode := exceptionCodes.getD 2 none

/-- `exception::platform`. -/
def platform : ExceptionCode := exceptionCodes.getD 3 none

/-- `exception::out_of_memory`. -/
def outOfMemory : ExceptionCode := exceptionCodes.getD 4 none

/-- `exception::invalid_unicode_lead`. -/
def invalidUnicodeLead : ExceptionCode := exceptionCodes.getD 5 none

/-- `exception::incomplete_unicode_sequence`. -/
def incompleteUnicodeSequence : ExceptionCode := exceptionCodes.getD 6 none

/-- `exception::overlong_unicode_sequence`. -/
def overlongUnicodeSequence : ExceptionCode := exceptionCodes.getD 7 none

/-- `exception::invalid_unicode_code_point`. -/
def invalidUnicodeCodePoint : ExceptionCode := exceptionCodes.getD 8 none

end ExceptionCode

/-- **The codes of the program.** -/
theorem exceptionCodes_eq : exceptionCodes = [0, 1, 1, 1, 1, 1, 1, 1, 1] := by decide

/-- **An index that is out of range is no exception.** -/
theorem indexOutOfRange_eq : ExceptionCode.indexOutOfRange = .none := by decide

end Hologine
