import Hologine.Exception

/-!
# Drawing exception codes

What `exception_code_generator` (`core/exception.cpp:16-75`) draws for any names, and what it has
for them afterwards. A name is a `const char*`, which may be null.

Results:
* `exec_generate`: the codes that are drawn are `0`, `1`, `1`, and so on.
* `not_uniqueCodes`: no sequence of draws, not even the empty one, leaves the codes and their names
  as they should be.
-/

namespace Hologine

open Hologine.Library.Run

namespace ExceptionCodeGenerator

/-- `exception_code_generator::get_exception_enumeration`: the name, and what is pushed. -/
def getExceptionEnumeration (g : ExceptionCodeGenerator) (code : Int) :
    (Option String × List ExceptionCode) × ExceptionCodeGenerator :=
  let g := g.ensureInitialized
  if code < 0 ∨ code ≥ g.currentExceptionCode then ((none, [.indexOutOfRange]), g)
  else ((g.exceptionCodeEnumerations code.toNat, []), g)

/-- **Exception codes are unique**: the codes that are drawn for the names are positive and all
different, and after them each is mapped to its name, and zero to that of `exception::none`. -/
def UniqueCodes (names : List String) : Prop :=
  ∃ codes g, exec generateExceptionCode start names = some (codes, g) ∧
    (∀ code ∈ codes, 0 < code) ∧ codes.Nodup ∧
    (∀ p ∈ codes.zip names, (g.getExceptionEnumeration p.1).1.1 = some p.2) ∧
    (g.getExceptionEnumeration 0).1.1 = some "holo_exception_none"

/-! ## What is drawn -/

variable {g : ExceptionCodeGenerator}

/-- **A generator that has drawn starts again.** -/
theorem ensureInitialized_of_pos (h : 1 ≤ g.currentExceptionCode) :
    g.ensureInitialized = g.initializeCodes := by
  have hnot : g.isInitialized = false := by
    rw [isInitialized, decide_eq_false_iff_not]
    omega
  rw [ensureInitialized, hnot]
  rfl

/-- So it draws one, every time. -/
theorem exec_generate_of_pos (h : 1 ≤ g.currentExceptionCode) (names : List String) :
    ∃ g', exec generateExceptionCode g names = some (List.replicate names.length 1, g') := by
  induction names generalizing g with
  | nil => exact ⟨g, rfl⟩
  | cons name names ih =>
    obtain ⟨g₁, hdraw, hpos⟩ : ∃ g₁, g.generateExceptionCode name = some (1, g₁) ∧
        1 ≤ g₁.currentExceptionCode := by
      rw [generateExceptionCode, ensureInitialized_of_pos h]
      exact ⟨_, rfl, show (1 : Int) ≤ 1 + 1 by omega⟩
    obtain ⟨g', hrest⟩ := ih hpos
    exact ⟨g', exec_cons_eq_some.mpr ⟨1, _, g₁, hdraw, hrest, rfl⟩⟩

/-- The first draw is of the code that is reserved. -/
theorem generate_start (name : String) : start.generateExceptionCode name =
    some (0, ⟨1, Function.update (fun _ => none) 0 (some name)⟩) := rfl

/-- **The codes that are drawn are `0`, `1`, `1`, and so on.** -/
theorem exec_generate (name : String) (names : List String) :
    ∃ g, exec generateExceptionCode start (name :: names) =
      some (0 :: List.replicate names.length 1, g) := by
  obtain ⟨g, hrest⟩ := exec_generate_of_pos (g := ⟨1, _⟩) (Int.le_refl 1) names
  exact ⟨g, exec_cons_eq_some.mpr ⟨0, _, _, generate_start name, hrest, rfl⟩⟩

/-- **No draws leave the codes as they should be**: the first code is that of `exception::none`, and
before it that code has no name. -/
theorem not_uniqueCodes (names : List String) : ¬ UniqueCodes names := by
  rintro ⟨codes, g, hrun, hpos, -, -, hnone⟩
  cases names with
  | nil =>
    obtain ⟨-, rfl⟩ := Prod.mk.inj (Option.some.inj hrun)
    exact absurd hnone nofun
  | cons name names =>
    obtain ⟨g', hrun'⟩ := exec_generate name names
    obtain ⟨rfl, -⟩ := Prod.mk.inj (Option.some.inj (hrun.symm.trans hrun'))
    exact absurd (hpos 0 List.mem_cons_self) (by decide)

/-- **The first two names of the program are drawn the codes zero and one**, and `exception::none`
has the first. -/
theorem not_forall_uniqueCodes :
    ¬ ∀ names : List String, (names.length : Int) < maxExceptionCodes → UniqueCodes names := by
  intro h
  obtain ⟨codes, g, hrun, hpos, -⟩ := h
    ["holo_exception_index_out_of_range", "holo_exception_invalid_operation"] (by decide)
  obtain ⟨rfl, -⟩ := Prod.mk.inj (Option.some.inj hrun)
  exact absurd (hpos 0 List.mem_cons_self) (by decide)

end ExceptionCodeGenerator

end Hologine
