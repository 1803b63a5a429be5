import Hologine.Library.Run
import Mathlib.Logic.Function.Basic

/-!
# The exception stack of a thread

Model of `push_exception`, `get_last_exception`, `get_last_platform_exception` and
`enable_exceptions` (`core/exception.cpp:93-137, 163-236`) on the handler that the thread-local
variable of one thread points to, if it does. Codes are numbers. A callback is an address; what it
does is no matter of the handler, but there is none at the null pointer.

Slips of the source, both in `push_exception`:
* it compares the top of the stack with itself, so every stack counts as full, the exception goes to
  the last place of the array, and the top stays where it is;
* it calls the callback also if there is none.

Results:
* `ExceptionHandler.push_top`, `ExceptionHandler.getLast_of_top`: the top of a stack stays zero, and
  nothing is got from it.
* `boundedStack_iff`: a thread with exceptions behaves as a bounded stack **iff** there is a
  callback or nothing is pushed, and `get_last_exception` is called only where that would return no
  exception and no platform code.
-/

namespace Hologine

open Hologine.Library.Run

/-- `exception_handler_node`. -/
structure ExceptionHandlerNode where
  exceptionCode : Int
  platformExceptionCode : Int
  deriving Repr, DecidableEq

/-- `exception_handler::max_exception_stack_size`. -/
def maxExceptionStackSize : Nat := 32

/-- `exception_handler`. Of the stack the first `max_exception_stack_size` places are there. -/
structure ExceptionHandler where
  exceptionStack : Nat → ExceptionHandlerNode
  exceptionStackTop : Nat
  platformExceptionCode : Int
  callback : UInt64
  allocator : UInt64

/-- `std::copy` of `count` nodes from one place to another. -/
def copyNodes (stack : Nat → ExceptionHandlerNode) (first target : Nat) :
    Nat → (Nat → ExceptionHandlerNode)
  | 0 => stack
  | count + 1 =>
    copyNodes (Function.update stack target (stack first)) (first + 1) (target + 1) count

/-- `enable_exceptions`: the answer and the handler. `isValid` is whether the thread-local variable
has a slot, `grants` whether the allocator gives a handler, which is zeroed. -/
def enableExceptions (handler : Option ExceptionHandler) (isValid : Bool) (allocator : UInt64)
    (grants : Bool) (callback : UInt64) : Bool × Option ExceptionHandler :=
  if isValid then
    match handler with
    | some handler => (true, some { handler with callback := callback })
    | none =>
      if allocator = 0 then (false, none)
      else if grants then (true, some {
        exceptionStack := fun _ => ⟨0, 0⟩
        exceptionStackTop := 0
        platformExceptionCode := 0
        callback := callback
        allocator := allocator })
      else (false, none)
  else (false, handler)

namespace ExceptionHandler

/-- `push_exception`, where there is a handler. -/
def pushException (h : ExceptionHandler) (code platformCode : Int) : Option ExceptionHandler :=
  -- the assertion and the call
  if h.exceptionStackTop < maxExceptionStackSize ∧ h.callback ≠ 0 then
    let node : ExceptionHandlerNode := ⟨code, platformCode⟩
    if h.exceptionStackTop = h.exceptionStackTop then
      -- what is copied is the first node, to the last place
      let stack := copyNodes h.exceptionStack 0 (maxExceptionStackSize - 1) 1
      some { h with
        exceptionStack := Function.update stack (maxExceptionStackSize - 1) node
        platformExceptionCode := 0 }
    else
      some { h with
        exceptionStack := Function.update h.exceptionStack h.exceptionStackTop node
        exceptionStackTop := h.exceptionStackTop + 1
        platformExceptionCode := 0 }
  else none

/-- `get_last_exception`, where there is a handler. -/
def getLastException (h : ExceptionHandler) : Option (Int × ExceptionHandler) :=
  if h.exceptionStackTop < maxExceptionStackSize then
    if h.exceptionStackTop = 0 then some (0, { h with platformExceptionCode := 0 })
    else
      let node := h.exceptionStack (h.exceptionStackTop - 1)
      some (node.exceptionCode, { h with
        exceptionStackTop := h.exceptionStackTop - 1
        platformExceptionCode := node.platformExceptionCode })
  else none

end ExceptionHandler

/-- A call. -/
inductive ExceptionCall
  | push (code platformCode : Int)
  | getLast
  deriving Repr, DecidableEq

/-- A call on a thread, with the code that `get_last_exception` returns. -/
def stepException (handler : Option ExceptionHandler) :
    ExceptionCall → Option (Option Int × Option ExceptionHandler)
  | .push code platformCode =>
    match handler with
    | some h => (h.pushException code platformCode).map fun h => (none, some h)
    | none => some (none, none)
  | .getLast =>
    match handler with
    | some h => h.getLastException.map fun (code, h) => (some code, some h)
    | none => some (some 0, none)

/-- `get_last_platform_exception`. -/
def getLastPlatformException (handler : Option ExceptionHandler) : Int :=
  match handler with
  | some h => h.platformExceptionCode
  | none => 0

/-! ## The bounded stack -/

/-- The exceptions that a bounded stack retains, the most recent one first, and the platform code of
the last one that was taken. -/
structure RetainedExceptions where
  nodes : List ExceptionHandlerNode
  platformExceptionCode : Int
  bounded : nodes.length ≤ maxExceptionStackSize

namespace RetainedExceptions

/-- Nothing is retained. -/
def empty : RetainedExceptions := ⟨[], 0, Nat.zero_le _⟩

/-- One more exception, in place of the oldest if there is no room. -/
def push (r : RetainedExceptions) (code platformCode : Int) : RetainedExceptions where
  nodes := (⟨code, platformCode⟩ :: r.nodes).take maxExceptionStackSize
  platformExceptionCode := 0
  bounded := List.length_take_le _ _

/-- The most recent exception, or none, is taken. -/
def take (r : RetainedExceptions) : Int × RetainedExceptions :=
  match r with
  | ⟨[], platform, bounded⟩ => (0, ⟨[], platform, bounded⟩)
  | ⟨node :: nodes, _, bounded⟩ =>
    (node.exceptionCode, ⟨nodes, node.platformExceptionCode, Nat.le_of_succ_le bounded⟩)

/-- A call on a bounded stack. -/
def step (r : RetainedExceptions) : ExceptionCall → Option Int × RetainedExceptions
  | .push code platformCode => (none, r.push code platformCode)
  | .getLast => (some r.take.1, r.take.2)

/-- The stack on its own. -/
def stepAlone (r : RetainedExceptions) (call : ExceptionCall) :
    Option (Option Int × RetainedExceptions) := some (r.step call)

end RetainedExceptions

/-- A thread and a bounded stack, side by side. -/
def stepBoth (t : Option ExceptionHandler × RetainedExceptions) (call : ExceptionCall) :
    Option (Option Int × (Option ExceptionHandler × RetainedExceptions)) :=
  (stepException t.1 call).map fun (o, handler) => (o, (handler, (t.2.step call).2))

/-- **A call on a thread does what it does on the stack**: no assertion fails, and it returns the
code and leaves the platform code of the stack. -/
def Agrees (t : Option ExceptionHandler × RetainedExceptions) (call : ExceptionCall) : Prop :=
  ∃ o handler, stepException t.1 call = some (o, handler) ∧ o = (t.2.step call).1 ∧
    getLastPlatformException handler = (t.2.step call).2.platformExceptionCode

/-- A call that the slips do not matter for: a push that there is a callback for, or a
`get_last_exception` where the stack has no exception, or one without codes, on its top. -/
def Harmless (callback : UInt64) (r : RetainedExceptions) : ExceptionCall → Prop
  | .push _ _ => callback ≠ 0
  | .getLast => r.nodes = [] ∨ r.nodes.head? = some ⟨0, 0⟩

instance (callback : UInt64) (r : RetainedExceptions) :
    (call : ExceptionCall) → Decidable (Harmless callback r call)
  | .push _ _ => inferInstanceAs (Decidable (callback ≠ 0))
  | .getLast => inferInstanceAs (Decidable (r.nodes = [] ∨ r.nodes.head? = some ⟨0, 0⟩))

/-! ## What the calls do -/

variable {h : ExceptionHandler} {r : RetainedExceptions} {callback : UInt64}

namespace ExceptionHandler

/-- A push without a callback is not defined. -/
theorem push_of_null (h : ExceptionHandler) (hcallback : h.callback = 0) (code platformCode : Int) :
    h.pushException code platformCode = none :=
  if_neg fun hne => hne.2 hcallback

/-- **A push leaves the top of the stack where it is.** -/
theorem push_top (htop : h.exceptionStackTop = 0) (hcallback : h.callback ≠ 0)
    (code platformCode : Int) :
    ∃ h', h.pushException code platformCode = some h' ∧ h'.exceptionStackTop = 0 ∧
      h'.callback = h.callback ∧ h'.platformExceptionCode = 0 := by
  have hlt : h.exceptionStackTop < maxExceptionStackSize := by
    rw [htop]
    decide
  rw [pushException, if_pos ⟨hlt, hcallback⟩, if_pos rfl]
  exact ⟨_, rfl, htop, rfl, rfl⟩

/-- **So nothing is got from it.** -/
theorem getLast_of_top (htop : h.exceptionStackTop = 0) :
    h.getLastException = some (0, { h with platformExceptionCode := 0 }) := by
  have hlt : h.exceptionStackTop < maxExceptionStackSize := by
    rw [htop]
    decide
  rw [getLastException, if_pos hlt, if_pos htop]

end ExceptionHandler

/-- A push agrees iff there is a callback. -/
theorem agrees_push_iff (htop : h.exceptionStackTop = 0) (code platformCode : Int) :
    Agrees (some h, r) (.push code platformCode) ↔ h.callback ≠ 0 := by
  constructor
  · rintro ⟨o, handler, hstep, -⟩ hnull
    simp [stepException, h.push_of_null hnull] at hstep
  · intro hcallback
    obtain ⟨h', hpush, -, -, hplatform⟩ := h.push_top htop hcallback code platformCode
    exact ⟨none, some h', by rw [stepException, hpush]; rfl, rfl, hplatform⟩

/-- A `get_last_exception` agrees iff the stack returns no codes. -/
theorem agrees_getLast_iff (htop : h.exceptionStackTop = 0)
    (hplatform : r.platformExceptionCode = 0) :
    Agrees (some h, r) .getLast ↔ r.nodes = [] ∨ r.nodes.head? = some ⟨0, 0⟩ := by
  have hstep : stepException (some h) .getLast =
      some (some 0, some { h with platformExceptionCode := 0 }) := by
    rw [stepException, ExceptionHandler.getLast_of_top htop]
    rfl
  have hagrees : Agrees (some h, r) .getLast ↔
      0 = r.take.1 ∧ 0 = r.take.2.platformExceptionCode := by
    constructor
    · rintro ⟨o, handler, hstep', hcode, hcode'⟩
      obtain ⟨rfl, rfl⟩ := Prod.mk.inj (Option.some.inj (hstep.symm.trans hstep'))
      exact ⟨Option.some.inj hcode, hcode'⟩
    · rintro ⟨hcode, hcode'⟩
      exact ⟨_, _, hstep, congrArg some hcode, hcode'⟩
  rw [hagrees]
  obtain ⟨nodes, platform, bounded⟩ := r
  cases nodes with
  | nil => exact ⟨fun _ => .inl rfl, fun _ => ⟨rfl, hplatform.symm⟩⟩
  | cons node nodes =>
    obtain ⟨code, platformCode⟩ := node
    constructor
    · rintro ⟨hcode, hcode'⟩
      obtain rfl : 0 = code := hcode
      obtain rfl : 0 = platformCode := hcode'
      exact .inr rfl
    · rintro (hnil | hhead)
      · exact absurd hnil nofun
      · obtain ⟨rfl, rfl⟩ := ExceptionHandlerNode.mk.inj (Option.some.inj hhead)
        exact ⟨rfl, rfl⟩

/-! ## Runs -/

/-- **Which runs agree with the stack**, from a handler whose top is zero. -/
theorem along_agrees_iff (calls : List ExceptionCall) (htop : h.exceptionStackTop = 0)
    (hcallback : h.callback = callback) (hplatform : r.platformExceptionCode = 0) :
    Along stepBoth Agrees (some h, r) calls ↔
      Along RetainedExceptions.stepAlone (Harmless callback) r calls := by
  induction calls generalizing h r with
  | nil => exact Iff.rfl
  | cons call calls ih =>
    have halone : r.stepAlone call = some ((r.step call).1, (r.step call).2) := rfl
    rw [along_cons halone]
    cases call with
    | push code platformCode =>
      by_cases hnull : h.callback = 0
      · have hnot := (not_congr (agrees_push_iff (r := r) htop code platformCode)).mpr
          (not_not.mpr hnull)
        exact iff_of_false (fun hall => hnot hall.1) fun hall => hall.1 (hcallback ▸ hnull)
      · obtain ⟨h', hpush, htop', hsame, -⟩ := h.push_top htop hnull code platformCode
        have hstep : stepBoth (some h, r) (.push code platformCode) =
            some (none, (some h', r.push code platformCode)) := by
          simp only [stepBoth, stepException, hpush, Option.map_some]
          rfl
        rw [along_cons hstep, agrees_push_iff htop]
        exact and_congr (by rw [hcallback]; rfl) (ih htop' (hsame.trans hcallback) rfl)
    | getLast =>
      have hstep : stepBoth (some h, r) .getLast =
          some (some 0, (some { h with platformExceptionCode := 0 }, r.take.2)) := by
        simp only [stepBoth, stepException, ExceptionHandler.getLast_of_top htop, Option.map_some]
        rfl
      rw [along_cons hstep, agrees_getLast_iff htop hplatform]
      refine and_congr_right fun hharmless => ih htop hcallback ?_
      obtain ⟨nodes, platform, bounded⟩ := r
      rcases hharmless with hnil | hhead
      · subst hnil
        exact hplatform
      · cases nodes with
        | nil => exact absurd hhead nofun
        | cons node nodes =>
          obtain rfl := Option.some.inj hhead
          rfl

/-- A thread that exceptions have been enabled on has a handler, with nothing on its stack. -/
theorem enableExceptions_none {isValid grants : Bool} {allocator : UInt64}
    {handler : Option ExceptionHandler}
    (henabled : enableExceptions none isValid allocator grants callback = (true, handler)) :
    ∃ h, handler = some h ∧ h.exceptionStackTop = 0 ∧ h.callback = callback := by
  cases isValid with
  | false => exact absurd henabled nofun
  | true =>
    by_cases hallocator : allocator = 0
    · subst hallocator
      exact absurd henabled nofun
    · cases grants with
      | false => simp [enableExceptions, hallocator] at henabled
      | true =>
        rw [enableExceptions, if_pos rfl] at henabled
        simp only [hallocator, if_true, if_false] at henabled
        exact ⟨_, (Prod.mk.inj henabled).2.symm, rfl, rfl⟩

/-- **A thread with exceptions behaves as a bounded stack iff the slips do not matter**, in every
run. -/
theorem boundedStack_iff {isValid grants : Bool} {allocator : UInt64}
    {handler : Option ExceptionHandler}
    (henabled : enableExceptions none isValid allocator grants callback = (true, handler))
    (calls : List ExceptionCall) :
    Along stepBoth Agrees (handler, .empty) calls ↔
      Along RetainedExceptions.stepAlone (Harmless callback) .empty calls := by
  obtain ⟨h, rfl, htop, hcallback⟩ := enableExceptions_none henabled
  exact along_agrees_iff calls htop hcallback rfl

/-- With a callback an exception may be pushed, but not got. -/
theorem boundedStack_iff_pushed :
    Along stepBoth Agrees ((enableExceptions none true 0x20 true 0x40).2, .empty)
        [.getLast, .push 1 7] ∧
      ¬ Along stepBoth Agrees ((enableExceptions none true 0x20 true 0x40).2, .empty)
        [.push 1 7, .getLast] := by
  have henabled : enableExceptions none true 0x20 true 0x40 =
      (true, (enableExceptions none true 0x20 true 0x40).2) := rfl
  exact ⟨(boundedStack_iff henabled _).mpr (by decide),
    fun h => absurd ((boundedStack_iff henabled _).mp h) (by decide)⟩

/-- **An exception that is pushed is not got**, with a callback. -/
theorem not_boundedStack : ¬ ∀ (isValid : Bool) (allocator : UInt64) (grants : Bool)
    (callback : UInt64) (handler : Option ExceptionHandler) (calls : List ExceptionCall),
      enableExceptions none isValid allocator grants callback = (true, handler) →
        Along stepBoth Agrees (handler, .empty) calls := by
  intro hall
  obtain ⟨-, hrest⟩ := hall true 0x20 true 0x40 _ [.push 1 7, .getLast] rfl
  obtain ⟨⟨o, handler, hstep, hcode, -⟩, -⟩ := hrest _ _ rfl
  obtain ⟨rfl, -⟩ := Prod.mk.inj (Option.some.inj hstep)
  exact absurd hcode (by decide)

end Hologine
