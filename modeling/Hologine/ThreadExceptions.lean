import Hologine.ExceptionHandler
import Hologine.Library.Owners
import Hologine.Library.Threads
import Hologine.Threading.ThreadLocalVariable

/-!
# Exceptions on threads

Model of `enable_exceptions`, `disable_exceptions`, `push_exception`, `get_last_exception` and
`get_last_platform_exception` (`core/exception.cpp:93-236`) on any number of threads. The handlers
are objects in memory, and the thread-local variable `holo_exception_handler` points each thread to
its own, if it has one. The calls of the system are those of `ThreadStorage`, and what an allocator
gives for a handler is part of the call. To use a handler that is no longer there is not defined.

The source does not look at what `TlsSetValue` returns. Where that fails a handler that was made is
nobody's, or one that is given back stays a thread's.

* `ExceptionHandlers.Handling.step`: a call of a thread does to its handler what it does when the
  thread is alone, and to no other, if the system sets the pointer.
* `ExceptionHandlers.isolated`: **each handler that there is is one thread's iff every pointer is
  set**, and then in every interleaving each thread gets what it gets alone, and an interleaving is
  defined just when each thread is: no handler is leaked, shared, or used after it was deallocated.
-/

namespace Hologine

open Hologine.Library.Run Hologine.Library.Threads Hologine.Library.Owners Hologine.Threading

variable {ω τ : Type}

/-- A call. The last argument of `enable` is what the allocator gives. -/
inductive HandlerCall
  | enable (allocator callback pointer : UInt64)
  | disable
  | push (code platformCode : Int)
  | getLast
  | getLastPlatform
  deriving Repr, DecidableEq

/-- What a call returns. `disable` tells which allocator a handler is given back to. -/
inductive HandlerResult
  | enabled (enabled : Bool)
  | disabled (deallocator : Option UInt64)
  | pushed
  | exception (code : Int)
  | platformException (code : Int)
  deriving Repr, DecidableEq

/-! ## One thread -/

/-- A call on a thread that is alone. `isValid` is whether the thread-local variable has a slot. -/
def stepAlone (isValid : Bool) (handler : Option ExceptionHandler) :
    HandlerCall → Option (HandlerResult × Option ExceptionHandler)
  | .enable allocator callback pointer =>
    let (enabled, handler) := enableExceptions handler isValid allocator (pointer ≠ 0) callback
    some (.enabled enabled, handler)
  | .disable => some (.disabled (handler.map ExceptionHandler.allocator), none)
  | .push code platformCode =>
    (stepException handler (.push code platformCode)).map fun (_, handler) => (.pushed, handler)
  | .getLast =>
    (stepException handler .getLast).map fun (code, handler) => (.exception (code.getD 0), handler)
  | .getLastPlatform => some (.platformException (getLastPlatformException handler), handler)

/-- An `exception_handler` as `enable_exceptions` makes it. -/
def newHandler (allocator callback : UInt64) : ExceptionHandler where
  exceptionStack _ := ⟨0, 0⟩
  exceptionStackTop := 0
  platformExceptionCode := 0
  callback := callback
  allocator := allocator

/-! ## All threads -/

/-- `holo_exception_handler`, the system, and the handlers that there are. -/
structure ExceptionHandlers (ω : Type) where
  handlerVariable : ThreadLocalVariable
  system : ω
  handlers : UInt64 → Option ExceptionHandler

namespace ExceptionHandlers

/-- The handler of a thread, or null: `holo_exception_handler`, read by the thread. -/
def pointer (v : ThreadStorage ω τ) (s : ExceptionHandlers ω) (t : τ) : UInt64 :=
  s.handlerVariable.get v t s.system

/-- `holo_exception_handler = handler`, by a thread. -/
def setPointer (v : ThreadStorage ω τ) (s : ExceptionHandlers ω) (t : τ) (handler : UInt64) :
    ExceptionHandlers ω :=
  { s with system := s.handlerVariable.set v t handler s.system }

/-- The handlers, with one of them changed. -/
def setHandler (s : ExceptionHandlers ω) (address : UInt64) (handler : Option ExceptionHandler) :
    ExceptionHandlers ω :=
  { s with handlers := Function.update s.handlers address handler }

/-- `enable_exceptions`. -/
def enable (v : ThreadStorage ω τ) (s : ExceptionHandlers ω) (t : τ)
    (allocator callback pointer : UInt64) : Option (Bool × ExceptionHandlers ω) :=
  if ¬ s.handlerVariable.isValid then some (false, s)
  else
    let handler := s.pointer v t
    if handler = 0 then
      if allocator = 0 then some (false, s)
      else if pointer = 0 then some (false, s)
      else some (true,
        (s.setPointer v t pointer).setHandler pointer (some (newHandler allocator callback)))
    else (s.handlers handler).map fun h =>
      (true, s.setHandler handler (some { h with callback := callback }))

/-- `disable_exceptions`: the allocator that the handler is given back to. -/
def disable (v : ThreadStorage ω τ) (s : ExceptionHandlers ω) (t : τ) :
    Option (Option UInt64 × ExceptionHandlers ω) :=
  let handler := s.pointer v t
  if handler = 0 then some (none, s)
  else (s.handlers handler).map fun h =>
    (some h.allocator, (s.setPointer v t 0).setHandler handler none)

/-- `push_exception`. -/
def push (v : ThreadStorage ω τ) (s : ExceptionHandlers ω) (t : τ) (code platformCode : Int) :
    Option (ExceptionHandlers ω) :=
  let handler := s.pointer v t
  if handler ≠ 0 then
    (s.handlers handler).bind fun h => (h.pushException code platformCode).map fun h =>
      s.setHandler handler (some h)
  else some s

/-- `get_last_exception`. -/
def getLast (v : ThreadStorage ω τ) (s : ExceptionHandlers ω) (t : τ) :
    Option (Int × ExceptionHandlers ω) :=
  let handler := s.pointer v t
  if handler ≠ 0 then
    (s.handlers handler).bind fun h => h.getLastException.map fun (code, h) =>
      (code, s.setHandler handler (some h))
  else some (0, s)

/-- `get_last_platform_exception`. -/
def getLastPlatform (v : ThreadStorage ω τ) (s : ExceptionHandlers ω) (t : τ) : Option Int :=
  let handler := s.pointer v t
  if handler ≠ 0 then (s.handlers handler).map ExceptionHandler.platformExceptionCode else some 0

/-- A call of a thread. -/
def step (v : ThreadStorage ω τ) (s : ExceptionHandlers ω) (call : τ × HandlerCall) :
    Option ((τ × HandlerResult) × ExceptionHandlers ω) :=
  match call with
  | (t, .enable allocator callback pointer) =>
    (s.enable v t allocator callback pointer).map fun (enabled, s) => ((t, .enabled enabled), s)
  | (t, .disable) => (s.disable v t).map fun (deallocator, s) => ((t, .disabled deallocator), s)
  | (t, .push code platformCode) =>
    (s.push v t code platformCode).map fun s => ((t, .pushed), s)
  | (t, .getLast) => (s.getLast v t).map fun (code, s) => ((t, .exception code), s)
  | (t, .getLastPlatform) =>
    (s.getLastPlatform v t).map fun code => ((t, .platformException code), s)

/-- No allocator gives memory that a handler is in. -/
def Legal (s : ExceptionHandlers ω) : τ × HandlerCall → Prop
  | (_, .enable _ _ pointer) => (s.handlers pointer).isNone
  | _ => True

instance (s : ExceptionHandlers ω) : (call : τ × HandlerCall) → Decidable (s.Legal call)
  | (_, .enable _ _ pointer) => inferInstanceAs (Decidable ((s.handlers pointer).isNone = true))
  | (_, .disable) | (_, .push _ _) | (_, .getLast) | (_, .getLastPlatform) => isTrue trivial

/-- The system sets the pointer, if the call sets one. -/
def SetsPointer (v : ThreadStorage ω τ) (s : ExceptionHandlers ω) : τ × HandlerCall → Prop
  | (t, .enable allocator _ pointer) =>
    s.handlerVariable.isValid → s.pointer v t = 0 → allocator ≠ 0 → pointer ≠ 0 →
      s.handlerVariable.kept v t pointer s.system
  | (t, .disable) => s.pointer v t ≠ 0 → s.handlerVariable.kept v t 0 s.system
  | _ => True

instance (v : ThreadStorage ω τ) (s : ExceptionHandlers ω) :
    (call : τ × HandlerCall) → Decidable (s.SetsPointer v call)
  | (t, .enable allocator _ pointer) => inferInstanceAs (Decidable
      (s.handlerVariable.isValid = true → s.pointer v t = 0 → allocator ≠ 0 → pointer ≠ 0 →
        s.handlerVariable.kept v t pointer s.system = true))
  | (t, .disable) => inferInstanceAs (Decidable
      (s.pointer v t ≠ 0 → s.handlerVariable.kept v t 0 s.system = true))
  | (_, .push _ _) | (_, .getLast) | (_, .getLastPlatform) => isTrue trivial

/-- Before the first call: the thread-local variable has been constructed. -/
def start (v : ThreadStorage ω τ) (w : ω) : ExceptionHandlers ω :=
  let (handlerVariable, w) := ThreadLocalVariable.construct v w
  ⟨handlerVariable, w, fun _ => none⟩

/-- The handler that a thread has. -/
def handlerOf (v : ThreadStorage ω τ) (s : ExceptionHandlers ω) : τ → Option ExceptionHandler :=
  objectOf 0 (s.pointer v) s.handlers

/-- **Each handler that there is is one thread's**, and a thread that has a pointer has it to a
handler. -/
def OwnedHandlers (v : ThreadStorage ω τ) (s : ExceptionHandlers ω) : Prop :=
  Owned 0 (s.pointer v) s.handlers

/-- **What lasts** while the system sets the pointers. -/
structure Handling (v : ThreadStorage ω τ) (s : ExceptionHandlers ω) : Prop where
  owned : s.OwnedHandlers v
  allocated : s.handlerVariable.Allocated (v.slots s.system)

/-! ## One call -/

variable [DecidableEq τ] {v : ThreadStorage ω τ} {s : ExceptionHandlers ω} {t : τ}
  {address : UInt64}

/-- A pointer that is set is one thread's, if the system sets it. -/
theorem pointer_setPointer (hv : v.Documented)
    (hallocated : s.handlerVariable.Allocated (v.slots s.system)) (t : τ) (handler : UInt64) :
    (s.setPointer v t handler).pointer v =
      if s.handlerVariable.initialized ∧ s.handlerVariable.kept v t handler s.system = true then
        Function.update (s.pointer v) t handler
      else s.pointer v := by
  have hpointer : s.pointer v = s.handlerVariable.held (v.slots s.system) :=
    funext fun t' => ThreadLocalVariable.get_eq hv hallocated t'
  have hset : (s.setPointer v t handler).pointer v =
      s.handlerVariable.held (v.slots (s.handlerVariable.set v t handler s.system)) :=
    funext fun t' => ThreadLocalVariable.get_eq hv (hallocated.set hv t handler) t'
  rw [hset, hpointer, ThreadLocalVariable.held_set hv hallocated]

omit [DecidableEq τ] in
/-- A thread with a pointer has the variable's slot. -/
theorem initialized_of_pointer (h : s.pointer v t ≠ 0) : s.handlerVariable.initialized := by
  by_contra hinit
  exact h (if_neg hinit)

/-- **A handler is made for a thread** that has none. -/
theorem Handling.create (h : s.Handling v) (hv : v.Documented) (hvalid : s.handlerVariable.isValid)
    (hkept : s.handlerVariable.kept v t address s.system) (hpointer : s.pointer v t = 0)
    (hnull : address ≠ 0) (hfresh : (s.handlers address).isNone) (handler : ExceptionHandler) :
    ((s.setPointer v t address).setHandler address (some handler)).Handling v ∧
      ((s.setPointer v t address).setHandler address (some handler)).handlerOf v =
        Function.update (s.handlerOf v) t (some handler) := by
  have hset : ((s.setPointer v t address).setHandler address (some handler)).pointer v =
      Function.update (s.pointer v) t address :=
    (pointer_setPointer hv h.allocated t address).trans (if_pos ⟨hvalid, hkept⟩)
  have hcreate := Owned.create h.owned hpointer hnull (Option.isNone_iff_eq_none.mp hfresh) handler
  refine ⟨⟨?_, h.allocated.set hv t address⟩, ?_⟩
  · rw [OwnedHandlers, hset]
    exact hcreate.1
  · rw [handlerOf, hset]
    exact hcreate.2

/-- **A thread's handler is given back.** -/
theorem Handling.remove (h : s.Handling v) (hv : v.Documented) (hpointer : s.pointer v t ≠ 0)
    (hkept : s.handlerVariable.kept v t 0 s.system) :
    ((s.setPointer v t 0).setHandler (s.pointer v t) none).Handling v ∧
      ((s.setPointer v t 0).setHandler (s.pointer v t) none).handlerOf v =
        Function.update (s.handlerOf v) t none := by
  have hset : ((s.setPointer v t 0).setHandler (s.pointer v t) none).pointer v =
      Function.update (s.pointer v) t 0 :=
    (pointer_setPointer hv h.allocated t 0).trans (if_pos ⟨initialized_of_pointer hpointer, hkept⟩)
  have hremove := Owned.remove h.owned hpointer
  refine ⟨⟨?_, h.allocated.set hv t 0⟩, ?_⟩
  · rw [OwnedHandlers, hset]
    exact hremove.1
  · rw [handlerOf, hset]
    exact hremove.2

/-- A thread's handler changes. -/
theorem Handling.modify (h : s.Handling v) (hpointer : s.pointer v t ≠ 0)
    (handler : ExceptionHandler) :
    (s.setHandler (s.pointer v t) (some handler)).Handling v ∧
      (s.setHandler (s.pointer v t) (some handler)).handlerOf v =
        Function.update (s.handlerOf v) t (some handler) := by
  obtain ⟨howned, hmodify⟩ := Owned.modify h.owned hpointer handler
  exact ⟨⟨howned, h.allocated⟩, hmodify⟩

/-- What a call of a thread does, beside what it does alone. -/
def Matches (v : ThreadStorage ω τ) (s : ExceptionHandlers ω) (call : τ × HandlerCall) : Prop :=
  (s.step v call = none ∧
      interleaved (stepAlone s.handlerVariable.isValid) (s.handlerOf v) call = none) ∨
    ∃ result s', s.step v call = some (result, s') ∧ s'.handlerVariable = s.handlerVariable ∧
      interleaved (stepAlone s.handlerVariable.isValid) (s.handlerOf v) call =
        some (result, s'.handlerOf v) ∧ s'.Handling v

/-- A call that changes nothing. -/
theorem matches_same {call : HandlerCall} (result : HandlerResult) (h : s.Handling v)
    (hstep : s.step v (t, call) = some ((t, result), s))
    (halone : stepAlone s.handlerVariable.isValid (s.handlerOf v t) call =
      some (result, s.handlerOf v t)) : s.Matches v (t, call) :=
  .inr ⟨(t, result), s, hstep, rfl,
    interleaved_eq_some.mpr ⟨result, s.handlerOf v t, halone, rfl,
      (Function.update_eq_self ..).symm⟩, h⟩

/-- A call that changes the thread's handler. -/
theorem matches_update {handler : Option ExceptionHandler} {call : HandlerCall}
    (result : HandlerResult) (s' : ExceptionHandlers ω)
    (hstep : s.step v (t, call) = some ((t, result), s'))
    (halone : stepAlone s.handlerVariable.isValid (s.handlerOf v t) call = some (result, handler))
    (h : s'.Handling v ∧ s'.handlerOf v = Function.update (s.handlerOf v) t handler)
    (hvariable : s'.handlerVariable = s.handlerVariable) :
    s.Matches v (t, call) :=
  .inr ⟨(t, result), s', hstep, hvariable,
    interleaved_eq_some.mpr ⟨result, handler, halone, rfl, h.2⟩, h.1⟩

theorem Handling.enable (h : s.Handling v) (allocator callback pointer : UInt64)
    (hv : v.Documented) (hfresh : (s.handlers pointer).isNone)
    (hsets : s.SetsPointer v (t, .enable allocator callback pointer)) :
    s.Matches v (t, .enable allocator callback pointer) := by
  by_cases hvalid : s.handlerVariable.isValid
  · by_cases hnone : s.pointer v t = 0
    · have hobject : s.handlerOf v t = none := objectOf_of_null hnone
      by_cases hallocator : allocator = 0
      · refine matches_same (.enabled false) h ?_ ?_
        · simp [step, ExceptionHandlers.enable, hvalid, hnone, hallocator]
        · simp [stepAlone, enableExceptions, hvalid, hobject, hallocator]
      by_cases hpointer : pointer = 0
      · refine matches_same (.enabled false) h ?_ ?_
        · simp [step, ExceptionHandlers.enable, hvalid, hnone, hallocator, hpointer]
        · simp [stepAlone, enableExceptions, hvalid, hobject, hallocator, hpointer]
      · refine matches_update (.enabled true) _ ?_ ?_
          (h.create hv hvalid (hsets hvalid hnone hallocator hpointer) hnone hpointer hfresh
            (newHandler allocator callback)) rfl
        · simp [step, ExceptionHandlers.enable, hvalid, hnone, hallocator, hpointer]
        · simp [stepAlone, enableExceptions, hvalid, hobject, hallocator, hpointer, newHandler]
    · obtain ⟨handler, hlive, hobject⟩ := h.owned.exists_object hnone
      have hobject : s.handlerOf v t = some handler := hobject
      refine matches_update (.enabled true)
        (s.setHandler (s.pointer v t) (some { handler with callback := callback })) ?_ ?_
        (h.modify hnone { handler with callback := callback }) rfl
      · simp [step, ExceptionHandlers.enable, hvalid, hnone, hlive]
      · simp [stepAlone, enableExceptions, hvalid, hobject]
  · refine matches_same (.enabled false) h ?_ ?_
    · simp [step, ExceptionHandlers.enable, hvalid]
    · simp [stepAlone, enableExceptions, hvalid]

theorem Handling.disable (h : s.Handling v) (hv : v.Documented)
    (hsets : s.SetsPointer v (t, .disable)) : s.Matches v (t, .disable) := by
  by_cases hnone : s.pointer v t = 0
  · have hobject : s.handlerOf v t = none := objectOf_of_null hnone
    refine matches_same (.disabled none) h ?_ ?_
    · simp [step, ExceptionHandlers.disable, hnone]
    · simp [stepAlone, hobject]
  · obtain ⟨handler, hlive, hobject⟩ := h.owned.exists_object hnone
    have hobject : s.handlerOf v t = some handler := hobject
    refine matches_update (.disabled (some handler.allocator)) _ ?_ ?_ (h.remove hv hnone (hsets hnone))
      rfl
    · simp [step, ExceptionHandlers.disable, hnone, hlive]
    · simp [stepAlone, hobject]

theorem Handling.push (h : s.Handling v) (code platformCode : Int) :
    s.Matches v (t, .push code platformCode) := by
  by_cases hnone : s.pointer v t = 0
  · have hobject : s.handlerOf v t = none := objectOf_of_null hnone
    refine matches_same .pushed h ?_ ?_
    · simp [step, ExceptionHandlers.push, hnone]
    · simp [stepAlone, stepException, hobject]
  · obtain ⟨handler, hlive, hobject⟩ := h.owned.exists_object hnone
    have hobject : s.handlerOf v t = some handler := hobject
    cases hpush : handler.pushException code platformCode with
    | none =>
      refine .inl ⟨?_, ?_⟩
      · simp [step, ExceptionHandlers.push, hnone, hlive, hpush]
      · simp [interleaved, stepAlone, stepException, hobject, hpush]
    | some handler' =>
      refine matches_update .pushed
        (s.setHandler (s.pointer v t) (some handler')) ?_ ?_ (h.modify hnone handler') rfl
      · simp [step, ExceptionHandlers.push, hnone, hlive, hpush]
      · simp [stepAlone, stepException, hobject, hpush]

theorem Handling.getLast (h : s.Handling v) : s.Matches v (t, .getLast) := by
  by_cases hnone : s.pointer v t = 0
  · have hobject : s.handlerOf v t = none := objectOf_of_null hnone
    refine matches_same (.exception 0) h ?_ ?_
    · simp [step, ExceptionHandlers.getLast, hnone]
    · simp [stepAlone, stepException, hobject]
  · obtain ⟨handler, hlive, hobject⟩ := h.owned.exists_object hnone
    have hobject : s.handlerOf v t = some handler := hobject
    cases hget : handler.getLastException with
    | none =>
      refine .inl ⟨?_, ?_⟩
      · simp [step, ExceptionHandlers.getLast, hnone, hlive, hget]
      · simp [interleaved, stepAlone, stepException, hobject, hget]
    | some r =>
      obtain ⟨code, handler'⟩ := r
      refine matches_update (.exception code)
        (s.setHandler (s.pointer v t) (some handler')) ?_ ?_ (h.modify hnone handler') rfl
      · simp [step, ExceptionHandlers.getLast, hnone, hlive, hget]
      · simp [stepAlone, stepException, hobject, hget]

theorem Handling.getLastPlatform (h : s.Handling v) : s.Matches v (t, .getLastPlatform) := by
  by_cases hnone : s.pointer v t = 0
  · have hobject : s.handlerOf v t = none := objectOf_of_null hnone
    refine matches_same (.platformException 0) h ?_ ?_
    · simp [step, ExceptionHandlers.getLastPlatform, hnone]
    · simp [stepAlone, getLastPlatformException, hobject]
  · obtain ⟨handler, hlive, hobject⟩ := h.owned.exists_object hnone
    have hobject : s.handlerOf v t = some handler := hobject
    refine matches_same (.platformException handler.platformExceptionCode) h ?_ ?_
    · simp [step, ExceptionHandlers.getLastPlatform, hnone, hlive]
    · simp [stepAlone, getLastPlatformException, hobject]

/-- **A call of a thread** is a call of the thread alone, if the system sets the pointer. -/
theorem Handling.step (h : s.Handling v) (hv : v.Documented) {call : τ × HandlerCall}
    (hlegal : s.Legal call) (hsets : s.SetsPointer v call) :
    s.Matches v call := by
  obtain ⟨t, call⟩ := call
  cases call with
  | enable allocator callback pointer => exact h.enable allocator callback pointer hv hlegal hsets
  | disable => exact h.disable hv hsets
  | push code platformCode => exact h.push code platformCode
  | getLast => exact h.getLast
  | getLastPlatform => exact h.getLastPlatform

/-- **Where the system does not set a pointer**, a handler that was made is nobody's, or a thread is
left with one that was given back. -/
theorem Handling.setsPointer (h : s.Handling v) (hv : v.Documented) {call : τ × HandlerCall}
    (hlegal : s.Legal call)
    (howned : ∀ result s', s.step v call = some (result, s') → s'.OwnedHandlers v) :
    s.SetsPointer v call := by
  obtain ⟨t, call⟩ := call
  have hsame {handler : UInt64} (hnot : ¬ s.handlerVariable.kept v t handler s.system) :
      (s.setPointer v t handler).pointer v = s.pointer v :=
    (pointer_setPointer hv h.allocated t handler).trans (if_neg fun hboth => hnot hboth.2)
  cases call with
  | enable allocator callback pointer =>
    intro hvalid hnone hallocator hpointer
    by_contra hnot
    let s' := (s.setPointer v t pointer).setHandler pointer (some (newHandler allocator callback))
    have hstep : s.step v (t, .enable allocator callback pointer) =
        some ((t, .enabled true), s') := by
      simp [ExceptionHandlers.step, ExceptionHandlers.enable, hvalid, hnone, hallocator, hpointer,
        s']
    have hthere : (s'.handlers pointer).isSome := by
      simp [s', setHandler]
    -- the handler is new, so nobody had its address before
    obtain ⟨-, t', ht'⟩ := (howned _ _ hstep).owned pointer hthere
    have hold : s.pointer v t' = pointer := (congrFun (hsame hnot) t').symm.trans ht'
    have hlive := h.owned.live t' (hold ▸ hpointer)
    have hfresh : (s.handlers pointer).isNone := hlegal
    rw [hold, Option.isSome_iff_ne_none] at hlive
    exact hlive (Option.isNone_iff_eq_none.mp hfresh)
  | disable =>
    intro hpointer
    by_contra hnot
    obtain ⟨handler, hlive, -⟩ := h.owned.exists_object hpointer
    let s' := (s.setPointer v t 0).setHandler (s.pointer v t) none
    have hstep : s.step v (t, .disable) =
        some ((t, .disabled (some handler.allocator)), s') := by
      simp [ExceptionHandlers.step, ExceptionHandlers.disable, hpointer, hlive, s']
    have hkeeps : s'.pointer v t = s.pointer v t := congrFun (hsame hnot) t
    have hthere := (howned _ _ hstep).live t (hkeeps ▸ hpointer)
    rw [hkeeps] at hthere
    simp [s', setHandler] at hthere
  | push code platformCode => exact trivial
  | getLast => exact trivial
  | getLastPlatform => exact trivial

/-- **A call keeps each handler one thread's iff the system sets the pointer.** -/
theorem Handling.ownedHandlers_iff (h : s.Handling v) (hv : v.Documented) {call : τ × HandlerCall}
    (hlegal : s.Legal call) :
    (∀ result s', s.step v call = some (result, s') → s'.OwnedHandlers v) ↔
      s.SetsPointer v call := by
  refine ⟨h.setsPointer hv hlegal, fun hsets result s' hstep => ?_⟩
  rcases h.step hv hlegal hsets with ⟨hnone, -⟩ | ⟨result', s'', hstep', -, -, hhandling⟩
  · exact absurd (hnone.symm.trans hstep) nofun
  · obtain ⟨-, rfl⟩ := Prod.mk.inj (Option.some.inj (hstep'.symm.trans hstep))
    exact hhandling.owned

/-! ## Runs -/

/-- Before the first call no thread has a handler, and there is none. -/
theorem start_spec (hv : v.Documented) (w : ω) :
    (start v w).Handling v ∧ (start v w).handlerOf v = fun _ => none := by
  have hallocated : (start v w).handlerVariable.Allocated (v.slots (start v w).system) ∧
      (start v w).handlerVariable.held (v.slots (start v w).system) = fun _ => 0 := by
    rcases ThreadLocalVariable.construct_spec hv w with ⟨hinit, -, -⟩ | ⟨hinit, -, -, hnew⟩
    · have hnot : ¬ (start v w).handlerVariable.initialized := fun h => nomatch hinit.symm.trans h
      exact ⟨fun h => absurd h hnot, ThreadLocalVariable.held_of_not hnot⟩
    · have hself := (congrFun hnew _).trans (Function.update_self ..)
      exact ⟨fun _ => Option.isSome_of_eq_some hself, ThreadLocalVariable.held_of_slot hinit hself⟩
  have hpointer : (start v w).pointer v = fun _ => 0 :=
    funext fun t => (ThreadLocalVariable.get_eq hv hallocated.1 t).trans (congrFun hallocated.2 t)
  have hhandlers : (start v w).handlers = fun _ => none := rfl
  refine ⟨⟨⟨fun t ht => ?_, fun t _ ht _ => ?_, fun address haddress => ?_⟩, hallocated.1⟩, ?_⟩
  · exact absurd (congrFun hpointer t) ht
  · exact absurd (congrFun hpointer t) ht
  · rw [hhandlers] at haddress
    cases haddress
  · funext t
    exact objectOf_of_null (congrFun hpointer t)

/-- **Each handler that there is is one thread's, after every call, iff the system sets every
pointer**, and then each thread gets in an interleaving what it gets alone. -/
theorem isolated (hv : v.Documented) (w : ω) (calls : List (τ × HandlerCall))
    (hlegal : Along (step v) Legal (start v w) calls) :
    (Along (step v) (fun s call => ∀ result s',
        s.step v call = some (result, s') → s'.OwnedHandlers v) (start v w) calls ↔
      Along (step v) (SetsPointer v) (start v w) calls) ∧
    (Along (step v) (SetsPointer v) (start v w) calls →
      ((exec (step v) (start v w) calls).isSome ↔
        ∀ t, (exec (stepAlone (start v w).handlerVariable.isValid) none
          (calls.filterMap (own t))).isSome) ∧
      ∀ results s', exec (step v) (start v w) calls = some (results, s') →
        (∀ t, exec (stepAlone (start v w).handlerVariable.isValid) none
          (calls.filterMap (own t)) = some (results.filterMap (own t), s'.handlerOf v t)) ∧
        s'.OwnedHandlers v) := by
  obtain ⟨hstart, hnone⟩ := start_spec hv w
  constructor
  · refine along_congr (Handling v) (fun s call h hlegal => h.ownedHandlers_iff hv hlegal)
      (fun s call result s' h hlegal hsets hstep => ?_) hstart hlegal
    rcases h.step hv hlegal hsets with ⟨hundefined, -⟩ | ⟨_, s'', hstep', -, -, hhandling⟩
    · exact absurd (hundefined.symm.trans hstep) nofun
    · obtain ⟨-, rfl⟩ := Prod.mk.inj (Option.some.inj (hstep'.symm.trans hstep))
      exact hhandling
  intro hsets
  generalize hvalid : (start v w).handlerVariable.isValid = valid
  let R (s : ExceptionHandlers ω) (a : τ → Option ExceptionHandler) : Prop :=
    s.Handling v ∧ a = s.handlerOf v ∧ s.handlerVariable.isValid = valid
  have hcall (s : ExceptionHandlers ω) (a : τ → Option ExceptionHandler) (call : τ × HandlerCall)
      (hR : R s a) (hcall : s.Legal call ∧ s.SetsPointer v call) :
      (s.step v call = none ∧ interleaved (stepAlone valid) a call = none) ∨
        ∃ result s' a', s.step v call = some (result, s') ∧
          interleaved (stepAlone valid) a call = some (result, a') ∧ R s' a' := by
    obtain ⟨hhandling, rfl, hvalid⟩ := hR
    have hmatches := hhandling.step hv hcall.1 hcall.2
    rw [Matches, hvalid] at hmatches
    rcases hmatches with hundefined | ⟨result, s', hstep, hvariable, halone, hhandling'⟩
    · exact .inl hundefined
    · exact .inr ⟨result, s', s'.handlerOf v, hstep, halone, hhandling', rfl, hvariable ▸ hvalid⟩
  have hrefines := refines_of_step hcall ⟨hstart, hnone.symm, hvalid⟩ (hlegal.and hsets)
  rcases hrefines with ⟨hnone, hnone'⟩ | ⟨results, s', a', hrun, hrun', hhandling, rfl, -⟩
  · rw [hnone]
    refine ⟨?_, nofun⟩
    rw [← isSome_exec_interleaved, hnone']
    exact Iff.rfl
  · refine ⟨?_, fun results' s'' hrun'' => ?_⟩
    · rw [hrun, ← isSome_exec_interleaved, hrun']
      exact Iff.rfl
    · obtain ⟨rfl, rfl⟩ := Prod.mk.inj (Option.some.inj (hrun.symm.trans hrun''))
      exact ⟨fun t => exec_interleaved t hrun', hhandling.owned⟩

/-- Two threads with a callback each; the first is disabled and has another handler made in the same
place. -/
def twoHandlers : List (Bool × HandlerCall) :=
  [(true, .enable 0x20 0x40 0x100), (false, .enable 0x20 0x48 0x200), (true, .push 1 7),
    (false, .getLast), (true, .disable), (true, .enable 0x30 0x40 0x100), (true, .getLast)]

/-- Where the system sets every pointer, and where it does not set the first. -/
theorem isolated_twoHandlers :
    (Along (step .sample) (SetsPointer .sample) (start .sample fun _ => none) twoHandlers ∧
      ∀ results s', exec (step .sample) (start .sample fun _ => none) twoHandlers =
          some (results, s') → s'.OwnedHandlers .sample) ∧
    ¬ Along (step .sample) (fun s call => ∀ result s',
        s.step .sample call = some (result, s') → s'.OwnedHandlers .sample)
      (start .sample fun slot => if slot < 2 then some fun _ => 0 else none)
      [(true, .enable 0x20 0x40 0x100)] := by
  have hset : Along (step .sample) (SetsPointer .sample) (start .sample fun _ => none)
      twoHandlers := by decide
  obtain ⟨-, halone⟩ := isolated ThreadStorage.documented_sample (fun _ => none) twoHandlers
    (by decide)
  obtain ⟨howned, -⟩ := isolated ThreadStorage.documented_sample
    (fun slot => if slot < 2 then some fun _ => 0 else none) [(true, .enable 0x20 0x40 0x100)]
    (by decide)
  exact ⟨⟨hset, fun results s' hrun => ((halone hset).2 results s' hrun).2⟩,
    fun hall => absurd (howned.mp hall) (by decide)⟩

end ExceptionHandlers

end Hologine
