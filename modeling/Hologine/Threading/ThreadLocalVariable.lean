import Hologine.Library.Owners
import Hologine.Library.Run
import Mathlib.Data.Fintype.Basic
import Mathlib.Data.Fintype.Pi

/-!
# Thread-local variables

Model of `thread_local_variable` (`core/threading/thread_local_variable.hpp`) and of the Windows
`thread_local_variable_base` (`windows/core/threading/thread_local_variable_base.cpp:12-62`). The
calls of the system are a parameter, and `Documented` has what is documented of them. `TlsAlloc` may
give no slot and `TlsSetValue` may fail, which `set` does not look at.

* `Variables.refines_valueTable`: **in every run variables do what a table of one value for each
  variable and thread does**, where a value is set just when the system sets it: a variable without
  a slot is always null, and a slot that is reused keeps nothing of the variable that had it. What
  other code has in slots of its own stays, whatever it does with them between the calls.
-/

namespace Hologine.Threading

open Hologine.Library.Owners Hologine.Library.Run

variable {ω τ ν : Type}

/-! ## The system -/

/-- `TLS_OUT_OF_INDEXES`. -/
def tlsOutOfIndexes : UInt32 := 0xFFFFFFFF

/-- The calls of the system, some of them a thread's, `false` where one fails, and what the threads
have in each slot that is allocated. -/
structure ThreadStorage (ω τ : Type) where
  tlsAlloc : ω → UInt32 × ω
  tlsFree (slot : UInt32) : ω → Bool × ω
  tlsGetValue (slot : UInt32) (t : τ) : ω → UInt64
  tlsSetValue (slot : UInt32) (t : τ) (value : UInt64) : ω → Bool × ω
  getLastError : ω → UInt32
  slots : ω → UInt32 → Option (τ → UInt64)

/-- **What is documented of the calls** on slots that are allocated. -/
structure ThreadStorage.Documented [DecidableEq τ] (v : ThreadStorage ω τ) : Prop where
  /-- A slot that nobody has is given, null on every thread, or none is. -/
  alloc : ∀ w, let (slot, w') := v.tlsAlloc w
    slot = tlsOutOfIndexes ∧ v.slots w' = v.slots w ∨
      slot ≠ tlsOutOfIndexes ∧ v.slots w slot = none ∧
        v.slots w' = Function.update (v.slots w) slot (some fun _ => 0)
  free : ∀ slot w, (v.slots w slot).isSome → let (freed, w') := v.tlsFree slot w
    freed = true ∧ v.slots w' = Function.update (v.slots w) slot none ∨
      freed = false ∧ v.slots w' = v.slots w
  get : ∀ slot t w values, v.slots w slot = some values → v.tlsGetValue slot t w = values t
  set : ∀ slot t value w values, v.slots w slot = some values →
    let (kept, w') := v.tlsSetValue slot t value w
    kept = true ∧ v.slots w' =
        Function.update (v.slots w) slot (some (Function.update values t value)) ∨
      kept = false ∧ v.slots w' = v.slots w

/-! ## The variables -/

/-- `thread_local_variable`. -/
structure ThreadLocalVariable where
  initialized : Bool
  exception : UInt32
  slot : UInt32
  deriving Repr, DecidableEq

namespace ThreadLocalVariable

/-- The constructor. -/
def construct (v : ThreadStorage ω τ) (w : ω) : ThreadLocalVariable × ω :=
  let (slot, w) := v.tlsAlloc w
  if slot = tlsOutOfIndexes then (⟨false, v.getLastError w, slot⟩, w)
  else (⟨true, 0, slot⟩, w)

/-- The destructor. -/
def destroy (v : ThreadStorage ω τ) (x : ThreadLocalVariable) (w : ω) : ω :=
  if x.initialized then (v.tlsFree x.slot w).2 else w

/-- `get`. -/
def get (v : ThreadStorage ω τ) (x : ThreadLocalVariable) (t : τ) (w : ω) : UInt64 :=
  if x.initialized then v.tlsGetValue x.slot t w else 0

/-- `set`. -/
def set (v : ThreadStorage ω τ) (x : ThreadLocalVariable) (t : τ) (value : UInt64) (w : ω) : ω :=
  if x.initialized then (v.tlsSetValue x.slot t value w).2 else w

/-- What `TlsSetValue` returns to `set`, which does not look at it. -/
def kept (v : ThreadStorage ω τ) (x : ThreadLocalVariable) (t : τ) (value : UInt64) (w : ω) : Bool :=
  (v.tlsSetValue x.slot t value w).1

/-- `is_valid`. -/
def isValid (x : ThreadLocalVariable) : Bool := x.initialized

/-- `get_platform_exception_code`. -/
def getPlatformExceptionCode (x : ThreadLocalVariable) : UInt32 := x.exception

/-- What the threads have in a variable. -/
def held (x : ThreadLocalVariable) (slots : UInt32 → Option (τ → UInt64)) : τ → UInt64 :=
  if x.initialized then (slots x.slot).getD fun _ => 0 else fun _ => 0

/-- A variable that has a slot has it allocated. -/
def Allocated (x : ThreadLocalVariable) (slots : UInt32 → Option (τ → UInt64)) : Prop :=
  x.initialized → (slots x.slot).isSome

variable {x : ThreadLocalVariable} {slots slots' : UInt32 → Option (τ → UInt64)} {w : ω}

/-- A variable without a slot is null. -/
theorem held_of_not (h : ¬ x.initialized) : x.held slots = fun _ => 0 := if_neg h

theorem held_of_slot {values : τ → UInt64} (h : x.initialized) (hslot : slots x.slot = some values) :
    x.held slots = values := by
  rw [held, if_pos h, hslot, Option.getD_some]

/-- A variable whose slot holds what it held is as it was. -/
theorem held_congr (h : x.initialized → slots' x.slot = slots x.slot) :
    x.held slots' = x.held slots := by
  by_cases hinit : x.initialized
  · rw [held, held, h hinit]
  · rw [held_of_not hinit, held_of_not hinit]

section Documented

variable [DecidableEq τ] {v : ThreadStorage ω τ}

/-- A variable gets a slot of its own and is null, or it gets none. -/
theorem construct_spec (hv : v.Documented) (w : ω) :
    let (x, w') := construct v w
    x.initialized = false ∧ x.exception = v.getLastError w' ∧ v.slots w' = v.slots w ∨
      x.initialized = true ∧ x.exception = 0 ∧ v.slots w x.slot = none ∧
        v.slots w' = Function.update (v.slots w) x.slot (some fun _ => 0) := by
  have halloc := hv.alloc w
  unfold construct
  rcases hanswer : v.tlsAlloc w with ⟨slot, w'⟩
  rw [hanswer] at halloc
  rcases halloc with ⟨hout, hsame⟩ | ⟨hslot, hnone, hnew⟩
  · simp only [if_pos hout]
    exact .inl ⟨trivial, trivial, hsame⟩
  · simp only [if_neg hslot]
    exact .inr ⟨trivial, trivial, hnone, hnew⟩

/-- The slot of a variable that is destroyed is free, if the system frees it, and no other slot
changes. -/
theorem slots_destroy (hv : v.Documented) (h : x.Allocated (v.slots w)) {slot : UInt32}
    (hne : x.initialized → slot ≠ x.slot) : v.slots (x.destroy v w) slot = v.slots w slot := by
  unfold destroy
  by_cases hinit : x.initialized
  · have hfree := hv.free x.slot w (h hinit)
    rw [if_pos hinit]
    rcases hfree with ⟨-, hfree⟩ | ⟨-, hfree⟩
    · rw [hfree, Function.update_of_ne (hne hinit)]
    · rw [hfree]
  · rw [if_neg hinit]

theorem get_eq (hv : v.Documented) (h : x.Allocated (v.slots w)) (t : τ) :
    x.get v t w = x.held (v.slots w) t := by
  unfold get
  by_cases hinit : x.initialized
  · obtain ⟨values, hvalues⟩ := Option.isSome_iff_exists.mp (h hinit)
    rw [if_pos hinit, hv.get _ _ _ _ hvalues, held_of_slot hinit hvalues]
  · rw [if_neg hinit, held_of_not hinit]

/-- A variable is set on one thread, or on none, and the other slots stay. -/
theorem slots_set (hv : v.Documented) (h : x.Allocated (v.slots w)) (t : τ) (value : UInt64) :
    (x.initialized ∧ x.kept v t value w = true ∧ v.slots (x.set v t value w) =
        Function.update (v.slots w) x.slot
          (some (Function.update (x.held (v.slots w)) t value))) ∨
      ¬ (x.initialized ∧ x.kept v t value w = true) ∧
        v.slots (x.set v t value w) = v.slots w := by
  unfold set
  by_cases hinit : x.initialized
  · obtain ⟨values, hvalues⟩ := Option.isSome_iff_exists.mp (h hinit)
    have hset := hv.set x.slot t value w values hvalues
    rw [if_pos hinit]
    rcases hset with ⟨hkept, hset⟩ | ⟨hkept, hset⟩
    · rw [held_of_slot hinit hvalues]
      exact .inl ⟨hinit, hkept, hset⟩
    · exact .inr ⟨fun hboth => absurd (hkept.symm.trans hboth.2) (by decide), hset⟩
  · rw [if_neg hinit]
    exact .inr ⟨fun hboth => hinit hboth.1, rfl⟩

/-- What the threads have in a variable that is set. -/
theorem held_set (hv : v.Documented) (h : x.Allocated (v.slots w)) (t : τ) (value : UInt64) :
    x.held (v.slots (x.set v t value w)) =
      if x.initialized ∧ x.kept v t value w = true then
        Function.update (x.held (v.slots w)) t value
      else x.held (v.slots w) := by
  rcases slots_set hv h t value with ⟨hinit, hkept, hset⟩ | ⟨hnot, hset⟩
  · rw [if_pos ⟨hinit, hkept⟩, hset]
    exact held_of_slot hinit (Function.update_self ..)
  · rw [if_neg hnot, hset]

/-- A variable that is set keeps its slot. -/
theorem Allocated.set (hv : v.Documented) (h : x.Allocated (v.slots w)) (t : τ) (value : UInt64) :
    x.Allocated (v.slots (x.set v t value w)) := by
  intro hinit
  rcases slots_set hv h t value with ⟨-, -, hset⟩ | ⟨-, hset⟩
  · rw [hset, Function.update_self]
    rfl
  · rw [hset]
    exact h hinit

end Documented

end ThreadLocalVariable

/-- The calls on variables, which have names, and what other code does to the system. A thread gets
and sets its own value. -/
inductive VariableCall (ω ν τ : Type)
  | construct (n : ν)
  | destroy (n : ν)
  | get (n : ν) (t : τ)
  | set (n : ν) (t : τ) (value : UInt64)
  | isValid (n : ν)
  | getPlatformExceptionCode (n : ν)
  | other (w : ω)

/-- What a call returns. -/
inductive VariableResult
  | done
  | value (value : UInt64)
  | valid (valid : Bool)
  | code (code : UInt32)
  deriving Repr, DecidableEq

/-- The variables that there are, and the system. -/
structure Variables (ω ν : Type) where
  variableOf : ν → Option ThreadLocalVariable
  system : ω

/-! ## The table of values -/

/-- What a variable is for: whether it has a slot, why it has none, and a value for each thread. -/
structure VariableValues (τ : Type) where
  valid : Bool
  code : UInt32
  values : τ → UInt64

/-- The variables that there are, each with its values. -/
abbrev ValueTable (ν τ : Type) := ν → Option (VariableValues τ)

/-- The calls as the system answers them: with the error if it gives no slot, and with whether a
value is set. -/
inductive TableCall (ν τ : Type)
  | construct (n : ν) (error : Option UInt32)
  | destroy (n : ν)
  | get (n : ν) (t : τ)
  | set (n : ν) (t : τ) (value : UInt64) (kept : Bool)
  | isValid (n : ν)
  | getPlatformExceptionCode (n : ν)
  | other

namespace ValueTable

variable [DecidableEq ν] [DecidableEq τ]

/-- A call. -/
def step (s : ValueTable ν τ) : TableCall ν τ → Option (VariableResult × ValueTable ν τ)
  | .construct n error =>
    match s n with
    | none => some (.done, Function.update s n (some ⟨error.isNone, error.getD 0, fun _ => 0⟩))
    | some _ => none
  | .destroy n => (s n).map fun _ => (.done, Function.update s n none)
  | .get n t => (s n).map fun x => (.value (x.values t), s)
  | .set n t value kept => (s n).map fun x => (.done, Function.update s n (some
      { x with values := if x.valid ∧ kept then Function.update x.values t value else x.values }))
  | .isValid n => (s n).map fun x => (.valid x.valid, s)
  | .getPlatformExceptionCode n => (s n).map fun x => (.code x.code, s)
  | .other => some (.done, s)

end ValueTable

namespace Variables

variable [DecidableEq ν]

/-- A call. A variable is constructed where there is none, and used where there is one. -/
def step (v : ThreadStorage ω τ) (s : Variables ω ν) :
    VariableCall ω ν τ → Option (VariableResult × Variables ω ν)
  | .construct n =>
    match s.variableOf n with
    | none =>
      let (x, w) := ThreadLocalVariable.construct v s.system
      some (.done, ⟨Function.update s.variableOf n (some x), w⟩)
    | some _ => none
  | .destroy n => (s.variableOf n).map fun x =>
      (.done, ⟨Function.update s.variableOf n none, x.destroy v s.system⟩)
  | .get n t => (s.variableOf n).map fun x => (.value (x.get v t s.system), s)
  | .set n t value => (s.variableOf n).map fun x =>
      (.done, { s with system := x.set v t value s.system })
  | .isValid n => (s.variableOf n).map fun x => (.valid x.isValid, s)
  | .getPlatformExceptionCode n => (s.variableOf n).map fun x =>
      (.code x.getPlatformExceptionCode, s)
  | .other w => some (.done, { s with system := w })

/-- What the system answers to a call. -/
def answered (v : ThreadStorage ω τ) (s : Variables ω ν) : VariableCall ω ν τ → TableCall ν τ
  | .construct n =>
    let (slot, w) := v.tlsAlloc s.system
    .construct n (if slot = tlsOutOfIndexes then some (v.getLastError w) else none)
  | .destroy n => .destroy n
  | .get n t => .get n t
  | .set n t value =>
    .set n t value ((s.variableOf n).any fun x => x.kept v t value s.system)
  | .isValid n => .isValid n
  | .getPlatformExceptionCode n => .getPlatformExceptionCode n
  | .other _ => .other

/-- Other code leaves the slots of the variables as they are. -/
def Legal (v : ThreadStorage ω τ) (s : Variables ω ν) : VariableCall ω ν τ → Prop
  | .other w => ∀ n, ∀ x ∈ s.variableOf n, x.initialized →
      v.slots w x.slot = v.slots s.system x.slot
  | _ => True

instance decidableLegal [Fintype ν] [Fintype τ] (v : ThreadStorage ω τ) (s : Variables ω ν) :
    (call : VariableCall ω ν τ) → Decidable (s.Legal v call)
  | .other w => inferInstanceAs (Decidable (∀ n, ∀ x ∈ s.variableOf n, x.initialized →
      v.slots w x.slot = v.slots s.system x.slot))
  | .construct _ | .destroy _ | .get _ _ | .set _ _ _ | .isValid _ | .getPlatformExceptionCode _ =>
    isTrue trivial

/-- A call, if it is not other code's, leaves what is in slots that no variable has. -/
def KeepsOthers (v : ThreadStorage ω τ) (s : Variables ω ν) : VariableCall ω ν τ → Prop
  | .other _ => True
  | call => ∀ result s', s.step v call = some (result, s') →
      ∀ slot, (v.slots s.system slot).isSome →
        (∀ n x, s.variableOf n = some x → x.initialized → x.slot ≠ slot) →
          v.slots s'.system slot = v.slots s.system slot

end Variables

/-! ## Refinement -/

/-- What a variable is for. -/
def ThreadLocalVariable.toValues (slots : UInt32 → Option (τ → UInt64)) (x : ThreadLocalVariable) :
    VariableValues τ := ⟨x.initialized, x.exception, x.held slots⟩

/-- The values of the variables. -/
def tableOf (variableOf : ν → Option ThreadLocalVariable) (slots : UInt32 → Option (τ → UInt64)) :
    ValueTable ν τ := fun n => (variableOf n).map (ThreadLocalVariable.toValues slots)

/-- **What lasts**: the variables with slots have their own, which are allocated. -/
structure OwnSlots (variableOf : ν → Option ThreadLocalVariable)
    (slots : UInt32 → Option (τ → UInt64)) : Prop where
  allocated : ∀ n x, variableOf n = some x → x.Allocated slots
  unique : ∀ n m x y, variableOf n = some x → variableOf m = some y →
    x.initialized → y.initialized → x.slot = y.slot → n = m

section OwnSlots

variable {variableOf : ν → Option ThreadLocalVariable} {slots slots' : UInt32 → Option (τ → UInt64)}
  {n m : ν} {x y : ThreadLocalVariable}

/-- Two variables have two slots. -/
theorem OwnSlots.slot_ne (h : OwnSlots variableOf slots) (hx : variableOf n = some x)
    (hy : variableOf m = some y) (hinit : x.initialized) (hinit' : y.initialized) (hne : m ≠ n) :
    y.slot ≠ x.slot :=
  fun heq => hne (h.unique m n y x hy hx hinit' hinit heq)

/-- What the slots of the variables hold is all that matters of the slots. -/
theorem OwnSlots.congr (h : OwnSlots variableOf slots) (hslots : ∀ n x, variableOf n = some x →
      x.initialized → slots' x.slot = slots x.slot) :
    OwnSlots variableOf slots' ∧ tableOf variableOf slots' = tableOf variableOf slots := by
  refine ⟨⟨fun n x hx hinit => ?_, h.unique⟩, ?_⟩
  · rw [hslots n x hx hinit]
    exact h.allocated n x hx hinit
  · funext n
    cases hx : variableOf n with
    | none => simp only [tableOf, hx, Option.map_none]
    | some x =>
      simp only [tableOf, hx, Option.map_some, ThreadLocalVariable.toValues,
        ThreadLocalVariable.held_congr (hslots n x hx)]

variable [DecidableEq ν]

/-- **One variable changes**, where the others keep what their slots hold and none has its slot. -/
theorem OwnSlots.update (h : OwnSlots variableOf slots) {o : Option ThreadLocalVariable}
    (hothers : ∀ m y, m ≠ n → variableOf m = some y → y.initialized →
      slots' y.slot = slots y.slot ∧ ∀ x ∈ o, x.initialized → y.slot ≠ x.slot)
    (hnew : ∀ x ∈ o, x.Allocated slots') :
    OwnSlots (Function.update variableOf n o) slots' ∧
      tableOf (Function.update variableOf n o) slots' =
        Function.update (tableOf variableOf slots) n
          (o.map (ThreadLocalVariable.toValues slots')) := by
  refine ⟨⟨fun m y hy hinit => ?_, fun m m' y y' hy hy' hinit hinit' heq => ?_⟩, ?_⟩
  · rcases update_eq_some.mp hy with ⟨-, ho⟩ | ⟨hm, hy⟩
    · exact hnew y ho hinit
    · rw [(hothers m y hm hy hinit).1]
      exact h.allocated m y hy hinit
  · rcases update_eq_some.mp hy with ⟨rfl, ho⟩ | ⟨hm, hm_eq⟩
    · rcases update_eq_some.mp hy' with ⟨rfl, -⟩ | ⟨hm', hm_eq'⟩
      · rfl
      · exact absurd heq.symm ((hothers m' y' hm' hm_eq' hinit').2 y ho hinit)
    · rcases update_eq_some.mp hy' with ⟨rfl, ho⟩ | ⟨hm', hm_eq'⟩
      · exact absurd heq ((hothers m y hm hm_eq hinit).2 y' ho hinit')
      · exact h.unique m m' y y' hm_eq hm_eq' hinit hinit' heq
  · funext m
    by_cases hm : m = n
    · subst hm
      simp only [tableOf, Function.update_self]
    · rw [Function.update_of_ne hm]
      simp only [tableOf, Function.update_of_ne hm]
      cases hy : variableOf m with
      | none => rfl
      | some y =>
        simp only [Option.map_some, ThreadLocalVariable.toValues,
          ThreadLocalVariable.held_congr fun hinit => (hothers m y hm hy hinit).1]

end OwnSlots

namespace Variables

variable [DecidableEq ν] [DecidableEq τ] {v : ThreadStorage ω τ} {s : Variables ω ν} {n : ν}
  {x : ThreadLocalVariable}

/-- The variables of a program are apart. -/
def SlotsApart (v : ThreadStorage ω τ) (s : Variables ω ν) : Prop :=
  OwnSlots s.variableOf (v.slots s.system)

/-- The values of its variables. -/
def table (v : ThreadStorage ω τ) (s : Variables ω ν) : ValueTable ν τ :=
  tableOf s.variableOf (v.slots s.system)

/-- What a call does to the variables and to the table, and that it leaves the slots of others. -/
structure Refines (v : ThreadStorage ω τ) (s : Variables ω ν) (call : VariableCall ω ν τ)
    (result : VariableResult) (s' : Variables ω ν) : Prop where
  step_eq : s.step v call = some (result, s')
  table_eq : ValueTable.step (s.table v) (s.answered v call) = some (result, s'.table v)
  apart : s'.SlotsApart v
  others : s.KeepsOthers v call

omit [DecidableEq τ] in
/-- One variable of a program changes. -/
theorem SlotsApart.update (h : s.SlotsApart v) {o : Option ThreadLocalVariable} {w : ω}
    (hothers : ∀ m y, m ≠ n → s.variableOf m = some y → y.initialized →
      v.slots w y.slot = v.slots s.system y.slot ∧ ∀ x ∈ o, x.initialized → y.slot ≠ x.slot)
    (hnew : ∀ x ∈ o, x.Allocated (v.slots w)) :
    SlotsApart v ⟨Function.update s.variableOf n o, w⟩ ∧
      table v ⟨Function.update s.variableOf n o, w⟩ =
        Function.update (s.table v) n (o.map (ThreadLocalVariable.toValues (v.slots w))) :=
  OwnSlots.update h hothers hnew

omit [DecidableEq τ] in
/-- A call that is not other code's. -/
theorem keepsOthers_of {call : VariableCall ω ν τ} {result : VariableResult} {s' : Variables ω ν}
    (hstep : s.step v call = some (result, s'))
    (h : ∀ slot, (v.slots s.system slot).isSome →
      (∀ n x, s.variableOf n = some x → x.initialized → x.slot ≠ slot) →
        v.slots s'.system slot = v.slots s.system slot) : s.KeepsOthers v call := by
  have hall : ∀ result' s'', s.step v call = some (result', s'') →
      ∀ slot, (v.slots s.system slot).isSome →
        (∀ n x, s.variableOf n = some x → x.initialized → x.slot ≠ slot) →
          v.slots s''.system slot = v.slots s.system slot := by
    intro result' s'' hstep'
    obtain ⟨-, rfl⟩ := Prod.mk.inj (Option.some.inj (hstep.symm.trans hstep'))
    exact h
  cases call with
  | other w => exact trivial
  | _ => exact hall

/-- The table is told whether a variable got a slot. -/
theorem step_answered_construct (v : ThreadStorage ω τ)
    (hnone : s.variableOf n = none) :
    ValueTable.step (s.table v) (s.answered v (.construct n)) =
      some (.done, Function.update (s.table v) n
        (some ⟨(ThreadLocalVariable.construct v s.system).1.initialized,
          (ThreadLocalVariable.construct v s.system).1.exception, fun _ => 0⟩)) := by
  have htable : s.table v n = none := by rw [table, tableOf, hnone, Option.map_none]
  rcases halloc : v.tlsAlloc s.system with ⟨slot, w⟩
  by_cases hout : slot = tlsOutOfIndexes
  · simp only [ThreadLocalVariable.construct, ValueTable.step, answered, halloc, if_pos hout, htable,
      Option.isNone_some, Option.getD_some]
  · simp only [ThreadLocalVariable.construct, ValueTable.step, answered, halloc, if_neg hout, htable,
      Option.isNone_none, Option.getD_none]

/-- **A variable is constructed**, null on every thread. -/
theorem SlotsApart.construct (h : s.SlotsApart v) (hv : v.Documented)
    (hnone : s.variableOf n = none) : ∃ s', Refines v s (.construct n) .done s' := by
  have hspec := ThreadLocalVariable.construct_spec hv s.system
  rcases hconstruct : ThreadLocalVariable.construct v s.system with ⟨x, w⟩
  rw [hconstruct] at hspec
  have hstep : s.step v (.construct n) =
      some (.done, ⟨Function.update s.variableOf n (some x), w⟩) := by
    simp only [step, hnone, hconstruct]
  have hanswered := step_answered_construct v hnone
  rw [hconstruct] at hanswered
  rcases hspec with ⟨hinit, -, hsame⟩ | ⟨hinit, -, hfree, hnew⟩
  · have hnot : ¬ x.initialized := by simp [hinit]
    obtain ⟨hapart, htable⟩ := h.update (n := n) (o := some x) (w := w)
      (fun m y _ _ _ => ⟨congrFun hsame _, fun x' hx' hinit' => by
        obtain rfl := Option.some.inj hx'
        exact absurd hinit' hnot⟩)
      (fun x' hx' hinit' => by
        obtain rfl := Option.some.inj hx'
        exact absurd hinit' hnot)
    refine ⟨_, hstep, ?_, hapart, keepsOthers_of hstep fun _ _ _ => congrFun hsame _⟩
    rw [hanswered, htable, Option.map_some, ThreadLocalVariable.toValues,
      ThreadLocalVariable.held_of_not hnot]
  · have hne {slot : UInt32} (hslot : (v.slots s.system slot).isSome) : slot ≠ x.slot := by
      rintro rfl
      rw [hfree] at hslot
      cases hslot
    have hself : v.slots w x.slot = some fun _ => 0 := by rw [hnew, Function.update_self]
    obtain ⟨hapart, htable⟩ := h.update (n := n) (o := some x) (w := w)
      (fun m y _ hy hinit' => by
        have hslot := hne (h.allocated m y hy hinit')
        refine ⟨by rw [hnew, Function.update_of_ne hslot], fun x' hx' _ => ?_⟩
        obtain rfl := Option.some.inj hx'
        exact hslot)
      (fun x' hx' _ => by
        obtain rfl := Option.some.inj hx'
        rw [hself]
        rfl)
    refine ⟨_, hstep, ?_, hapart, keepsOthers_of hstep fun slot hslot _ => ?_⟩
    · rw [hanswered, htable, Option.map_some, ThreadLocalVariable.toValues,
        ThreadLocalVariable.held_of_slot hinit hself]
    · rw [hnew, Function.update_of_ne (hne hslot)]

/-- **A variable is destroyed**, and the others keep their slots. -/
theorem SlotsApart.destroy (h : s.SlotsApart v) (hv : v.Documented)
    (hx : s.variableOf n = some x) : ∃ s', Refines v s (.destroy n) .done s' := by
  have hallocated := h.allocated n x hx
  have hstep : s.step v (.destroy n) =
      some (.done, ⟨Function.update s.variableOf n none, x.destroy v s.system⟩) := by
    simp only [step, hx, Option.map_some]
  obtain ⟨hapart, htable⟩ := h.update (n := n) (o := none) (w := x.destroy v s.system)
    (fun m y hm hy hinit => ⟨ThreadLocalVariable.slots_destroy hv hallocated
      fun hinit' => h.slot_ne hx hy hinit' hinit hm, nofun⟩) nofun
  refine ⟨_, hstep, ?_, hapart, keepsOthers_of hstep fun slot _ hother => ?_⟩
  · rw [htable, Option.map_none]
    simp only [ValueTable.step, answered, table, tableOf, hx, Option.map_some]
  · exact ThreadLocalVariable.slots_destroy hv hallocated fun hinit => (hother n x hx hinit).symm

/-- **A value is set** on one thread, in a variable that has a slot, if the system sets it. -/
theorem SlotsApart.set (h : s.SlotsApart v) (hv : v.Documented) (hx : s.variableOf n = some x)
    (t : τ) (value : UInt64) : ∃ s', Refines v s (.set n t value) .done s' := by
  have hallocated := h.allocated n x hx
  have hstep : s.step v (.set n t value) =
      some (.done, { s with system := x.set v t value s.system }) := by
    simp only [step, hx, Option.map_some]
  have hslots {slot : UInt32} (hne : x.initialized → slot ≠ x.slot) :
      v.slots (x.set v t value s.system) slot = v.slots s.system slot := by
    rcases ThreadLocalVariable.slots_set hv hallocated t value with ⟨hinit, -, hset⟩ | ⟨-, hset⟩
    · rw [hset, Function.update_of_ne (hne hinit)]
    · rw [hset]
  have hupdate := h.update (n := n) (o := some x) (w := x.set v t value s.system)
    (fun m y hm hy hinit => ⟨hslots fun hinit' => h.slot_ne hx hy hinit' hinit hm,
      fun x' hx' hinit' => by
        obtain rfl := Option.some.inj hx'
        exact h.slot_ne hx hy hinit' hinit hm⟩)
    (fun x' hx' => by
      obtain rfl := Option.some.inj hx'
      exact hallocated.set hv t value)
  rw [← hx, Function.update_eq_self, hx] at hupdate
  obtain ⟨hapart, htable⟩ := hupdate
  refine ⟨_, hstep, ?_, hapart, keepsOthers_of hstep fun slot _ hother =>
    hslots fun hinit => (hother n x hx hinit).symm⟩
  rw [htable, Option.map_some, ThreadLocalVariable.toValues,
    ThreadLocalVariable.held_set hv hallocated]
  simp only [ValueTable.step, answered, table, tableOf, hx, Option.map_some, Option.any_some,
    ThreadLocalVariable.toValues]

/-- A call that changes nothing. -/
theorem SlotsApart.same (h : s.SlotsApart v) {call : VariableCall ω ν τ} (result : VariableResult)
    (hstep : s.step v call = some (result, s))
    (htable : ValueTable.step (s.table v) (s.answered v call) = some (result, s.table v)) :
    ∃ result s', Refines v s call result s' :=
  ⟨result, s, hstep, htable, h, keepsOthers_of hstep fun _ _ _ => rfl⟩

/-- **A call** does to the values what it does to the table, if there is the variable. -/
theorem SlotsApart.step (h : s.SlotsApart v) (hv : v.Documented) {call : VariableCall ω ν τ}
    (hlegal : s.Legal v call) :
    (s.step v call = none ∧ ValueTable.step (s.table v) (s.answered v call) = none) ∨
      ∃ result s', Refines v s call result s' := by
  have hnone {n : ν} (hx : s.variableOf n = none) : s.table v n = none := by
    rw [table, tableOf, hx, Option.map_none]
  have hsome {n : ν} {x : ThreadLocalVariable} (hx : s.variableOf n = some x) :
      s.table v n = some (x.toValues (v.slots s.system)) := by
    rw [table, tableOf, hx, Option.map_some]
  cases call with
  | construct n =>
    cases hx : s.variableOf n with
    | none => exact .inr ⟨.done, h.construct hv hx⟩
    | some x =>
      exact .inl ⟨by simp [Variables.step, hx], by simp [ValueTable.step, answered, hsome hx]⟩
  | destroy n =>
    cases hx : s.variableOf n with
    | none =>
      exact .inl ⟨by simp [Variables.step, hx], by simp [ValueTable.step, answered, hnone hx]⟩
    | some x => exact .inr ⟨.done, h.destroy hv hx⟩
  | get n t =>
    cases hx : s.variableOf n with
    | none =>
      exact .inl ⟨by simp [Variables.step, hx], by simp [ValueTable.step, answered, hnone hx]⟩
    | some x =>
      have hget := ThreadLocalVariable.get_eq hv (h.allocated n x hx) t
      refine .inr (h.same (.value (x.get v t s.system)) ?_ ?_)
      · simp only [Variables.step, hx, Option.map_some]
      · simp only [ValueTable.step, answered, hsome hx, Option.map_some, hget,
          ThreadLocalVariable.toValues]
  | set n t value =>
    cases hx : s.variableOf n with
    | none =>
      exact .inl ⟨by simp [Variables.step, hx], by simp [ValueTable.step, answered, hnone hx]⟩
    | some x => exact .inr ⟨.done, h.set hv hx t value⟩
  | isValid n =>
    cases hx : s.variableOf n with
    | none =>
      exact .inl ⟨by simp [Variables.step, hx], by simp [ValueTable.step, answered, hnone hx]⟩
    | some x =>
      refine .inr (h.same (.valid x.isValid) ?_ ?_)
      · simp only [Variables.step, hx, Option.map_some]
      · simp only [ValueTable.step, answered, hsome hx, Option.map_some]
        rfl
  | getPlatformExceptionCode n =>
    cases hx : s.variableOf n with
    | none =>
      exact .inl ⟨by simp [Variables.step, hx], by simp [ValueTable.step, answered, hnone hx]⟩
    | some x =>
      refine .inr (h.same (.code x.getPlatformExceptionCode) ?_ ?_)
      · simp only [Variables.step, hx, Option.map_some]
      · simp only [ValueTable.step, answered, hsome hx, Option.map_some]
        rfl
  | other w =>
    obtain ⟨hapart, htable⟩ := OwnSlots.congr h fun n x hx => hlegal n x hx
    have htable : s.table v = table v { s with system := w } := htable.symm
    exact .inr ⟨.done, { s with system := w }, rfl, by rw [htable]; rfl, hapart, trivial⟩

/-- **In every run variables are a table of values**, which other code has no part in, and what it
has in its own slots stays. -/
theorem refines_valueTable (hv : v.Documented) (calls : List (VariableCall ω ν τ)) (w : ω)
    (hlegal : Along (step v) (Legal v) ⟨fun _ => none, w⟩ calls) :
    (exec (step v) ⟨fun _ => none, w⟩ calls).map Prod.fst =
        (exec ValueTable.step (fun _ => none)
          (recorded (step v) (answered v) ⟨fun _ => none, w⟩ calls)).map Prod.fst ∧
      Along (step v) (KeepsOthers v) ⟨fun _ => none, w⟩ calls := by
  have hstart : SlotsApart v (⟨fun _ => none, w⟩ : Variables ω ν) := ⟨nofun, nofun⟩
  have hempty : (fun _ => none : ValueTable ν τ) = table v ⟨fun _ => none, w⟩ := rfl
  constructor
  · have hcall (s : Variables ω ν) (a : ValueTable ν τ) (call : VariableCall ω ν τ)
        (hR : s.SlotsApart v ∧ a = s.table v) (hlegal : s.Legal v call) :
        (s.step v call = none ∧ ValueTable.step a (s.answered v call) = none) ∨
          ∃ result s' a', s.step v call = some (result, s') ∧
            ValueTable.step a (s.answered v call) = some (result, a') ∧
            s'.SlotsApart v ∧ a' = s'.table v := by
      obtain ⟨hapart, rfl⟩ := hR
      rcases hapart.step hv hlegal with hundefined | ⟨result, s', hrefines⟩
      · exact .inl hundefined
      · exact .inr ⟨result, s', s'.table v, hrefines.step_eq, hrefines.table_eq, hrefines.apart,
          rfl⟩
    rcases refines_recorded hcall ⟨hstart, hempty⟩ hlegal with
      ⟨hnone, hnone'⟩ | ⟨results, s', a', hrun, hrun', -⟩
    · rw [hnone, hnone']
      rfl
    · rw [hrun, hrun']
      rfl
  · refine Along.of_legal (SlotsApart v) (fun s call h hlegal => ?_)
      (fun s call result s' h hlegal hstep => ?_) hstart hlegal
    · rcases h.step hv hlegal with ⟨hnone, -⟩ | ⟨result, s', hrefines⟩
      · cases call with
        | other w => trivial
        | _ => exact fun result s' hstep => absurd (hnone.symm.trans hstep) nofun
      · exact hrefines.others
    · rcases h.step hv hlegal with ⟨hnone, -⟩ | ⟨result', s'', hrefines⟩
      · exact absurd (hnone.symm.trans hstep) nofun
      · obtain ⟨-, rfl⟩ := Prod.mk.inj (Option.some.inj (hstep.symm.trans hrefines.step_eq))
        exact hrefines.apart

end Variables

/-- A system of three slots on two threads, where there is no room to set what is in the last. -/
def ThreadStorage.sample : ThreadStorage (UInt32 → Option (Bool → UInt64)) Bool where
  tlsAlloc w :=
    match [0, 1, 2].find? fun slot => (w slot).isNone with
    | some slot => (slot, Function.update w slot (some fun _ => 0))
    | none => (tlsOutOfIndexes, w)
  tlsFree slot w := (true, Function.update w slot none)
  tlsGetValue slot t w := (w slot).elim 0 fun values => values t
  tlsSetValue slot t value w :=
    match w slot with
    | some values =>
      if slot < 2 then (true, Function.update w slot (some (Function.update values t value)))
      else (false, w)
    | none => (false, w)
  getLastError _ := 8
  slots w := w

theorem ThreadStorage.documented_sample : sample.Documented where
  alloc w := by
    have halloc : sample.tlsAlloc w = match [0, 1, 2].find? fun slot => (w slot).isNone with
        | some slot => (slot, Function.update w slot (some fun _ => 0))
        | none => (tlsOutOfIndexes, w) := rfl
    cases hfind : ([0, 1, 2] : List UInt32).find? fun slot => (w slot).isNone with
    | none =>
      rw [halloc, hfind]
      exact .inl ⟨rfl, rfl⟩
    | some slot =>
      rw [halloc, hfind]
      have hmem := List.mem_of_find?_eq_some hfind
      have hfree := List.find?_some hfind
      refine .inr ⟨?_, Option.isNone_iff_eq_none.mp hfree, rfl⟩
      rintro rfl
      exact absurd hmem (by decide)
  free slot w _ := .inl ⟨rfl, rfl⟩
  get slot t w values hvalues := by
    have hget : sample.tlsGetValue slot t w = (w slot).elim 0 fun values => values t := rfl
    have hslot : w slot = some values := hvalues
    rw [hget, hslot, Option.elim_some]
  set slot t value w values hvalues := by
    have hslot : w slot = some values := hvalues
    have hset : sample.tlsSetValue slot t value w =
        if slot < 2 then (true, Function.update w slot (some (Function.update values t value)))
        else (false, w) := by
      simp only [sample, hslot]
    rw [hset]
    by_cases hroom : slot < 2
    · rw [if_pos hroom]
      exact .inl ⟨rfl, rfl⟩
    · rw [if_neg hroom]
      exact .inr ⟨rfl, rfl⟩

namespace Variables

/-- A slot that is reused, a value that the system does not set, a variable that gets no slot and
one that gets a slot given back in its place, beside a slot of other code, which sets it in
between. -/
def reuse : List (VariableCall (UInt32 → Option (Bool → UInt64)) (Fin 5) Bool) :=
  [.construct 0, .set 0 true 5, .destroy 0, .construct 1, .get 1 true,
    .other fun slot => if slot = 0 then some fun _ => 9 else if slot = 1 then some fun _ => 0
      else none,
    .get 1 true, .construct 2, .set 2 true 6, .get 2 true, .construct 3, .set 3 false 6,
    .get 3 false, .isValid 3, .getPlatformExceptionCode 3, .destroy 2, .construct 4, .get 4 true]

theorem refines_valueTable_reuse :
    (exec (step .sample) ⟨fun _ => none, Function.update (fun _ => none) 0 (some fun _ => 7)⟩
        reuse).map Prod.fst =
      (exec ValueTable.step (fun _ => none) (recorded (step .sample) (answered .sample)
        ⟨fun _ => none, Function.update (fun _ => none) 0 (some fun _ => 7)⟩ reuse)).map Prod.fst ∧
    Along (step .sample) (KeepsOthers .sample)
      ⟨fun _ => none, Function.update (fun _ => none) 0 (some fun _ => 7)⟩ reuse :=
  refines_valueTable ThreadStorage.documented_sample reuse _ (by decide)

end Variables

end Hologine.Threading
