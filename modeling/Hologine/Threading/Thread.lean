import Hologine.Exception
import Hologine.Library.Run
import Mathlib.Data.List.Count

/-!
# Threads

Model of `holo::thread` (`core/threading/thread.cpp`, `core/threading/thread_interface.hpp:46-73`)
over the Windows `thread_base` (`windows/core/threading/thread_base.cpp:15-85`). The system's calls
and what the callbacks return are parameters. A `Thread` keeps the exceptions that were pushed and,
for the specification, the attempts to create, run and join; both newest first.

The guards read the flags for created, started and exited threads, and no function sets them; none
calls `invalidate` either. So a thread that was created is still one to be created.

Results:
* `Unborn.flags`: the flags are never others than the one for exceptions.
* `lifeCycle_iff`: the documented life cycle holds along a run **iff** every creation fails in it.
-/

namespace Hologine.Threading

open Hologine.Library.Run

/-- `thread_return_status_ok`. -/
def threadReturnStatusOk : UInt8 := 0

def flagEnableExceptions : UInt32 := 0x00000001
def flagThreadCreated : UInt32 := 0x00000002
def flagThreadInvalid : UInt32 := 0x00000004
def flagThreadStarted : UInt32 := 0x00000008
def flagThreadExited : UInt32 := 0x00000010

/-- `thread_argument`. -/
structure ThreadArgument where
  returnStatus : UInt8
  callback : UInt64
  userdata : UInt64
  flags : UInt32
  allocator : UInt64
  deriving Repr, DecidableEq

/-- The system's calls, `false` where they fail, and the callbacks of the program. -/
structure ThreadPlatform (π : Type) where
  beginThread : π → UInt64 × π
  resumeThread (handle : UInt64) : π → Bool × π
  waitForSingleObject (handle : UInt64) : π → Bool × π
  closeHandle (handle : UInt64) : π → π
  callback (callback userdata : UInt64) : UInt8

/-- A call of `thread_base`, and whether it succeeded. -/
inductive ThreadAttempt
  | createThread (succeeded : Bool)
  | runThread (succeeded : Bool)
  | joinThread (succeeded : Bool)
  deriving Repr, DecidableEq

/-- A `holo::thread` and the system. -/
structure Thread (π : Type) where
  argument : ThreadArgument
  threadHandle : UInt64
  exceptions : List ExceptionCode
  attempts : List ThreadAttempt
  env : π
  deriving Repr, DecidableEq

/-- The calls on a thread. -/
inductive ThreadCall
  | start
  | startWith (callback userdata : UInt64)
  | join
  | setExceptionsFlag (enable : Bool)
  | setAllocator (allocator : UInt64)
  deriving Repr, DecidableEq

namespace Thread

variable {π : Type} (p : ThreadPlatform π)

def pushException (t : Thread π) (exception : ExceptionCode) : Thread π :=
  { t with exceptions := exception :: t.exceptions }

/-! ## `thread_base` -/

/-- `create_thread`. -/
def createThread (t : Thread π) : Bool × Thread π :=
  let (handle, env) := p.beginThread t.env
  let t := { t with threadHandle := handle, env := env }
  if handle = 0 then
    (false, { t.pushException .platform with attempts := .createThread false :: t.attempts })
  else (true, { t with attempts := .createThread true :: t.attempts })

/-- `run_thread`. -/
def runThread (t : Thread π) : Bool × Thread π :=
  let (succeeded, env) := p.resumeThread t.threadHandle t.env
  let t := { t with env := env, attempts := .runThread succeeded :: t.attempts }
  if succeeded then (true, t) else (false, t.pushException .platform)

/-- `join_thread`. The wait is over when `win32_thread_proc` is, which stores what the callback
returned. -/
def joinThread (t : Thread π) : Bool × Thread π :=
  let (succeeded, env) := p.waitForSingleObject t.threadHandle t.env
  let t := { t with env := env, attempts := .joinThread succeeded :: t.attempts }
  if succeeded then
    let returnStatus := p.callback t.argument.callback t.argument.userdata
    (true, { t with
      argument := { t.argument with returnStatus := returnStatus }
      threadHandle := 0
      env := p.closeHandle t.threadHandle t.env })
  else (false, t.pushException .platform)

/-! ## `thread` -/

/-- `set_argument_flag`. -/
def setArgumentFlag (t : Thread π) (flag : UInt32) (enable : Bool) : Thread π :=
  let flags := if enable then t.argument.flags ||| flag else t.argument.flags &&& ~~~flag
  { t with argument := { t.argument with flags := flags } }

/-- `get_argument_flag`. -/
def getArgumentFlag (t : Thread π) (flag : UInt32) : Bool := t.argument.flags &&& flag == flag

/-- `is_valid`. -/
def isValid (t : Thread π) : Bool := !t.getArgumentFlag flagThreadInvalid

/-- `init_argument`. -/
def initArgument (callback userdata : UInt64) : ThreadArgument where
  returnStatus := threadReturnStatusOk
  callback := callback
  userdata := userdata
  flags := 0
  allocator := 0

/-- The constructors, without and with a callback and its userdata. The handle is not
initialized. -/
def construct (arguments : Option (UInt64 × UInt64)) (uninitialized : UInt64) (env : π) :
    Thread π :=
  match arguments with
  | none => ⟨initArgument 0 0, uninitialized, [], [], env⟩
  | some (callback, userdata) =>
    if callback = 0 then ⟨initArgument 0 0, uninitialized, [.invalidArgument], [], env⟩
    else (createThread p ⟨initArgument callback userdata, uninitialized, [], [], env⟩).2

/-- `start()`. -/
def start (t : Thread π) : Thread π :=
  if !t.isValid || t.getArgumentFlag flagThreadStarted ||
      !t.getArgumentFlag flagThreadCreated then
    t.pushException .invalidOperation
  else (t.runThread p).2

/-- `start(callback, userdata)`. -/
def startWith (t : Thread π) (callback userdata : UInt64) : Thread π :=
  if !t.isValid || t.getArgumentFlag flagThreadCreated then t.pushException .invalidOperation
  else if callback = 0 then t.pushException .invalidArgument
  else
    let argument := { t.argument with callback := callback, userdata := userdata }
    (createThread p { t with argument := argument }).2

/-- `join`. -/
def join (t : Thread π) : UInt8 × Thread π :=
  if !t.isValid || !t.getArgumentFlag flagThreadStarted then
    (threadReturnStatusOk, t.pushException .invalidOperation)
  else
    let (succeeded, t) := t.joinThread p
    (if succeeded then t.argument.returnStatus else threadReturnStatusOk, t)

/-- `set_exceptions_flag`. -/
def setExceptionsFlag (t : Thread π) (enable : Bool) : Thread π :=
  if !t.isValid && !t.getArgumentFlag flagThreadStarted then t.pushException .invalidOperation
  else t.setArgumentFlag flagEnableExceptions enable

/-- `set_allocator`. -/
def setAllocator (t : Thread π) (allocator : UInt64) : Thread π :=
  if !t.isValid && !t.getArgumentFlag flagThreadStarted then t.pushException .invalidOperation
  else { t with argument := { t.argument with allocator := allocator } }

/-- One call: the status that `join` returns, and the next state. -/
def step (t : Thread π) : ThreadCall → Option (UInt8 × Thread π)
  | .start => some (threadReturnStatusOk, t.start p)
  | .startWith callback userdata => some (threadReturnStatusOk, t.startWith p callback userdata)
  | .join => some (t.join p)
  | .setExceptionsFlag enable => some (threadReturnStatusOk, t.setExceptionsFlag enable)
  | .setAllocator allocator => some (threadReturnStatusOk, t.setAllocator allocator)

/-! ## The documented life cycle -/

/-- The flags say what succeeded, in the order of the life cycle and once each. -/
structure FlagsAgree (t : Thread π) : Prop where
  created : t.getArgumentFlag flagThreadCreated = true ↔ .createThread true ∈ t.attempts
  started : t.getArgumentFlag flagThreadStarted = true ↔ .runThread true ∈ t.attempts
  exited : t.getArgumentFlag flagThreadExited = true ↔ .joinThread true ∈ t.attempts
  created_of_started : .runThread true ∈ t.attempts → .createThread true ∈ t.attempts
  started_of_exited : .joinThread true ∈ t.attempts → .runThread true ∈ t.attempts
  run_once : t.attempts.count (.runThread true) ≤ 1
  join_once : t.attempts.count (.joinThread true) ≤ 1

/-- What the header says of a call: starting runs a thread that was created, and creates and runs an
empty one with a callback; joining gives the callback's status the first time and an exception
afterwards; a thread that was started cannot be set up any more. -/
def Documented (t : Thread π) (call : ThreadCall) (status : UInt8) (t' : Thread π) : Prop :=
  match call with
  | .start =>
    .createThread true ∈ t.attempts → .runThread true ∉ t.attempts →
      ∃ succeeded, t'.attempts = .runThread succeeded :: t.attempts
  | .startWith callback _ =>
    callback ≠ 0 → .createThread true ∉ t.attempts →
      t'.attempts = .createThread false :: t.attempts ∨
        ∃ succeeded, t'.attempts = .runThread succeeded :: .createThread true :: t.attempts
  | .join =>
    (.joinThread true ∈ t.attempts → t'.exceptions = .invalidOperation :: t.exceptions) ∧
      (.runThread true ∈ t.attempts → .joinThread true ∉ t.attempts →
        t'.attempts = .joinThread false :: t.attempts ∨
          (t'.attempts = .joinThread true :: t.attempts ∧
            status = p.callback t.argument.callback t.argument.userdata))
  | .setExceptionsFlag _ | .setAllocator _ =>
    .runThread true ∈ t.attempts →
      t'.argument = t.argument ∧ t'.exceptions = .invalidOperation :: t.exceptions

/-- A call keeps to the life cycle. -/
def Follows (t : Thread π) (call : ThreadCall) : Prop :=
  ∀ status t', t.step p call = some (status, t') → t'.FlagsAgree ∧ t.Documented p call status t'

/-- A thread, however it is built, and every run of calls on it keep to the life cycle. -/
def LifeCycle (arguments : Option (UInt64 × UInt64)) (uninitialized : UInt64) (env : π)
    (calls : List ThreadCall) : Prop :=
  (construct p arguments uninitialized env).FlagsAgree ∧
    Along (step p) (Follows p) (construct p arguments uninitialized env) calls

/-- The system creates no thread for the constructor. -/
def ConstructionFails (arguments : Option (UInt64 × UInt64)) (env : π) : Prop :=
  ∀ callback userdata, arguments = some (callback, userdata) → callback ≠ 0 →
    (p.beginThread env).1 = 0

/-- The system creates no thread for the call. -/
def CreationFails (t : Thread π) : ThreadCall → Prop
  | .startWith callback _ => callback ≠ 0 → (p.beginThread t.env).1 = 0
  | _ => True

/-! ## What the calls do -/

/-- No thread has been created, and the flags for its states are as they were constructed. -/
structure Unborn (t : Thread π) : Prop where
  flags : t.argument.flags = 0 ∨ t.argument.flags = flagEnableExceptions
  attempts : ∀ attempt ∈ t.attempts, attempt = .createThread false

variable {p} {t : Thread π}

theorem Unborn.getArgumentFlag (h : t.Unborn) :
    t.getArgumentFlag flagThreadCreated = false ∧ t.getArgumentFlag flagThreadStarted = false ∧
      t.getArgumentFlag flagThreadExited = false ∧ t.isValid = true := by
  unfold isValid Thread.getArgumentFlag
  rcases h.flags with hflags | hflags <;> rw [hflags] <;> decide

theorem Unborn.notMem (h : t.Unborn) :
    .createThread true ∉ t.attempts ∧ .runThread true ∉ t.attempts ∧
      .joinThread true ∉ t.attempts := by
  refine ⟨fun hmem => ?_, fun hmem => ?_, fun hmem => ?_⟩ <;>
    exact absurd (h.attempts _ hmem) (by decide)

theorem Unborn.flagsAgree (h : t.Unborn) : t.FlagsAgree := by
  obtain ⟨hcreated, hstarted, hexited, -⟩ := h.getArgumentFlag
  obtain ⟨hcreate, hrun, hjoin⟩ := h.notMem
  constructor
  · simp [hcreated, hcreate]
  · simp [hstarted, hrun]
  · simp [hexited, hjoin]
  · exact fun hmem => absurd hmem hrun
  · exact fun hmem => absurd hmem hjoin
  · rw [List.count_eq_zero_of_not_mem hrun]
    exact Nat.zero_le 1
  · rw [List.count_eq_zero_of_not_mem hjoin]
    exact Nat.zero_le 1

/-- Creating a thread leaves its argument alone. -/
theorem createThread_eq (t : Thread π) (p : ThreadPlatform π) :
    (createThread p t).2.argument = t.argument ∧
      (createThread p t).2.attempts =
        .createThread (decide ((p.beginThread t.env).1 ≠ 0)) :: t.attempts := by
  unfold createThread pushException
  rcases p.beginThread t.env with ⟨handle, env⟩
  dsimp only
  split_ifs with hhandle <;> simp [hhandle]

/-- A creation that fails changes nothing but the callback. -/
theorem Unborn.createThread
    (hflags : t.argument.flags = 0 ∨ t.argument.flags = flagEnableExceptions)
    (hattempts : ∀ attempt ∈ t.attempts, attempt = .createThread false)
    (hfails : (p.beginThread t.env).1 = 0) : (createThread p t).2.Unborn := by
  obtain ⟨hargument, hlog⟩ := createThread_eq t p
  constructor
  · rw [hargument]
    exact hflags
  · rw [hlog, hfails]
    intro attempt hattempt
    rcases List.mem_cons.mp hattempt with rfl | hattempt
    · rfl
    · exact hattempts attempt hattempt

/-- **A created thread is not marked so**: where a creation succeeds the flags do not agree. -/
theorem not_flagsAgree_createThread
    (hflags : t.argument.flags = 0 ∨ t.argument.flags = flagEnableExceptions)
    (hsucceeds : (p.beginThread t.env).1 ≠ 0) : ¬ (createThread p t).2.FlagsAgree := by
  intro hagree
  obtain ⟨hargument, hlog⟩ := createThread_eq t p
  have hmem : .createThread true ∈ (createThread p t).2.attempts := by
    rw [hlog, decide_eq_true hsucceeds]
    exact List.mem_cons_self
  have hflag := hagree.created.mpr hmem
  unfold Thread.getArgumentFlag at hflag
  rw [hargument] at hflag
  rcases hflags with hflags | hflags <;> rw [hflags] at hflag <;> exact absurd hflag (by decide)

theorem follows_of_step {call : ThreadCall} {status : UInt8} {t' : Thread π}
    (hstep : t.step p call = some (status, t')) (hagree : t'.FlagsAgree)
    (hdocumented : t.Documented p call status t') : t.Follows p call := by
  intro status' t'' heq
  obtain ⟨rfl, rfl⟩ := Prod.mk.inj (Option.some.inj (hstep.symm.trans heq))
  exact ⟨hagree, hdocumented⟩

/-- The calls without a callback leave a thread without states, and keep to the life cycle. -/
theorem Unborn.step_other (h : t.Unborn) {call : ThreadCall}
    (hcall : ∀ callback userdata, call = .startWith callback userdata → callback = 0) :
    ∃ status t', t.step p call = some (status, t') ∧ t'.Unborn ∧ t.Follows p call := by
  obtain ⟨hcreated, hstarted, -, hvalid⟩ := h.getArgumentFlag
  obtain ⟨hcreate, hrun, hjoin⟩ := h.notMem
  have hrefused : (t.pushException .invalidOperation).Unborn := ⟨h.flags, h.attempts⟩
  cases call with
  | start =>
    have hstep : t.step p .start =
        some (threadReturnStatusOk, t.pushException .invalidOperation) := by
      rw [step, start, hvalid, hstarted, hcreated]
      rfl
    exact ⟨_, _, hstep, hrefused, follows_of_step hstep hrefused.flagsAgree
      fun hmem => absurd hmem hcreate⟩
  | startWith callback userdata =>
    obtain rfl := hcall callback userdata rfl
    have hstep : t.step p (.startWith 0 userdata) =
        some (threadReturnStatusOk, t.pushException .invalidArgument) := by
      rw [step, startWith, hvalid, hcreated]
      rfl
    have hunborn : (t.pushException .invalidArgument).Unborn := ⟨h.flags, h.attempts⟩
    exact ⟨_, _, hstep, hunborn, follows_of_step hstep hunborn.flagsAgree
      fun hne => absurd rfl hne⟩
  | join =>
    have hstep : t.step p .join =
        some (threadReturnStatusOk, t.pushException .invalidOperation) := by
      rw [step, join, hvalid, hstarted]
      rfl
    exact ⟨_, _, hstep, hrefused, follows_of_step hstep hrefused.flagsAgree
      ⟨fun hmem => absurd hmem hjoin, fun hmem => absurd hmem hrun⟩⟩
  | setExceptionsFlag enable =>
    have hstep : t.step p (.setExceptionsFlag enable) =
        some (threadReturnStatusOk, t.setArgumentFlag flagEnableExceptions enable) := by
      rw [step, setExceptionsFlag, hvalid]
      rfl
    have hunborn : (t.setArgumentFlag flagEnableExceptions enable).Unborn := by
      refine ⟨?_, h.attempts⟩
      unfold setArgumentFlag
      rcases h.flags with hflags | hflags <;> cases enable <;> simp only [hflags] <;> decide
    exact ⟨_, _, hstep, hunborn, follows_of_step hstep hunborn.flagsAgree
      fun hmem => absurd hmem hrun⟩
  | setAllocator allocator =>
    have hstep : t.step p (.setAllocator allocator) = some (threadReturnStatusOk,
        { t with argument := { t.argument with allocator := allocator } }) := by
      rw [step, setAllocator, hvalid]
      rfl
    have hunborn : ({ t with argument := { t.argument with allocator := allocator } } :
        Thread π).Unborn := ⟨h.flags, h.attempts⟩
    exact ⟨_, _, hstep, hunborn, follows_of_step hstep hunborn.flagsAgree
      fun hmem => absurd hmem hrun⟩

/-- The call with a callback creates a thread, and does no more. -/
theorem Unborn.step_startWith (h : t.Unborn) {callback userdata : UInt64} (hne : callback ≠ 0) :
    t.step p (.startWith callback userdata) = some (threadReturnStatusOk,
      (Thread.createThread p { t with
        argument := { t.argument with callback := callback, userdata := userdata } }).2) := by
  obtain ⟨hcreated, -, -, hvalid⟩ := h.getArgumentFlag
  rw [step, startWith, hvalid, hcreated]
  exact congrArg (fun t' => some (threadReturnStatusOk, t')) (if_neg hne)

/-- **One call keeps to the life cycle iff it creates no thread**, and then none is there. -/
theorem Unborn.step_iff (h : t.Unborn) (call : ThreadCall) :
    (t.Follows p call ↔ t.CreationFails p call) ∧
      (t.CreationFails p call → ∃ status t', t.step p call = some (status, t') ∧ t'.Unborn) := by
  by_cases hcall : ∃ callback userdata, call = .startWith callback userdata ∧ callback ≠ 0
  · obtain ⟨callback, userdata, rfl, hne⟩ := hcall
    let t₀ : Thread π :=
      { t with argument := { t.argument with callback := callback, userdata := userdata } }
    have hstep : t.step p (.startWith callback userdata) =
        some (threadReturnStatusOk, (Thread.createThread p t₀).2) := h.step_startWith hne
    have hunborn (hfails : (p.beginThread t.env).1 = 0) : (Thread.createThread p t₀).2.Unborn :=
      Unborn.createThread h.flags h.attempts hfails
    refine ⟨⟨fun hfollows _ => ?_, fun hfails => ?_⟩, fun hfails =>
      ⟨_, _, hstep, hunborn (hfails hne)⟩⟩
    · by_contra hsucceeds
      exact not_flagsAgree_createThread (t := t₀) h.flags hsucceeds (hfollows _ _ hstep).1
    · refine follows_of_step hstep (hunborn (hfails hne)).flagsAgree fun _ _ => .inl ?_
      rw [(createThread_eq t₀ p).2]
      exact congrArg (fun succeeded => .createThread succeeded :: t.attempts)
        (decide_eq_false (not_not_intro (hfails hne)))
  · have hnull : ∀ callback userdata, call = .startWith callback userdata → callback = 0 :=
      fun callback userdata heq => by_contra fun hne => hcall ⟨callback, userdata, heq, hne⟩
    obtain ⟨status, t', hstep, hunborn, hfollows⟩ := h.step_other (p := p) hnull
    have hfails : t.CreationFails p call := by
      cases call with
      | startWith callback userdata => exact fun hne => absurd (hnull callback userdata rfl) hne
      | start | join | setExceptionsFlag | setAllocator => trivial
    exact ⟨iff_of_true hfollows hfails, fun _ => ⟨status, t', hstep, hunborn⟩⟩

/-- A thread whose construction creates none has no state. -/
theorem unborn_construct {arguments : Option (UInt64 × UInt64)} {env : π}
    (hfails : ConstructionFails p arguments env) (uninitialized : UInt64) :
    (construct p arguments uninitialized env).Unborn := by
  rcases arguments with _ | ⟨callback, userdata⟩
  · exact ⟨.inl rfl, fun attempt hattempt => absurd hattempt List.not_mem_nil⟩
  · unfold construct
    dsimp only
    split_ifs with hnull
    · exact ⟨.inl rfl, fun attempt hattempt => absurd hattempt List.not_mem_nil⟩
    · exact Unborn.createThread (.inl rfl)
        (fun attempt hattempt => absurd hattempt List.not_mem_nil)
        (hfails callback userdata rfl hnull)

/-- **The documented life cycle holds along a run iff no thread is ever created in it.** -/
theorem lifeCycle_iff (p : ThreadPlatform π) (arguments : Option (UInt64 × UInt64))
    (uninitialized : UInt64) (env : π) (calls : List ThreadCall) :
    LifeCycle p arguments uninitialized env calls ↔
      ConstructionFails p arguments env ∧
        Along (step p) (CreationFails p) (construct p arguments uninitialized env) calls := by
  by_cases hfails : ConstructionFails p arguments env
  · have hunborn := unborn_construct hfails uninitialized
    have hcalls : Along (step p) (Follows p) (construct p arguments uninitialized env) calls ↔
        Along (step p) (CreationFails p) (construct p arguments uninitialized env) calls :=
      along_congr Unborn (fun t call h _ => (h.step_iff call).1)
        (fun t call status t' h _ hlegal hstep => by
          obtain ⟨status', t'', hstep', hunborn'⟩ := (h.step_iff call).2 hlegal
          obtain ⟨-, rfl⟩ := Prod.mk.inj (Option.some.inj (hstep'.symm.trans hstep))
          exact hunborn')
        hunborn (Along.of_forall_mem (P := fun _ _ => True) fun _ _ _ => trivial)
    rw [LifeCycle, hcalls]
    exact ⟨fun h => ⟨hfails, h.2⟩, fun h => ⟨hunborn.flagsAgree, h.2⟩⟩
  · refine iff_of_false (fun h => hfails fun callback userdata heq hne => ?_) fun h => hfails h.1
    by_contra hsucceeds
    subst heq
    have hconstruct : construct p (some (callback, userdata)) uninitialized env =
        (Thread.createThread p ⟨initArgument callback userdata, uninitialized, [], [], env⟩).2 :=
      if_neg hne
    have hagree := h.1
    rw [hconstruct] at hagree
    exact not_flagsAgree_createThread (.inl rfl) hsucceeds hagree

/-- A system that grants everything, and callbacks that return `7`. -/
def grantingThreads : ThreadPlatform Unit where
  beginThread env := (1, env)
  resumeThread _ env := (true, env)
  waitForSingleObject _ env := (true, env)
  closeHandle _ env := env
  callback _ _ := 7

/-- **A thread that was created with a callback is not marked as created**, and so cannot be
started. -/
theorem not_lifeCycle : ¬ ∀ (p : ThreadPlatform Unit) (arguments : Option (UInt64 × UInt64))
    (uninitialized : UInt64) (env : Unit) (calls : List ThreadCall),
    LifeCycle p arguments uninitialized env calls := by
  intro h
  have hagree := (h grantingThreads (some (1, 0)) 0 () []).1
  exact absurd (hagree.created.mpr List.mem_cons_self) (by decide)

end Thread

end Hologine.Threading
