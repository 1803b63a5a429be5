import Hologine.Threading.Thread

/-!
# What becomes of a thread

A `holo::thread` from its construction to its destruction (`core/threading/thread.cpp:6-32`). The
system creates threads suspended, and no flag says that one was created; so all that an object does
is to create threads.

Results:
* `Creates.step`: a call creates a thread or is refused.
* `Thread.never_runs`: **in no run a thread is resumed or waited for**, and no handle is closed. An
  object creates a thread whenever it is handed a callback, joining one that was never started is
  all that its destructor does, and it is refused.
-/

namespace Hologine.Threading

open Hologine.Library.Run

namespace Thread

variable {π : Type}

/-- `~thread`. -/
def destruct (p : ThreadPlatform π) (t : Thread π) : Thread π :=
  if !t.getArgumentFlag flagThreadExited then (t.join p).2 else t

end Thread

/-! ## An object that creates threads -/

/-- What is left of an object: the exceptions that were pushed, newest first, the threads that were
created and are suspended, newest first, and the system. -/
structure Creator (π : Type) where
  exceptions : List ExceptionCode
  suspended : List UInt64
  env : π

namespace Creator

variable {π : Type} (p : ThreadPlatform π)

/-- A call is refused. -/
def refuse (c : Creator π) (exception : ExceptionCode) : Creator π :=
  { c with exceptions := exception :: c.exceptions }

/-- A callback is handed over: the system is asked for a thread, unless it is null. -/
def create (c : Creator π) (callback : UInt64) : Creator π :=
  if callback = 0 then c.refuse .invalidArgument
  else
    let (handle, env) := p.beginThread c.env
    if handle = 0 then { c.refuse .platform with env := env }
    else { c with suspended := handle :: c.suspended, env := env }

/-- The constructors. -/
def construct (arguments : Option (UInt64 × UInt64)) (env : π) : Creator π :=
  match arguments with
  | none => ⟨[], [], env⟩
  | some (callback, _) => create p ⟨[], [], env⟩ callback

/-- One call, which returns no status of a thread. -/
def step (c : Creator π) : ThreadCall → Option (UInt8 × Creator π)
  | .start | .join => some (threadReturnStatusOk, c.refuse .invalidOperation)
  | .startWith callback _ => some (threadReturnStatusOk, c.create p callback)
  | .setExceptionsFlag _ | .setAllocator _ => some (threadReturnStatusOk, c)

end Creator

namespace Thread

variable {π : Type} {p : ThreadPlatform π} {t : Thread π} {c : Creator π}

/-- **A thread object is a creator**: its flags are for exceptions only, and what was attempted is
the creations, as many of which succeeded as threads are suspended. -/
structure Creates (t : Thread π) (c : Creator π) : Prop where
  flags : t.argument.flags = 0 ∨ t.argument.flags = flagEnableExceptions
  exceptions : t.exceptions = c.exceptions
  env : t.env = c.env
  attempts : ∀ attempt ∈ t.attempts, ∃ succeeded, attempt = .createThread succeeded
  suspended : t.attempts.count (.createThread true) = c.suspended.length

/-- The flags for exceptions say nothing of a thread. -/
theorem Creates.getArgumentFlag (h : Creates t c) :
    t.getArgumentFlag flagThreadCreated = false ∧ t.getArgumentFlag flagThreadStarted = false ∧
      t.getArgumentFlag flagThreadExited = false ∧ t.isValid = true :=
  Unborn.getArgumentFlag (t := { t with attempts := [] })
    ⟨h.flags, fun _ hmem => absurd hmem List.not_mem_nil⟩

theorem Creates.refuse (h : Creates t c) (exception : ExceptionCode) :
    Creates (t.pushException exception) (c.refuse exception) where
  flags := h.flags
  exceptions := congrArg (exception :: ·) h.exceptions
  env := h.env
  attempts := h.attempts
  suspended := h.suspended

/-- **A creation is attempted**, of whatever argument. -/
theorem Creates.createThread (h : Creates t c) {argument : ThreadArgument}
    (hflags : argument.flags = t.argument.flags) {callback : UInt64} (hne : callback ≠ 0) :
    Creates (createThread p { t with argument := argument }).2 (c.create p callback) := by
  have hattempts (succeeded : Bool) : ∀ attempt ∈ .createThread succeeded :: t.attempts,
      ∃ succeeded, attempt = .createThread succeeded := by
    intro attempt hmem
    rcases List.mem_cons.mp hmem with rfl | hmem
    · exact ⟨succeeded, rfl⟩
    · exact h.attempts attempt hmem
  unfold Thread.createThread Creator.create
  rw [if_neg hne, ← h.env]
  rcases p.beginThread t.env with ⟨handle, env⟩
  dsimp only
  split_ifs with hhandle
  · exact {
      flags := hflags ▸ h.flags
      exceptions := congrArg (ExceptionCode.platform :: ·) h.exceptions
      env := rfl
      attempts := hattempts false
      suspended := (List.count_cons_of_ne (by decide)).trans h.suspended }
  · exact {
      flags := hflags ▸ h.flags
      exceptions := h.exceptions
      env := rfl
      attempts := hattempts true
      suspended := List.count_cons_self.trans (congrArg (· + 1) h.suspended) }

theorem creates_construct (p : ThreadPlatform π) (arguments : Option (UInt64 × UInt64))
    (uninitialized : UInt64) (env : π) :
    Creates (construct p arguments uninitialized env) (Creator.construct p arguments env) := by
  have hnew (callback userdata : UInt64) :
      Creates ⟨initArgument callback userdata, uninitialized, [], [], env⟩ ⟨[], [], env⟩ :=
    ⟨.inl rfl, rfl, rfl, fun _ hmem => absurd hmem List.not_mem_nil, rfl⟩
  rcases arguments with _ | ⟨callback, userdata⟩
  · exact hnew 0 0
  · unfold construct Creator.construct
    dsimp only
    split_ifs with hnull
    · rw [hnull]
      exact (hnew 0 0).refuse .invalidArgument
    · exact (hnew callback userdata).createThread rfl hnull

/-- **A call creates a thread or is refused**, or sets what a thread would be started with. -/
theorem Creates.step (h : Creates t c) (call : ThreadCall) : ∃ status t' c',
    t.step p call = some (status, t') ∧ c.step p call = some (status, c') ∧ Creates t' c' := by
  obtain ⟨hcreated, hstarted, -, hvalid⟩ := h.getArgumentFlag
  cases call with
  | start =>
    refine ⟨_, _, _, ?_, rfl, h.refuse .invalidOperation⟩
    rw [Thread.step, start, hvalid, hstarted, hcreated]
    rfl
  | startWith callback userdata =>
    by_cases hnull : callback = 0
    · have hrefused : c.create p callback = c.refuse .invalidArgument := if_pos hnull
      refine ⟨_, t.pushException .invalidArgument, c.create p callback, ?_, rfl, ?_⟩
      · rw [Thread.step, startWith, hvalid, hcreated, hnull]
        rfl
      · rw [hrefused]
        exact h.refuse .invalidArgument
    · have hflags : ({ t.argument with callback := callback, userdata := userdata } :
          ThreadArgument).flags = t.argument.flags := rfl
      refine ⟨_, _, c.create p callback, ?_, rfl, h.createThread hflags hnull⟩
      rw [Thread.step, startWith, hvalid, hcreated]
      exact congrArg (fun t' => some (threadReturnStatusOk, t')) (if_neg hnull)
  | join =>
    refine ⟨_, _, _, ?_, rfl, h.refuse .invalidOperation⟩
    rw [Thread.step, join, hvalid, hstarted]
    rfl
  | setExceptionsFlag enable =>
    refine ⟨_, t.setArgumentFlag flagEnableExceptions enable, _, ?_, rfl, ?_⟩
    · rw [Thread.step, setExceptionsFlag, hvalid]
      rfl
    · refine ⟨?_, h.exceptions, h.env, h.attempts, h.suspended⟩
      unfold setArgumentFlag
      rcases h.flags with hflags | hflags <;> cases enable <;> simp only [hflags] <;> decide
  | setAllocator allocator =>
    refine ⟨_, { t with argument := { t.argument with allocator := allocator } }, _, ?_, rfl,
      ⟨h.flags, h.exceptions, h.env, h.attempts, h.suspended⟩⟩
    rw [Thread.step, setAllocator, hvalid]
    rfl

/-- **A thread never runs**: an object, however it is built and whatever is called, comes to a
creator of threads that stay suspended, and is destructed with an exception and nothing else. -/
theorem never_runs (p : ThreadPlatform π) (arguments : Option (UInt64 × UInt64))
    (uninitialized : UInt64) (env : π) (calls : List ThreadCall) : ∃ statuses t c,
    exec (step p) (construct p arguments uninitialized env) calls = some (statuses, t) ∧
      exec (Creator.step p) (Creator.construct p arguments env) calls = some (statuses, c) ∧
      Creates t c ∧ destruct p t = t.pushException .invalidOperation := by
  have hlegal : Along (step p) (fun _ _ => True) (construct p arguments uninitialized env) calls :=
    Along.of_forall_mem fun _ _ _ => trivial
  rcases refines_of_step (R := Creates) (fun t c call h _ => .inr (h.step call))
      (creates_construct p arguments uninitialized env) hlegal with
    ⟨hnone, -⟩ | ⟨statuses, t, c, hrun, hrun', h⟩
  · have hdefined : (exec (step p) (construct p arguments uninitialized env) calls).isSome :=
      exec_isSome (Along.of_forall_mem fun call _ t => by cases call <;> rfl)
    rw [hnone] at hdefined
    cases hdefined
  · obtain ⟨-, hstarted, hexited, hvalid⟩ := h.getArgumentFlag
    refine ⟨statuses, t, c, hrun, hrun', h, ?_⟩
    rw [destruct, hexited, join, hvalid, hstarted]
    rfl

end Thread

end Hologine.Threading
