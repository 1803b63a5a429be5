import Hologine.Library.Locked
import Hologine.Memory.FixedAllocator

/-!
# The blocking allocator

Model of `blocking_allocator_proxy` (`core/memory/blocking_allocator_proxy.cpp:14-32`), of
`scoped_lock` (`core/threading/scoped_lock.cpp:12-21`) and of the mutex it takes, which is a
critical section (`core/threading/mutex_base.cpp`). Threads call `allocate` and `deallocate`; the
lock, each statement of the underlying allocator and the unlock are steps of their own, and a thread
that is in no call may write to memory meanwhile. The constructor asserts that there is an
underlying allocator.

`fixedCode` is `fixed_allocator` (`core/memory/fixed_allocator.cpp:70-101`) statement by statement.

* `fixedCode_runs_allocate`, `fixedCode_runs_deallocate`: alone, the statements do what
  `FixedAllocator.allocate` and `FixedAllocator.deallocate` do.
* `fixedCode_commutes`: a write elsewhere than to the next free node, or to the node that is
  deallocated, makes no difference to a call.
* `BlockingAllocatorProxy.linearizable`: **whatever allocator is underneath, its calls are answered
  one after another**.
-/

namespace Hologine.Memory

open Hologine.Library Hologine.Library.Run Hologine.Library.Locked

/-- A call of an `allocator`. -/
inductive AllocatorCall
  | allocate (size alignment : UInt64)
  | deallocate (pointer : UInt64)
  deriving Repr, DecidableEq

/-- What a call returns. -/
inductive AllocatorResult
  | allocated (pointer : UInt64)
  | deallocated
  deriving Repr, DecidableEq

/-- Threads that call an allocator through a `blocking_allocator_proxy`, which holds `mutex` while
the code of the allocator runs. -/
abbrev BlockingAllocatorProxy (τ ρ σ : Type*) := State τ AllocatorCall AllocatorResult ρ σ

/-! ## The fixed allocator, statement by statement -/

/-- A `fixed_allocator`, the memory and the environment, which threads share. -/
structure FixedShared (π : Type) where
  allocator : FixedAllocator
  bytes : Memory
  env : π

/-- The places of `fixed_allocator`'s code. -/
inductive FixedPlace (τ : Type)
  /-- `if (size > object_size)` -/
  | checkSize (t : τ) (size : UInt64)
  /-- `push_exception(exception::invalid_argument); return nullptr;` -/
  | tooLarge (t : τ)
  /-- `free_node* current_free_node = free_nodes;` -/
  | readFreeNodes (t : τ)
  /-- `if (current_free_node != nullptr)` -/
  | checkFree (t : τ) (currentFreeNode : UInt64)
  /-- `current_free_node->next` -/
  | readNext (currentFreeNode : UInt64)
  /-- `free_nodes = current_free_node->next;` -/
  | advance (currentFreeNode next : UInt64)
  /-- `push_exception(exception::out_of_memory);` -/
  | outOfMemory (t : τ) (currentFreeNode : UInt64)
  /-- `return current_free_node;` -/
  | giveNode (currentFreeNode : UInt64)
  /-- `free_node* new_free_node = (free_node*)pointer;` and the reading of `free_nodes`. -/
  | readHead (newFreeNode : UInt64)
  /-- `new_free_node->next = free_nodes;` -/
  | storeNext (newFreeNode head : UInt64)
  /-- `free_nodes = new_free_node;` -/
  | setHead (newFreeNode : UInt64)
  deriving Repr, DecidableEq

namespace FixedShared

variable {τ π : Type} (p : τ → Platform π)

/-- `push_exception`, by a thread. -/
def pushException (t : τ) (code : ExceptionCode) (s : FixedShared π) : FixedShared π :=
  { s with env := (p t).pushException code s.env }

/-- A client writes to memory. -/
def write (w : Nat × List UInt8) (s : FixedShared π) : FixedShared π :=
  { s with bytes := s.bytes.write w.1 w.2 }

end FixedShared

section

variable {τ π : Type} (p : τ → Platform π)

open FixedAllocator

/-- One statement. Writing through a null pointer has no defined behaviour. -/
def fixedStatement : FixedPlace τ → FixedShared π →
    Option ((FixedPlace τ ⊕ AllocatorResult) × FixedShared π)
  | .checkSize t size, s =>
    some (.inl (if size > s.allocator.objectSize then .tooLarge t else .readFreeNodes t), s)
  | .tooLarge t, s => some (.inr (.allocated 0), s.pushException p t .invalidArgument)
  | .readFreeNodes t, s => some (.inl (.checkFree t s.allocator.freeNodes), s)
  | .checkFree t currentFreeNode, s =>
    some (.inl (if currentFreeNode ≠ 0 then .readNext currentFreeNode
      else .outOfMemory t currentFreeNode), s)
  | .readNext currentFreeNode, s =>
    some (.inl (.advance currentFreeNode (nextFreeNode s.bytes currentFreeNode)), s)
  | .advance currentFreeNode next, s =>
    some (.inl (.giveNode currentFreeNode),
      { s with allocator := { s.allocator with freeNodes := next } })
  | .outOfMemory t currentFreeNode, s =>
    some (.inl (.giveNode currentFreeNode), s.pushException p t .outOfMemory)
  | .giveNode currentFreeNode, s => some (.inr (.allocated currentFreeNode), s)
  | .readHead newFreeNode, s => some (.inl (.storeNext newFreeNode s.allocator.freeNodes), s)
  | .storeNext newFreeNode head, s =>
    if newFreeNode = 0 then none
    else some (.inl (.setHead newFreeNode),
      { s with bytes := s.bytes.store64 newFreeNode.toNat head })
  | .setHead newFreeNode, s =>
    some (.inr .deallocated, { s with allocator := { s.allocator with freeNodes := newFreeNode } })

/-- `fixed_allocator`. -/
def fixedCode : Code τ AllocatorCall AllocatorResult (FixedPlace τ) (FixedShared π) where
  enter t
    | .allocate size _ => .checkSize t size
    | .deallocate pointer => .readHead pointer
  statement := fixedStatement p

variable {p} {t : τ} {s s' : FixedShared π} {result : AllocatorResult}

/-- **`allocate`, alone.** -/
theorem fixedCode_runs_allocate {size alignment : UInt64} :
    (fixedCode p).Runs t (.allocate size alignment) s result s' ↔
      (result, s') = (.allocated (s.allocator.allocate (p t) size s.bytes s.env).1,
        { s with
          allocator := (s.allocator.allocate (p t) size s.bytes s.env).2.1
          env := (s.allocator.allocate (p t) size s.bytes s.env).2.2 }) := by
  refine Code.runs_iff (n := 6) ?_
  by_cases hsize : size > s.allocator.objectSize
  · simp [Code.run, fixedCode, fixedStatement, FixedAllocator.allocate, hsize,
      FixedShared.pushException]
  · by_cases hempty : s.allocator.freeNodes = 0
    · simp [Code.run, fixedCode, fixedStatement, FixedAllocator.allocate, hsize, hempty,
        FixedShared.pushException]
    · simp [Code.run, fixedCode, fixedStatement, FixedAllocator.allocate, hsize, hempty]

/-- **`deallocate`, alone**, of what is not null. -/
theorem fixedCode_runs_deallocate {pointer : UInt64} (hpointer : pointer ≠ 0) :
    (fixedCode p).Runs t (.deallocate pointer) s result s' ↔
      (result, s') = (.deallocated, { s with
        allocator := { s.allocator with freeNodes := pointer }
        bytes := s.bytes.store64 pointer.toNat s.allocator.freeNodes }) := by
  refine Code.runs_iff (n := 3) ?_
  simp [Code.run, fixedCode, fixedStatement, hpointer]

/-! ## Writes elsewhere -/

/-- The node whose word is read or written at a place, or will be. -/
def FixedPlace.node (s : FixedShared π) : FixedPlace τ → Option UInt64
  | .checkSize _ _ | .readFreeNodes _ => ofPointer s.allocator.freeNodes
  | .checkFree _ currentFreeNode => ofPointer currentFreeNode
  | .readNext currentFreeNode => some currentFreeNode
  | .readHead newFreeNode | .storeNext newFreeNode _ => some newFreeNode
  | _ => none

/-- A write does not overlap the word of a place's node. -/
def FixedShared.Avoids (w : Nat × List UInt8) (l : FixedPlace τ) (s : FixedShared π) : Prop :=
  ∀ node, l.node s = some node → w.1 + w.2.length ≤ node.toNat ∨ node.toNat + 8 ≤ w.1

theorem nextFreeNode_write {w : Nat × List UInt8} {node : UInt64} {m : Memory}
    (h : w.1 + w.2.length ≤ node.toNat ∨ node.toNat + 8 ≤ w.1) :
    nextFreeNode (m.write w.1 w.2) node = nextFreeNode m node :=
  Memory.load64_congr fun _ _ _ => Memory.write_apply_of_outside (by omega)

variable (p) in
/-- A statement goes on with the node it had, or with none. -/
theorem node_of_statement {l l' : FixedPlace τ} (hstep : fixedStatement p l s = some (.inl l', s'))
    {node : UInt64} (hnode : l'.node s' = some node) : l.node s = some node := by
  cases l with
  | checkSize t size =>
    obtain ⟨rfl, rfl⟩ : _ = l' ∧ s = s' := by simpa [fixedStatement] using hstep
    split at hnode
    · exact nomatch hnode
    · exact hnode
  | readFreeNodes t =>
    obtain ⟨rfl, rfl⟩ : _ = l' ∧ s = s' := by simpa [fixedStatement] using hstep
    exact hnode
  | checkFree t currentFreeNode =>
    obtain ⟨rfl, rfl⟩ : _ = l' ∧ s = s' := by simpa [fixedStatement] using hstep
    split at hnode
    · exact nomatch hnode
    · next hne => exact ofPointer_eq_some.mpr ⟨Option.some.inj hnode, Option.some.inj hnode ▸ hne⟩
  | readHead newFreeNode =>
    obtain ⟨rfl, rfl⟩ : _ = l' ∧ s = s' := by simpa [fixedStatement] using hstep
    exact hnode
  | storeNext newFreeNode head =>
    by_cases hnull : newFreeNode = 0
    · simp [fixedStatement, hnull] at hstep
    · obtain ⟨rfl, -⟩ : _ = l' ∧ _ = s' := by simpa [fixedStatement, hnull] using hstep
      exact nomatch hnode
  | readNext currentFreeNode | advance currentFreeNode next | outOfMemory t currentFreeNode =>
    obtain ⟨h, -⟩ := Prod.mk.inj (Option.some.inj hstep)
    obtain rfl := Sum.inl.inj h
    exact nomatch hnode
  | tooLarge t | giveNode currentFreeNode | setHead newFreeNode =>
    obtain ⟨h, -⟩ := Prod.mk.inj (Option.some.inj hstep)
    exact nomatch h

/-- **A write elsewhere makes no difference to a call.** -/
theorem fixedCode_commutes :
    Commutes (fixedCode p) FixedShared.write FixedShared.Avoids where
  statement w l s hfree r s' hstep := by
    cases l with
    | readNext currentFreeNode =>
      obtain ⟨rfl, rfl⟩ := Prod.mk.inj (Option.some.inj hstep)
      have hnext : nextFreeNode (s.bytes.write w.1 w.2) currentFreeNode =
          nextFreeNode s.bytes currentFreeNode := nextFreeNode_write (hfree _ rfl)
      simp only [fixedCode, fixedStatement, FixedShared.write, hnext]
    | storeNext newFreeNode head =>
      by_cases hnull : newFreeNode = 0
      · simp [fixedCode, fixedStatement, hnull] at hstep
      · obtain ⟨rfl, rfl⟩ : _ = r ∧ _ = s' := by
          simpa [fixedCode, fixedStatement, hnull] using hstep
        have hstore := Memory.write_store64_comm (m := s.bytes) (v := head) (hfree _ rfl)
        simp [fixedCode, fixedStatement, hnull, FixedShared.write, hstore]
    | _ =>
      obtain ⟨rfl, rfl⟩ := Prod.mk.inj (Option.some.inj hstep)
      rfl
  keeps w l s hfree l' s' hstep node hnode := hfree node (node_of_statement p hstep hnode)

/-! ## What a call writes to -/

/-- The places of a call: what is deallocated is its own pointer. -/
def FixedPlace.Of (call : AllocatorCall) : FixedPlace τ → Prop
  | .readHead node | .storeNext node _ | .setHead node => call = .deallocate node
  | _ => True

variable {call : AllocatorCall} {l l' : FixedPlace τ}

theorem of_statement (hof : l.Of call) (hstep : fixedStatement p l s = some (.inl l', s')) :
    l'.Of call := by
  cases l with
  | checkSize t size =>
    obtain ⟨rfl, -⟩ : _ = l' ∧ s = s' := by simpa [fixedStatement] using hstep
    split <;> trivial
  | checkFree t currentFreeNode =>
    obtain ⟨rfl, -⟩ : _ = l' ∧ s = s' := by simpa [fixedStatement] using hstep
    split <;> trivial
  | storeNext node head =>
    by_cases hnull : node = 0
    · simp [fixedStatement, hnull] at hstep
    · obtain ⟨rfl, -⟩ : _ = l' ∧ _ = s' := by simpa [fixedStatement, hnull] using hstep
      exact hof
  | readHead node =>
    obtain ⟨rfl, -⟩ : _ = l' ∧ s = s' := by simpa [fixedStatement] using hstep
    exact hof
  | readFreeNodes t | readNext current | advance current next | outOfMemory t current =>
    obtain ⟨h, -⟩ := Prod.mk.inj (Option.some.inj hstep)
    obtain rfl := Sum.inl.inj h
    trivial
  | tooLarge t | giveNode current | setHead node =>
    obtain ⟨h, -⟩ := Prod.mk.inj (Option.some.inj hstep)
    exact nomatch h

/-- A call stays at its own places. -/
theorem of_reaches (h : (fixedCode p).Reaches ((fixedCode p).enter t call) s l s') : l.Of call := by
  induction h with
  | refl => cases call <;> trivial
  | tail _ hstep ih => exact of_statement ih hstep

/-- **A call writes to nothing but the node that it deallocates.** -/
theorem bytes_of_statement (hof : l.Of call) {r : FixedPlace τ ⊕ AllocatorResult}
    (hstep : fixedStatement p l s = some (r, s')) :
    s'.bytes = s.bytes ∨ ∃ node, call = .deallocate node ∧
      ∀ x, x < node.toNat ∨ node.toNat + 8 ≤ x → s'.bytes x = s.bytes x := by
  cases l with
  | storeNext node head =>
    by_cases hnull : node = 0
    · simp [fixedStatement, hnull] at hstep
    · obtain ⟨-, rfl⟩ : _ = r ∧ _ = s' := by simpa [fixedStatement, hnull] using hstep
      exact .inr ⟨node, hof, fun x hx => Memory.store64_apply_of_outside hx⟩
  | _ =>
    obtain ⟨-, rfl⟩ := Prod.mk.inj (Option.some.inj hstep)
    exact .inl rfl

/-- A statement of a call is defined, unless the call deallocates null. -/
theorem isSome_statement (hof : l.Of call) (hcall : call ≠ .deallocate 0) (s : FixedShared π) :
    (fixedStatement p l s).isSome := by
  cases l with
  | storeNext node head =>
    have hnull : node ≠ 0 := fun h => hcall (h ▸ hof)
    simp [fixedStatement, hnull]
  | _ => rfl

end

/-! ## Any allocator behind the lock -/

namespace BlockingAllocatorProxy

variable {τ ρ σ κ : Type*} [DecidableEq τ]
  {allocator : Code τ AllocatorCall AllocatorResult ρ σ} {touch : κ → σ → σ}
  {Free : κ → ρ → σ → Prop}

/-- **Threads that call an allocator through the proxy are served one after another**: the answers
and what is left of the allocator are those of the calls that have returned, made in the order of
the unlocks, with what was touched in between; each thread is answered in the order it calls, no
call is lost or answered twice, and one thread at most is in the allocator. -/
theorem linearizable (hcommutes : Commutes allocator touch Free) (s : σ)
    (actions : List (Action τ AllocatorCall κ))
    (hrespects : Along (State.step allocator touch) (Respects allocator Free) (State.start s)
      actions)
    {effects : List (Option (Effect τ AllocatorCall AllocatorResult κ))}
    {s' : BlockingAllocatorProxy τ ρ σ}
    (hrun : exec (State.step allocator touch) (State.start s) actions = some (effects, s')) :
    History allocator touch s effects.reduceOption s'.settled ∧
      (s'.owner = none → s'.shared = s'.settled) ∧
      (∀ t, actions.filterMap (Action.called t) =
        effects.reduceOption.filterMap (Effect.returned t) ++ s'.pending t) ∧
      ∀ t t' call call', s'.InOperation t call → s'.InOperation t' call' → t = t' := by
  obtain ⟨hsettled, hhistory⟩ := (State.settled_start s).exec hcommutes hrespects hrun
  exact ⟨hhistory, hsettled.free, fun t => State.pending_exec t hrun,
    fun _ _ _ _ ht ht' => hsettled.inside_unique ht ht'⟩

/-- Two threads deallocate at once; the first is served. -/
def twoDeallocations : List (Action Bool AllocatorCall (Nat × List UInt8)) :=
  [.call true (.deallocate 0x1000), .call false (.deallocate 0x2000), .lock true, .statement true,
    .statement true, .statement true, .unlock true]

theorem linearizable_twoDeallocations : ∃ effects s',
    exec (State.step (fixedCode fun _ : Bool => Platform.granting) FixedShared.write)
      (State.start ⟨⟨0, 16⟩, fun _ => 0, ()⟩) twoDeallocations = some (effects, s') ∧
      History (fixedCode fun _ : Bool => Platform.granting) FixedShared.write
        ⟨⟨0, 16⟩, fun _ => 0, ()⟩ effects.reduceOption s'.settled ∧
      (s'.owner = none → s'.shared = s'.settled) ∧
      (∀ t, twoDeallocations.filterMap (Action.called t) =
        effects.reduceOption.filterMap (Effect.returned t) ++ s'.pending t) ∧
      ∀ t t' call call', s'.InOperation t call → s'.InOperation t' call' → t = t' := by
  refine ⟨_, _, rfl, linearizable fixedCode_commutes _ _ ?_ rfl⟩
  refine Along.of_forall_mem fun action haction s => ?_
  cases action with
  | touch t w => simp [twoDeallocations] at haction
  | _ => trivial

end BlockingAllocatorProxy

end Hologine.Memory
