import Hologine.Memory.BlockingAllocator
import Hologine.Threading.EventLifetime

/-!
# Threads with an event queue

Threads push to an `event_queue`, begin to drain it and give back its nodes
(`core/threading/event_queue.hpp:119-142`, `core/threading/event_queue.cpp:29-78`), statement by
statement, each with the mutex of the queue; in between they may write to memory. The allocator of
the queue is entered where the queue calls it, and is as in `Hologine.Memory.BlockingAllocator`.

* `queueCode_runs`: alone, the statements do what `EventQueue.push`, `EventQueue.begin` and
  `FixedAllocator.deallocate` do.
* `queueCode_commutes`: a write elsewhere than to the node that is taken, the link of the tail or
  the node that is given back makes no difference to a call.
* `QueueShared.Kept.push`, `QueueShared.Kept.begin`: each is a step in the life of the queue as
  `System.Life` has it.

Results:
* `QueueThreads.Inv.step`: what lasts from one statement of a thread to the next.
* `QueueThreads.keeps_first_interleaved`: **whatever threads do, a queue keeps the first events that
  are pushed to it**, as many as it has nodes, and every drain is at its end.
-/

namespace Hologine.Threading

open Hologine.Library Hologine.Library.Run Hologine.Library.Locked Hologine.Memory

/-- What a thread does with a queue: with the mutex, all of it. -/
inductive QueueOperation
  | push (event : UInt64)
  | begin
  | deallocate (node : UInt64)
  deriving Repr, DecidableEq

/-- What that returns. -/
inductive QueueAnswer
  | pushed (ok : Bool)
  | begun (node : UInt64)
  | deallocated
  deriving Repr, DecidableEq

/-- An `event_queue`, the memory and the environment, which threads share. -/
structure QueueShared (π : Type) where
  queue : EventQueue
  bytes : Memory
  env : π

namespace QueueShared

variable {τ π : Type} (p : τ → Platform π)

/-- The allocator of the queue. -/
def fixed (s : QueueShared π) : FixedShared π := ⟨s.queue.allocator, s.bytes, s.env⟩

/-- The queue with what its allocator has done. -/
def withFixed (s : QueueShared π) (f : FixedShared π) : QueueShared π :=
  ⟨{ s.queue with allocator := f.allocator }, f.bytes, f.env⟩

/-- A client writes to memory. -/
def write (w : Nat × List UInt8) (s : QueueShared π) : QueueShared π :=
  { s with bytes := s.bytes.write w.1 w.2 }

/-- What an operation does, all at once. -/
def apply (t : τ) (operation : QueueOperation) (s : QueueShared π) :
    Option (QueueAnswer × QueueShared π) :=
  match operation with
  | .push event =>
    let (ok, queue, bytes, env) := s.queue.push (p t) event s.bytes s.env
    some (.pushed ok, ⟨queue, bytes, env⟩)
  | .begin =>
    let (node, queue) := s.queue.begin
    some (.begun node, { s with queue := queue })
  | .deallocate node =>
    (s.queue.allocator.deallocate node s.bytes).map fun (allocator, bytes) =>
      (.deallocated, ⟨{ s.queue with allocator := allocator }, bytes, s.env⟩)

end QueueShared

/-! ## Statement by statement -/

/-- The places of the code of a queue. -/
inductive QueuePlace (τ : Type)
  /-- In `allocator.construct<event_node>()`, where that allocates. -/
  | allocating (event : UInt64) (l : FixedPlace τ)
  /-- `return new(pointer) Type(std::forward<Arguments>(args)...);` -/
  | construct (event pointer : UInt64)
  /-- `if (node == nullptr)` -/
  | checkNode (event node : UInt64)
  /-- `node->next = nullptr;` -/
  | setNext (event node : UInt64)
  /-- `node->event = (event_header*)e;` -/
  | setEvent (event node : UInt64)
  /-- `if (event_node_list_tail != nullptr)` -/
  | checkTail (node : UInt64)
  /-- `event_node_list_tail->next = node;` -/
  | linkTail (node : UInt64)
  /-- `event_node_list_tail = node;` -/
  | setTail (node : UInt64)
  /-- `event_node* node = event_node_list_head;` -/
  | readHead
  /-- `event_node_list_head = event_node_list_tail = nullptr;` -/
  | clear (node : UInt64)
  /-- In `queue->allocator.deallocate(node);` -/
  | deallocating (l : FixedPlace τ)
  deriving Repr, DecidableEq

section

variable {τ π : Type} (p : τ → Platform π)

/-- The pointer that `allocate` returns. -/
def pointerOf : AllocatorResult → UInt64
  | .allocated pointer => pointer
  | .deallocated => 0

/-- One statement. Nothing is constructed where there is no memory, and writing through a null
pointer has no defined behaviour. -/
def queueStatement : QueuePlace τ → QueueShared π →
    Option ((QueuePlace τ ⊕ QueueAnswer) × QueueShared π)
  | .allocating event l, s =>
    (fixedStatement p l s.fixed).map fun (r, f) =>
      (.inl (r.elim (.allocating event) fun result => .construct event (pointerOf result)),
        s.withFixed f)
  | .construct event pointer, s =>
    some (.inl (.checkNode event pointer),
      if pointer = 0 then s else { s with bytes := constructNode s.bytes pointer })
  | .checkNode event node, s =>
    if node = 0 then some (.inr (.pushed false), s) else some (.inl (.setNext event node), s)
  | .setNext event node, s =>
    if node = 0 then none
    else some (.inl (.setEvent event node), { s with bytes := setNodeNext s.bytes node 0 })
  | .setEvent event node, s =>
    if node = 0 then none
    else some (.inl (.checkTail node), { s with bytes := setNodeEvent s.bytes node event })
  | .checkTail node, s =>
    some (.inl (if s.queue.eventNodeListTail ≠ 0 then .linkTail node else .setTail node), s)
  | .linkTail node, s =>
    if s.queue.eventNodeListTail = 0 then none
    else some (.inl (.setTail node),
      { s with bytes := setNodeNext s.bytes s.queue.eventNodeListTail node })
  | .setTail node, s =>
    some (.inr (.pushed true), { s with queue := { s.queue with eventNodeListTail := node } })
  | .readHead, s => some (.inl (.clear s.queue.eventNodeListHead), s)
  | .clear node, s =>
    some (.inr (.begun node),
      { s with queue := { s.queue with eventNodeListHead := 0, eventNodeListTail := 0 } })
  | .deallocating l, s =>
    (fixedStatement p l s.fixed).map fun (r, f) =>
      (r.elim (fun l' => .inl (.deallocating l')) fun _ => .inr .deallocated, s.withFixed f)

/-- `event_queue`. -/
def queueCode : Code τ QueueOperation QueueAnswer (QueuePlace τ) (QueueShared π) where
  enter t
    | .push event => .allocating event (.checkSize t eventNodeSize)
    | .begin => .readHead
    | .deallocate node => .deallocating (.readHead node)
  statement := queueStatement p

variable {p} {t : τ} {s s' : QueueShared π} {answer : QueueAnswer}

/-- **A push, alone.** -/
theorem queueCode_runs_push {event : UInt64} :
    (queueCode p).Runs t (.push event) s answer s' ↔
      s.apply p t (.push event) = some (answer, s') := by
  have hrun : ∃ r, (queueCode p).run 13 ((queueCode p).enter t (.push event)) s = some r ∧
      s.apply p t (.push event) = some r := by
    by_cases hsize : eventNodeSize > s.queue.allocator.objectSize
    · simp [Code.run, queueCode, queueStatement, fixedStatement, QueueShared.apply,
        EventQueue.push, FixedAllocator.allocate, hsize, QueueShared.fixed, QueueShared.withFixed,
        pointerOf, FixedShared.pushException]
    by_cases hempty : s.queue.allocator.freeNodes = 0
    · simp [Code.run, queueCode, queueStatement, fixedStatement, QueueShared.apply,
        EventQueue.push, FixedAllocator.allocate, hsize, hempty, QueueShared.fixed,
        QueueShared.withFixed, pointerOf, FixedShared.pushException]
    by_cases htail : s.queue.eventNodeListTail = 0
    · simp [Code.run, queueCode, queueStatement, fixedStatement, QueueShared.apply,
        EventQueue.push, FixedAllocator.allocate, hsize, hempty, htail, QueueShared.fixed,
        QueueShared.withFixed, pointerOf]
    · simp [Code.run, queueCode, queueStatement, fixedStatement, QueueShared.apply,
        EventQueue.push, FixedAllocator.allocate, hsize, hempty, htail, QueueShared.fixed,
        QueueShared.withFixed, pointerOf]
  obtain ⟨r, hrun, happly⟩ := hrun
  rw [Code.runs_iff hrun, happly, Option.some_inj, eq_comm]

/-- **`begin`, alone.** -/
theorem queueCode_runs_begin :
    (queueCode p).Runs t .begin s answer s' ↔ s.apply p t .begin = some (answer, s') := by
  have hrun : (queueCode p).run 2 ((queueCode p).enter t .begin) s = some
      (.begun s.queue.begin.1, { s with queue := s.queue.begin.2 }) := rfl
  have happly : s.apply p t .begin = some
      (.begun s.queue.begin.1, { s with queue := s.queue.begin.2 }) := rfl
  rw [Code.runs_iff hrun, happly, Option.some_inj, eq_comm]

/-- A null node is not given back. -/
theorem not_runs_deallocate : ¬ (queueCode p).Runs t (.deallocate 0) s answer s' := by
  rintro ⟨l, u, hreaches, hlast⟩
  have hplace : (∃ h, l = .deallocating (.storeNext 0 h)) ∨ l = .deallocating (.readHead 0) := by
    clear hlast
    induction hreaches with
    | refl => exact .inr rfl
    | tail _ hstep ih =>
      obtain ⟨head, rfl⟩ | rfl := ih
      · simp [queueCode, queueStatement, fixedStatement] at hstep
      · obtain ⟨h, -⟩ := Prod.mk.inj (Option.some.inj hstep)
        exact .inl ⟨_, (Sum.inl.inj h).symm⟩
  obtain ⟨head, rfl⟩ | rfl := hplace
  · simp [queueCode, queueStatement, fixedStatement] at hlast
  · simp [queueCode, queueStatement, fixedStatement] at hlast

/-- **Giving a node back, alone.** -/
theorem queueCode_runs_deallocate {node : UInt64} :
    (queueCode p).Runs t (.deallocate node) s answer s' ↔
      s.apply p t (.deallocate node) = some (answer, s') := by
  by_cases hnull : node = 0
  · subst hnull
    simp [not_runs_deallocate, QueueShared.apply, FixedAllocator.deallocate]
  have hrun : ∃ r, (queueCode p).run 3 ((queueCode p).enter t (.deallocate node)) s = some r ∧
      s.apply p t (.deallocate node) = some r := by
    simp [Code.run, queueCode, queueStatement, fixedStatement, QueueShared.apply,
      FixedAllocator.deallocate, hnull, QueueShared.fixed, QueueShared.withFixed]
  obtain ⟨r, hrun, happly⟩ := hrun
  rw [Code.runs_iff hrun, happly, Option.some_inj, eq_comm]

/-- **What the statements of an operation do, alone.** -/
theorem queueCode_runs (t : τ) (operation : QueueOperation) (s : QueueShared π)
    (answer : QueueAnswer) (s' : QueueShared π) :
    (queueCode p).Runs t operation s answer s' ↔ s.apply p t operation = some (answer, s') := by
  cases operation with
  | push event => exact queueCode_runs_push
  | begin => exact queueCode_runs_begin
  | deallocate node => exact queueCode_runs_deallocate

/-! ## Writes elsewhere -/

/-- The node that an operation of the allocator is about, from a place of it on. -/
def currentNode (f : FixedShared π) : FixedPlace τ → Option UInt64
  | .checkSize _ _ | .readFreeNodes _ => ofPointer f.allocator.freeNodes
  | .checkFree _ node | .outOfMemory _ node | .giveNode node => ofPointer node
  | .readNext node | .advance node _ | .readHead node | .storeNext node _ => some node
  | .tooLarge _ | .setHead _ => none

/-- The node that is read or written at a place, or will be. -/
def QueuePlace.node (s : QueueShared π) : QueuePlace τ → Option UInt64
  | .allocating _ l | .deallocating l => currentNode s.fixed l
  | .construct _ node | .checkNode _ node | .setNext _ node | .setEvent _ node => ofPointer node
  | .checkTail _ | .linkTail _ | .setTail _ | .readHead | .clear _ => none

/-- The tail whose link may be written at a place or after it. -/
def QueuePlace.tail (s : QueueShared π) : QueuePlace τ → Option UInt64
  | .allocating _ _ | .construct _ _ | .checkNode _ _ | .setNext _ _ | .setEvent _ _
  | .checkTail _ | .linkTail _ => ofPointer s.queue.eventNodeListTail
  | .setTail _ | .readHead | .clear _ | .deallocating _ => none

/-- A write overlaps neither the node nor the link of the tail. -/
def QueueShared.Avoids (w : Nat × List UInt8) (l : QueuePlace τ) (s : QueueShared π) : Prop :=
  (∀ node, l.node s = some node → w.1 + w.2.length ≤ node.toNat ∨ node.toNat + 16 ≤ w.1) ∧
    ∀ tail, l.tail s = some tail → w.1 + w.2.length ≤ tail.toNat ∨ tail.toNat + 8 ≤ w.1

/-- What the allocator reads and writes is the node. -/
theorem currentNode_of_node {f : FixedShared π} {l : FixedPlace τ} {node : UInt64}
    (h : l.node f = some node) : currentNode f l = some node := by
  cases l with
  | _ => first | exact h | exact nomatch h

/-- A statement of the allocator goes on with the node it had, or with none. -/
theorem currentNode_of_statement {f f' : FixedShared π} {l l' : FixedPlace τ}
    (hstep : fixedStatement p l f = some (.inl l', f')) {node : UInt64}
    (hnode : currentNode f' l' = some node) : currentNode f l = some node := by
  cases l with
  | checkSize t size =>
    obtain ⟨rfl, rfl⟩ : _ = l' ∧ f = f' := by simpa [fixedStatement] using hstep
    split at hnode
    · exact absurd hnode (by simp [currentNode])
    · exact hnode
  | readFreeNodes t | readNext current | readHead newFreeNode =>
    obtain ⟨rfl, rfl⟩ : _ = l' ∧ f = f' := by simpa [fixedStatement] using hstep
    exact hnode
  | checkFree t current =>
    obtain ⟨rfl, rfl⟩ : _ = l' ∧ f = f' := by simpa [fixedStatement] using hstep
    split at hnode
    · exact hnode
    · next hne => exact ofPointer_eq_some.mpr ⟨Option.some.inj hnode, Option.some.inj hnode ▸ hne⟩
  | advance current next =>
    obtain ⟨rfl, -⟩ : _ = l' ∧ _ = f' := by simpa [fixedStatement] using hstep
    exact congrArg some (ofPointer_eq_some.mp hnode).1
  | outOfMemory t current =>
    obtain ⟨rfl, -⟩ : _ = l' ∧ _ = f' := by simpa [fixedStatement] using hstep
    exact hnode
  | storeNext newFreeNode head =>
    by_cases hnull : newFreeNode = 0
    · simp [fixedStatement, hnull] at hstep
    · obtain ⟨rfl, -⟩ : _ = l' ∧ _ = f' := by simpa [fixedStatement, hnull] using hstep
      exact absurd hnode (by simp [currentNode])
  | tooLarge t | giveNode current | setHead newFreeNode =>
    obtain ⟨h, -⟩ := Prod.mk.inj (Option.some.inj hstep)
    cases h

/-- What the allocator returns is the node it had, or null. -/
theorem currentNode_of_answer {f f' : FixedShared π} {l : FixedPlace τ} {result : AllocatorResult}
    (hstep : fixedStatement p l f = some (.inr result, f')) {node : UInt64}
    (hnode : ofPointer (pointerOf result) = some node) : currentNode f l = some node := by
  cases l with
  | tooLarge t =>
    obtain ⟨rfl, -⟩ : _ = result ∧ _ = f' := by simpa [fixedStatement] using hstep
    exact absurd hnode (by simp [pointerOf, ofPointer])
  | giveNode current =>
    obtain ⟨rfl, -⟩ : _ = result ∧ _ = f' := by simpa [fixedStatement] using hstep
    exact hnode
  | setHead newFreeNode =>
    obtain ⟨rfl, -⟩ : _ = result ∧ _ = f' := by simpa [fixedStatement] using hstep
    exact absurd hnode (by simp [pointerOf, ofPointer])
  | storeNext newFreeNode head =>
    by_cases hnull : newFreeNode = 0
    · simp [fixedStatement, hnull] at hstep
    · simp [fixedStatement, hnull] at hstep
  | checkSize t size | readFreeNodes t | checkFree t current | readNext current
  | advance current next | outOfMemory t current | readHead newFreeNode =>
    obtain ⟨h, -⟩ := Prod.mk.inj (Option.some.inj hstep)
    cases h

/-- The tail stays the one it is while the allocator runs. -/
@[simp] theorem withFixed_tail (s : QueueShared π) (f : FixedShared π) :
    (s.withFixed f).queue.eventNodeListTail = s.queue.eventNodeListTail := rfl

@[simp] theorem fixed_withFixed (s : QueueShared π) (f : FixedShared π) :
    (s.withFixed f).fixed = f := rfl

variable (p) in
/-- **A statement goes on with the node and the tail it had**, or without. -/
theorem node_tail_of_statement {l l' : QueuePlace τ}
    (hstep : queueStatement p l s = some (.inl l', s')) :
    (∀ node, l'.node s' = some node → l.node s = some node) ∧
      ∀ tail, l'.tail s' = some tail → l.tail s = some tail := by
  cases l with
  | allocating event l =>
    obtain ⟨⟨r, f⟩, hfixed, heq⟩ := Option.map_eq_some_iff.mp hstep
    obtain ⟨hl, rfl⟩ := Prod.mk.inj heq
    obtain rfl := Sum.inl.inj hl
    cases r with
    | inl l' => exact ⟨fun node hnode => currentNode_of_statement hfixed hnode, fun _ => id⟩
    | inr result => exact ⟨fun node hnode => currentNode_of_answer hfixed hnode, fun _ => id⟩
  | deallocating l =>
    obtain ⟨⟨r, f⟩, hfixed, heq⟩ := Option.map_eq_some_iff.mp hstep
    obtain ⟨hl, rfl⟩ := Prod.mk.inj heq
    cases r with
    | inl l' =>
      obtain rfl := Sum.inl.inj hl
      exact ⟨fun node hnode => currentNode_of_statement hfixed hnode, fun _ => id⟩
    | inr result => cases hl
  | construct event pointer =>
    obtain ⟨rfl, rfl⟩ : _ = l' ∧ _ = s' := by simpa [queueStatement] using hstep
    refine ⟨fun _ => id, fun tail htail => ?_⟩
    split at htail
    · exact htail
    · exact htail
  | checkNode event node =>
    by_cases hnull : node = 0
    · simp [queueStatement, hnull] at hstep
    · obtain ⟨rfl, rfl⟩ : _ = l' ∧ _ = s' := by simpa [queueStatement, hnull] using hstep
      exact ⟨fun _ => id, fun _ => id⟩
  | setNext event node =>
    by_cases hnull : node = 0
    · simp [queueStatement, hnull] at hstep
    · obtain ⟨rfl, rfl⟩ : _ = l' ∧ _ = s' := by simpa [queueStatement, hnull] using hstep
      exact ⟨fun _ => id, fun _ => id⟩
  | setEvent event node =>
    by_cases hnull : node = 0
    · simp [queueStatement, hnull] at hstep
    · obtain ⟨rfl, rfl⟩ : _ = l' ∧ _ = s' := by simpa [queueStatement, hnull] using hstep
      exact ⟨fun node hnode => absurd hnode (by simp [QueuePlace.node]), fun _ => id⟩
  | checkTail node =>
    obtain ⟨rfl, rfl⟩ : _ = l' ∧ _ = s' := by simpa [queueStatement] using hstep
    split
    · exact ⟨fun _ => id, fun tail htail => absurd htail (by simp [QueuePlace.tail])⟩
    · exact ⟨fun _ => id, fun _ => id⟩
  | linkTail node =>
    by_cases hnull : s.queue.eventNodeListTail = 0
    · simp [queueStatement, hnull] at hstep
    · obtain ⟨rfl, rfl⟩ : _ = l' ∧ _ = s' := by simpa [queueStatement, hnull] using hstep
      exact ⟨fun _ => id, fun tail htail => absurd htail (by simp [QueuePlace.tail])⟩
  | readHead =>
    obtain ⟨rfl, rfl⟩ : _ = l' ∧ _ = s' := by simpa [queueStatement] using hstep
    exact ⟨fun _ => id, fun _ => id⟩
  | setTail node | clear node =>
    obtain ⟨h, -⟩ := Prod.mk.inj (Option.some.inj hstep)
    cases h

/-- A write elsewhere makes no difference to the allocator. -/
theorem fixedStatement_write {w : Nat × List UInt8} {f f' : FixedShared π} {l : FixedPlace τ}
    {r : FixedPlace τ ⊕ AllocatorResult}
    (hfree : ∀ node, currentNode f l = some node →
      w.1 + w.2.length ≤ node.toNat ∨ node.toNat + 16 ≤ w.1)
    (hstep : fixedStatement p l f = some (r, f')) :
    fixedStatement p l (f.write w) = some (r, f'.write w) := by
  refine fixedCode_commutes.statement w l f (fun node hnode => ?_) r f' hstep
  rcases hfree node (currentNode_of_node hnode) with hbefore | hafter
  · exact .inl hbefore
  · exact .inr (by omega)

theorem write_setNodeNext {w : Nat × List UInt8} (m : Memory) {node : UInt64} (next : UInt64)
    (h : w.1 + w.2.length ≤ node.toNat ∨ node.toNat + 8 ≤ w.1) :
    setNodeNext (m.write w.1 w.2) node next = (setNodeNext m node next).write w.1 w.2 :=
  Memory.write_store64_comm h

theorem write_setNodeEvent {w : Nat × List UInt8} (m : Memory) {node : UInt64} (event : UInt64)
    (h : w.1 + w.2.length ≤ node.toNat ∨ node.toNat + 16 ≤ w.1) :
    setNodeEvent (m.write w.1 w.2) node event = (setNodeEvent m node event).write w.1 w.2 :=
  Memory.write_store64_comm (by omega)

theorem write_constructNode {w : Nat × List UInt8} (m : Memory) {node : UInt64}
    (h : w.1 + w.2.length ≤ node.toNat ∨ node.toNat + 16 ≤ w.1) :
    constructNode (m.write w.1 w.2) node = (constructNode m node).write w.1 w.2 := by
  unfold constructNode
  rw [write_setNodeNext m 0 (by omega), write_setNodeEvent _ 0 h]

/-- **A write elsewhere makes no difference to an operation.** -/
theorem queueCode_commutes :
    Commutes (queueCode p) QueueShared.write QueueShared.Avoids where
  statement w l s hfree r s' hstep := by
    obtain ⟨hnode, htail⟩ := hfree
    cases l with
    | allocating event l =>
      obtain ⟨⟨r', f⟩, hfixed, heq⟩ := Option.map_eq_some_iff.mp hstep
      obtain ⟨rfl, rfl⟩ := Prod.mk.inj heq
      exact Option.map_eq_some_iff.mpr ⟨_, fixedStatement_write hnode hfixed, rfl⟩
    | deallocating l =>
      obtain ⟨⟨r', f⟩, hfixed, heq⟩ := Option.map_eq_some_iff.mp hstep
      obtain ⟨rfl, rfl⟩ := Prod.mk.inj heq
      exact Option.map_eq_some_iff.mpr ⟨_, fixedStatement_write hnode hfixed, rfl⟩
    | construct event pointer =>
      obtain ⟨rfl, rfl⟩ : _ = r ∧ _ = s' := by
        simpa [queueCode, queueStatement] using hstep
      by_cases hnull : pointer = 0
      · simp [queueCode, queueStatement, hnull]
      · have hconstruct := write_constructNode s.bytes
          (hnode pointer (ofPointer_eq_some.mpr ⟨rfl, hnull⟩))
        simp [queueCode, queueStatement, hnull, QueueShared.write, hconstruct]
    | checkNode event node =>
      by_cases hnull : node = 0
      · obtain ⟨rfl, rfl⟩ : _ = r ∧ _ = s' := by
          simpa [queueCode, queueStatement, hnull] using hstep
        simp [queueCode, queueStatement, hnull]
      · obtain ⟨rfl, rfl⟩ : _ = r ∧ _ = s' := by
          simpa [queueCode, queueStatement, hnull] using hstep
        simp [queueCode, queueStatement, hnull]
    | setNext event node =>
      by_cases hnull : node = 0
      · simp [queueCode, queueStatement, hnull] at hstep
      · obtain ⟨rfl, rfl⟩ : _ = r ∧ _ = s' := by
          simpa [queueCode, queueStatement, hnull] using hstep
        have hbounds := hnode node (ofPointer_eq_some.mpr ⟨rfl, hnull⟩)
        have hword : w.1 + w.2.length ≤ node.toNat ∨ node.toNat + 8 ≤ w.1 := by omega
        have hset := write_setNodeNext s.bytes 0 hword
        simp [queueCode, queueStatement, hnull, QueueShared.write, hset]
    | setEvent event node =>
      by_cases hnull : node = 0
      · simp [queueCode, queueStatement, hnull] at hstep
      · obtain ⟨rfl, rfl⟩ : _ = r ∧ _ = s' := by
          simpa [queueCode, queueStatement, hnull] using hstep
        have hset := write_setNodeEvent s.bytes event
          (hnode node (ofPointer_eq_some.mpr ⟨rfl, hnull⟩))
        simp [queueCode, queueStatement, hnull, QueueShared.write, hset]
    | linkTail node =>
      by_cases hnull : s.queue.eventNodeListTail = 0
      · simp [queueCode, queueStatement, hnull] at hstep
      · obtain ⟨rfl, rfl⟩ : _ = r ∧ _ = s' := by
          simpa [queueCode, queueStatement, hnull] using hstep
        have hset := write_setNodeNext s.bytes node
          (htail _ (ofPointer_eq_some.mpr ⟨rfl, hnull⟩))
        simp [queueCode, queueStatement, hnull, QueueShared.write, hset]
    | _ =>
      obtain ⟨rfl, rfl⟩ := Prod.mk.inj (Option.some.inj hstep)
      rfl
  keeps w l s hfree l' s' hstep := by
    obtain ⟨hnode, htail⟩ := node_tail_of_statement p hstep
    exact ⟨fun node h => hfree.1 node (hnode node h), fun tail h => hfree.2 tail (htail tail h)⟩

/-! ## Definedness -/

/-- What is known at a place of a push or of `begin`. -/
def QueuePlace.Ok (s : QueueShared π) : QueuePlace τ → Prop
  | .allocating _ l => l.Of (.allocate eventNodeSize 16)
  | .setNext _ node | .setEvent _ node => node ≠ 0
  | .linkTail _ => s.queue.eventNodeListTail ≠ 0
  | .deallocating _ => False
  | .construct _ _ | .checkNode _ _ | .checkTail _ | .setTail _ | .readHead | .clear _ => True

theorem ok_statement {l l' : QueuePlace τ} (h : l.Ok s)
    (hstep : queueStatement p l s = some (.inl l', s')) : l'.Ok s' := by
  cases l with
  | allocating event l =>
    obtain ⟨⟨r, f⟩, hfixed, heq⟩ := Option.map_eq_some_iff.mp hstep
    obtain ⟨hl, rfl⟩ := Prod.mk.inj heq
    obtain rfl := Sum.inl.inj hl
    cases r with
    | inl l' => exact of_statement h hfixed
    | inr result => trivial
  | construct event pointer =>
    obtain ⟨rfl, -⟩ : _ = l' ∧ _ = s' := by simpa [queueStatement] using hstep
    trivial
  | checkNode event node =>
    by_cases hnull : node = 0
    · simp [queueStatement, hnull] at hstep
    · obtain ⟨rfl, -⟩ : _ = l' ∧ _ = s' := by simpa [queueStatement, hnull] using hstep
      exact hnull
  | setNext event node =>
    obtain ⟨rfl, -⟩ : _ = l' ∧ _ = s' := by
      simpa [queueStatement, show node ≠ 0 from h] using hstep
    exact h
  | setEvent event node =>
    obtain ⟨rfl, -⟩ : _ = l' ∧ _ = s' := by
      simpa [queueStatement, show node ≠ 0 from h] using hstep
    trivial
  | checkTail node =>
    obtain ⟨rfl, rfl⟩ : _ = l' ∧ _ = s' := by simpa [queueStatement] using hstep
    split
    · trivial
    · next htail => exact htail
  | linkTail node =>
    obtain ⟨rfl, -⟩ : _ = l' ∧ _ = s' := by
      simpa [queueStatement, show s.queue.eventNodeListTail ≠ 0 from h] using hstep
    trivial
  | readHead =>
    obtain ⟨rfl, -⟩ : _ = l' ∧ _ = s' := by simpa [queueStatement] using hstep
    trivial
  | setTail node | clear node =>
    obtain ⟨hl, -⟩ := Prod.mk.inj (Option.some.inj hstep)
    cases hl
  | deallocating l => exact h.elim

theorem ok_reaches {operation : QueueOperation} (hoperation : ∀ node, operation ≠ .deallocate node)
    {l : QueuePlace τ} (h : (queueCode p).Reaches ((queueCode p).enter t operation) s l s') :
    l.Ok s' := by
  induction h with
  | refl =>
    cases operation with
    | push event => trivial
    | begin => trivial
    | deallocate node => exact absurd rfl (hoperation node)
  | tail _ hstep ih => exact ok_statement ih hstep

/-- **A statement of a push or of `begin` is defined.** -/
theorem isSome_queueStatement {l : QueuePlace τ} (h : l.Ok s) : (queueStatement p l s).isSome := by
  cases l with
  | allocating event l =>
    rw [queueStatement, Option.isSome_map]
    exact isSome_statement h (by simp) s.fixed
  | checkNode event node =>
    by_cases hnull : node = 0
    · simp [queueStatement, hnull]
    · simp [queueStatement, hnull]
  | setNext event node | setEvent event node =>
    simp [queueStatement, show node ≠ 0 from h]
  | linkTail node => simp [queueStatement, show s.queue.eventNodeListTail ≠ 0 from h]
  | construct event pointer | checkTail node | setTail node | readHead | clear node => rfl
  | deallocating l => exact h.elim

end

/-! ## One queue -/

namespace QueueShared

variable {τ π : Type} {p : τ → Platform π} {t : τ} {nodes sent : List UInt64}
  {s s' : QueueShared π}

/-- A queue as it is constructed, with these nodes. -/
structure Start (nodes : List UInt64) (s : QueueShared π) : Prop where
  head : s.queue.eventNodeListHead = 0
  tail : s.queue.eventNodeListTail = 0
  objectSize : s.queue.allocator.objectSize = eventNodeSize
  free : s.queue.allocator.FreeList s.bytes nodes
  apart : ∀ x ∈ nodes, ∀ y ∈ nodes, x ≠ y → Apart x y

/-- The system of this queue only, which has taken some events. -/
def system (s : QueueShared π) (taken : List UInt64) : System π where
  queues := Function.update (fun _ => none) 0 (some s.queue)
  drains _ := .idle
  memory := s.bytes
  env := s.env
  pushed := Function.update (fun _ => []) 0 taken
  delivered _ := []

/-- **What lasts**: the queue is at a point of its life, with these events sent to it so far. -/
def Kept (nodes sent : List UInt64) (s : QueueShared π) : Prop :=
  ∃ m₀, (s.system (sent.take nodes.length)).Life (fun _ => nodes) m₀
    (Function.update (fun _ => []) 0 sent)

theorem system_queues (s : QueueShared π) (taken : List UInt64) :
    (s.system taken).queues 0 = some s.queue := by
  simp [system]

theorem system_queues_eq {taken : List UInt64} {a : UInt64} {q : EventQueue}
    (h : (s.system taken).queues a = some q) : a = 0 ∧ q = s.queue := by
  by_cases ha : a = 0
  · rw [ha, system_queues] at h
    exact ⟨ha, (Option.some.inj h).symm⟩
  · exact absurd h (by simp [system, ha])

theorem system_isSome {taken : List UInt64} {a : UInt64}
    (h : ((s.system taken).queues a).isSome) : a = 0 := by
  obtain ⟨q, hq⟩ := Option.isSome_iff_exists.mp h
  exact (system_queues_eq hq).1

/-- A queue as it is constructed is at the beginning of its life. -/
theorem Start.kept (h : s.Start nodes) : s.Kept nodes [] := by
  have hsent : Function.update (fun _ => []) 0 [] = fun _ : UInt64 => ([] : List UInt64) :=
    Function.update_eq_self (0 : UInt64) fun _ => ([] : List UInt64)
  have hstart : (s.system []).Start fun _ => nodes := by
    refine ⟨?_, ?_, ?_, ?_, fun _ => rfl, fun a => ?_, fun _ => rfl⟩
    · exact fun a q hq => (system_queues_eq hq).2 ▸ h.head
    · exact fun a q hq => (system_queues_eq hq).2 ▸ h.tail
    · exact fun a q hq => (system_queues_eq hq).2 ▸ h.objectSize
    · exact fun a q hq => (system_queues_eq hq).2 ▸ h.free
    · rw [system, hsent]
  rw [Kept, hsent, List.take_nil]
  refine ⟨s.bytes, hstart.life fun a b ha hb x hx y hy hne => ?_⟩
  rw [system_isSome ha, system_isSome hb] at hne
  exact h.apart x hx y hy (hne.resolve_left fun h0 => h0 rfl)

/-- The operation of a queue is the step of its system. -/
theorem system_push (s : QueueShared π) (taken : List UInt64) (event : UInt64) :
    ∃ ok s', s.apply p t (.push event) = some (.pushed ok, s') ∧
      (s.system taken).step (p t) (.push 0 event) =
        some (ok, s'.system (if ok then taken ++ [event] else taken)) := by
  obtain ⟨⟨ok, q, m, env⟩, hpush⟩ : ∃ r, s.queue.push (p t) event s.bytes s.env = r := ⟨_, rfl⟩
  have hpush' : s.queue.push (p t) event (s.system taken).memory (s.system taken).env =
      (ok, q, m, env) := hpush
  refine ⟨ok, ⟨q, m, env⟩, by rw [apply, hpush], ?_⟩
  rw [System.step, System.pushTo, system_queues, Option.bind_eq_bind, Option.bind_some, hpush']
  cases ok with
  | false => simp [system, Function.update_idem]
  | true => simp [system, Function.update_idem, System.append]

/-- **A push** is answered by whether there is a node left. -/
theorem Kept.push (h : s.Kept nodes sent) (event : UInt64) :
    ∃ s', s.apply p t (.push event) = some (.pushed (decide (sent.length < nodes.length)), s') ∧
      s'.Kept nodes (sent ++ [event]) := by
  obtain ⟨m₀, hlife⟩ := h
  obtain ⟨ok, s', happly, hstep⟩ := system_push (p := p) (t := t) s (sent.take nodes.length) event
  have hfull := hlife.full_iff (system_queues s _)
  rw [Function.update_self] at hfull
  have hsent : System.append (Function.update (fun _ => []) 0 sent) 0 event =
      Function.update (fun _ => []) 0 (sent ++ [event]) := by
    rw [System.append, Function.update_self, Function.update_idem]
  by_cases hroom : sent.length < nodes.length
  · obtain ⟨s₁, hstep₁, hlife₁⟩ := hlife.push_node (p := p t) (system_queues s _)
      (fun h0 => absurd (hfull.mp h0) (Nat.not_le.mpr hroom)) event
    obtain ⟨rfl, rfl⟩ := Prod.mk.inj (Option.some.inj (hstep.symm.trans hstep₁))
    refine ⟨s', by rw [happly, decide_eq_true hroom], m₀, ?_⟩
    rw [hsent, if_pos rfl, List.take_of_length_le hroom.le] at hlife₁
    rwa [List.take_of_length_le (by simpa using Nat.succ_le_of_lt hroom)]
  · obtain ⟨s₁, hstep₁, hlife₁⟩ := hlife.push_full (p := p t) (system_queues s _)
      (hfull.mpr (Nat.le_of_not_lt hroom)) event
    obtain ⟨rfl, rfl⟩ := Prod.mk.inj (Option.some.inj (hstep.symm.trans hstep₁))
    refine ⟨s', by rw [happly, decide_eq_false hroom], m₀, ?_⟩
    rw [hsent, if_neg (by simp)] at hlife₁
    rwa [List.take_append_of_le_length (Nat.le_of_not_lt hroom)]

/-- **`begin`** is at the end. -/
theorem Kept.begin (h : s.Kept nodes sent) :
    ∃ s', s.apply p t .begin = some (.begun 0, s') ∧ s'.Kept nodes sent := by
  obtain ⟨m₀, hlife⟩ := h
  have hhead : s.queue.eventNodeListHead = 0 := hlife.silent.head 0 _ (system_queues s _)
  refine ⟨{ s with queue := s.queue.begin.2 }, ?_, m₀, ?_⟩
  · rw [apply, EventQueue.begin, hhead]
  · obtain ⟨s₁, hstep, hlife₁⟩ := hlife.begin (p := p t) (system_queues s _)
    have hstep' : (s.system (sent.take nodes.length)).step (p t) (.begin 0) =
        some (false, ({ s with queue := s.queue.begin.2 } : QueueShared π).system
          (sent.take nodes.length)) := by
      rw [System.step, System.beginOf, system_queues, Option.bind_eq_bind, Option.bind_some,
        EventQueue.begin, hhead]
      simp [system, Function.update_idem, Drain.ofNode]
    obtain ⟨-, rfl⟩ := Prod.mk.inj (Option.some.inj (hstep'.symm.trans hstep))
    exact hlife₁

/-- A write outside the nodes is nothing to the queue. -/
theorem Kept.write (h : s.Kept nodes sent) {w : Nat × List UInt8}
    (hw : ∀ node ∈ nodes, w.1 + w.2.length ≤ node.toNat ∨ node.toNat + 16 ≤ w.1) :
    (s.write w).Kept nodes sent := by
  obtain ⟨m₀, hlife⟩ := h
  refine ⟨_, hlife.touch (m := s.bytes.write w.1 w.2) fun a _ node hnode x hx hx' => ?_⟩
  have houtside := hw node hnode
  exact Memory.write_apply_of_outside (by omega)

/-- The next node and the tail are nodes of the queue. -/
theorem Kept.mem_nodes (h : s.Kept nodes sent) {node : UInt64} :
    (ofPointer s.queue.allocator.freeNodes = some node → node ∈ nodes) ∧
      (ofPointer s.queue.eventNodeListTail = some node → node ∈ nodes) := by
  obtain ⟨m₀, hlife⟩ := h
  constructor
  · intro hnode
    have hlist := hlife.free 0 _ (system_queues s _)
    rw [FixedAllocator.FreeList, hnode] at hlist
    obtain ⟨rest, heq, -⟩ := Chain.some_iff.mp hlist
    exact List.mem_of_mem_drop (heq ▸ List.mem_cons_self)
  · intro hnode
    obtain ⟨rfl, h0⟩ := ofPointer_eq_some.mp hnode
    exact List.mem_of_mem_take (hlife.tail 0 _ (system_queues s _) h0)

/-- What the nodes hold. -/
theorem Kept.holds (h : s.Kept nodes sent) :
    (nodes.take sent.length).map (nodeEvent s.bytes) = sent.take nodes.length ∧
      s.queue.allocator.FreeList s.bytes (nodes.drop sent.length) := by
  obtain ⟨m₀, hlife⟩ := h
  have hevents := hlife.events 0 (by rw [system_queues]; rfl)
  have hfree := hlife.free 0 _ (system_queues s _)
  have htaken : (s.system (sent.take nodes.length)).pushed 0 = sent.take nodes.length := by
    simp [system]
  rw [Function.update_self] at hevents hfree
  exact ⟨hevents.trans htaken, hfree⟩

end QueueShared

/-! ## The threads of a queue -/

/-- Threads that use one queue. -/
abbrev QueueThreads (τ π : Type) :=
  State τ QueueOperation QueueAnswer (QueuePlace τ) (QueueShared π)

/-- What a thread does: in an operation, or writing to memory. -/
abbrev QueueAction (τ : Type) := Action τ QueueOperation (Nat × List UInt8)

/-- What it has done for all to see. -/
abbrev QueueEffect (τ : Type) := Effect τ QueueOperation QueueAnswer (Nat × List UInt8)

namespace QueueThreads

variable {τ π : Type}

/-- The events of the pushes that have returned, in order. -/
def sentIn : List (QueueEffect τ) → List UInt64 :=
  List.filterMap fun
    | .operation _ (.push event) _ => some event
    | .operation _ .begin _ => none
    | .operation _ (.deallocate _) _ => none
    | .touch _ _ => none

/-- What these pushes were answered. -/
def answersIn : List (QueueEffect τ) → List QueueAnswer :=
  List.filterMap fun
    | .operation _ (.push _) answer => some answer
    | .operation _ .begin _ => none
    | .operation _ (.deallocate _) _ => none
    | .touch _ _ => none

/-- Threads write outside the nodes, and give back none: no drain comes to one. -/
def Legal (nodes : List UInt64) : QueueAction τ → Prop
  | .call _ (.deallocate _) => False
  | .touch _ w => ∀ node ∈ nodes, w.1 + w.2.length ≤ node.toNat ∨ node.toNat + 16 ≤ w.1
  | _ => True

instance (nodes : List UInt64) : (action : QueueAction τ) → Decidable (Legal nodes action)
  | .call _ (.deallocate _) => isFalse id
  | .call _ (.push _) | .call _ .begin | .lock _ | .statement _ | .unlock _ => isTrue trivial
  | .touch _ w => inferInstanceAs
    (Decidable (∀ node ∈ nodes, w.1 + w.2.length ≤ node.toNat ∨ node.toNat + 16 ≤ w.1))

variable (p : τ → Platform π)

/-- **What lasts**, after these effects. -/
structure Inv (nodes : List UInt64) (effects : List (QueueEffect τ)) (s : QueueThreads τ π) :
    Prop where
  settled : s.Settled (queueCode p)
  kept : s.settled.Kept nodes (sentIn effects)
  answers : answersIn effects =
    (List.range (sentIn effects).length).map fun k => .pushed (decide (k < nodes.length))
  begun : ∀ t answer, .operation t .begin answer ∈ effects → answer = .begun 0
  pending : ∀ t, ∀ operation ∈ s.pending t, ∀ node, operation ≠ .deallocate node

variable {p} [DecidableEq τ] {nodes : List UInt64} {effects : List (QueueEffect τ)}
  {s s' : QueueThreads τ π} {action : QueueAction τ} {effect : Option (QueueEffect τ)}

omit [DecidableEq τ] in
/-- **A write outside the nodes makes no difference to the operation that has the lock.** -/
theorem Inv.respects (h : Inv p nodes effects s) (hlegal : Legal nodes action) :
    Respects (queueCode p) QueueShared.Avoids s action := by
  cases action with
  | touch t w =>
    intro t' operation hin
    cases operation with
    | push event =>
      constructor
      · exact fun node hnode => hlegal node (h.kept.mem_nodes.1 hnode)
      · intro tail htail
        rcases hlegal tail (h.kept.mem_nodes.2 htail) with hbefore | hafter
        · exact .inl hbefore
        · exact .inr (by omega)
    | begin =>
      exact ⟨fun node hnode => absurd hnode (by simp [queueCode, QueuePlace.node]),
        fun tail htail => absurd htail (by simp [queueCode, QueuePlace.tail])⟩
    | deallocate node =>
      exact absurd rfl (h.pending t' _ (by rw [hin.pending]; exact List.mem_singleton_self _) node)
  | _ => trivial

/-- **A step keeps what lasts.** -/
theorem Inv.step (h : Inv p nodes effects s) (hlegal : Legal nodes action)
    (hstep : State.step (queueCode p) QueueShared.write s action = some (effect, s')) :
    Inv p nodes (effects ++ effect.toList) s' := by
  obtain ⟨hsettled, hsettles⟩ := h.settled.step queueCode_commutes (h.respects hlegal) hstep
  have hpending : ∀ t, ∀ operation ∈ s'.pending t, ∀ node, operation ≠ .deallocate node := by
    rintro t operation hmem node rfl
    rcases State.mem_pending_step hstep hmem with hbefore | rfl
    · exact h.pending t _ hbefore node rfl
    · exact hlegal
  cases action with
  | unlock t =>
    obtain ⟨operation, answer, hleaving, rfl, -⟩ := State.step_cases hstep
    have happly := (queueCode_runs t operation _ answer _).mp hsettles
    cases operation with
    | push event =>
      obtain ⟨u, happly', hkept⟩ := h.kept.push (p := p) (t := t) event
      obtain ⟨rfl, rfl⟩ := Prod.mk.inj (Option.some.inj (happly.symm.trans happly'))
      refine ⟨hsettled, ?_, ?_, ?_, hpending⟩
      · simpa [sentIn] using hkept
      · have hanswers := h.answers
        unfold answersIn sentIn at hanswers ⊢
        simp [hanswers, List.range_succ]
      · intro t' answer hmem
        exact h.begun t' answer (by simpa using hmem)
    | begin =>
      obtain ⟨u, happly', hkept⟩ := h.kept.begin (p := p) (t := t)
      obtain ⟨rfl, rfl⟩ := Prod.mk.inj (Option.some.inj (happly.symm.trans happly'))
      refine ⟨hsettled, ?_, ?_, ?_, hpending⟩
      · simpa [sentIn] using hkept
      · simpa [answersIn, sentIn] using h.answers
      · intro t' answer hmem
        rcases List.mem_append.mp hmem with hold | hnew
        · exact h.begun t' answer hold
        · exact (Effect.operation.inj (List.mem_singleton.mp hnew)).2.2
    | deallocate node =>
      have hin : s.InOperation t (.deallocate node) := .inr ⟨answer, hleaving⟩
      exact absurd rfl
        (h.pending t _ (by rw [hin.pending]; exact List.mem_singleton_self _) node)
  | touch t w =>
    obtain ⟨-, rfl, -⟩ := State.step_cases hstep
    have hwrite : s'.settled = s.settled.write w := hsettles
    refine ⟨hsettled, ?_, ?_, ?_, hpending⟩
    · rw [hwrite]
      simpa [sentIn] using h.kept.write hlegal
    · simpa [answersIn, sentIn] using h.answers
    · intro t' answer hmem
      exact h.begun t' answer (by simpa using hmem)
  | call t operation | lock t | statement t =>
    obtain rfl : effect = none := by
      have hcases := State.step_cases hstep
      tauto
    have hsame : s'.settled = s.settled := hsettles
    exact ⟨hsettled, by simpa [hsame] using h.kept, by simpa using h.answers,
      by simpa using h.begun, hpending⟩

/-- The same of a run. -/
theorem Inv.exec : ∀ {actions : List (QueueAction τ)} {effects : List (QueueEffect τ)}
    {s s' : QueueThreads τ π} {es : List (Option (QueueEffect τ))}, Inv p nodes effects s →
      (∀ action ∈ actions, Legal nodes action) →
      Run.exec (State.step (queueCode p) QueueShared.write) s actions = some (es, s') →
      Inv p nodes (effects ++ es.reduceOption) s'
  | [], effects, s, s', es, h, _, hrun => by
    obtain ⟨rfl, rfl⟩ : [] = es ∧ s = s' := by simpa [Run.exec] using hrun
    simpa [List.reduceOption] using h
  | action :: actions, effects, s, s', es, h, hlegal, hrun => by
    obtain ⟨effect, es', u, hstep, hexec, rfl⟩ := exec_cons_eq_some.mp hrun
    have hu := h.step (hlegal action List.mem_cons_self) hstep
    have hlast := hu.exec (fun a ha => hlegal a (List.mem_cons_of_mem _ ha)) hexec
    cases effect with
    | none => simpa using hlast
    | some e => simpa using hlast

/-- The same of a run from a start. -/
theorem Inv.of_start {s : QueueShared π} (hstart : s.Start nodes)
    {actions : List (QueueAction τ)} (hlegal : ∀ action ∈ actions, Legal nodes action)
    {es : List (Option (QueueEffect τ))}
    (hrun : Run.exec (State.step (queueCode p) QueueShared.write) (State.start s) actions =
      some (es, s')) : Inv p nodes es.reduceOption s' := by
  have hinit : Inv p nodes [] (State.start s) :=
    ⟨State.settled_start s, hstart.kept, rfl, by simp, fun t operation hmem => by
      simp [State.pending, State.start, Phase.pending] at hmem⟩
  have hlast := hinit.exec hlegal hrun
  rwa [List.nil_append] at hlast

omit [DecidableEq τ] in
/-- What the nodes hold while no thread has the lock. -/
theorem Inv.holds (h : Inv p nodes effects s) (hfree : s.owner = none) :
    (nodes.take (sentIn effects).length).map (nodeEvent s.shared.bytes) =
        (sentIn effects).take nodes.length ∧
      s.shared.queue.allocator.FreeList s.shared.bytes (nodes.drop (sentIn effects).length) := by
  rw [h.settled.free hfree]
  exact h.kept.holds

/-- While an operation has not returned, a thread can go on. -/
theorem Inv.goesOn (h : Inv p nodes effects s) {t : τ} (hbusy : s.phase t ≠ .idle) :
    ∃ t', s.phase t' ≠ .idle ∧ ∃ action : QueueAction τ,
      action ∈ [.lock t', .statement t', .unlock t'] ∧
        (State.step (queueCode p) QueueShared.write s action).isSome := by
  refine h.settled.progress QueueShared.write (fun t' operation l hl => ?_) hbusy
  have hpending : operation ∈ s.pending t' := by
    rw [State.pending, hl]
    exact List.mem_singleton_self _
  exact isSome_queueStatement
    (ok_reaches (h.pending t' operation hpending) (h.settled.inside t' operation l hl).2)

/-- **A queue keeps the first events it is pushed, whatever threads do.** In every interleaving of
the statements of pushes and drains, and of writes outside the nodes: the pushes are answered as if
one after another, those that return first with a node of the queue and no others; they are
answered in the order a thread calls them, and none is lost; every drain is at its end; when no
thread has the lock the nodes hold the first events, and the others are free; and no thread is ever
stuck. -/
theorem keeps_first_interleaved (p : τ → Platform π) {nodes : List UInt64} {s : QueueShared π}
    (hstart : s.Start nodes) (actions : List (QueueAction τ))
    (hlegal : ∀ action ∈ actions, Legal nodes action) {effects : List (Option (QueueEffect τ))}
    {s' : QueueThreads τ π}
    (hrun : Run.exec (State.step (queueCode p) QueueShared.write) (State.start s) actions =
      some (effects, s')) :
    let returned := effects.reduceOption
    let sent := sentIn returned
    answersIn returned =
        (List.range sent.length).map (fun k => .pushed (decide (k < nodes.length))) ∧
      (∀ t answer, .operation t .begin answer ∈ returned → answer = .begun 0) ∧
      (s'.owner = none →
        (nodes.take sent.length).map (nodeEvent s'.shared.bytes) = sent.take nodes.length ∧
          s'.shared.queue.allocator.FreeList s'.shared.bytes (nodes.drop sent.length)) ∧
      (∀ t, actions.filterMap (Action.called t) =
        returned.filterMap (Effect.returned t) ++ s'.pending t) ∧
      ∀ t, s'.phase t ≠ .idle → ∃ t', s'.phase t' ≠ .idle ∧ ∃ action : QueueAction τ,
        action ∈ [.lock t', .statement t', .unlock t'] ∧
          (State.step (queueCode p) QueueShared.write s' action).isSome := by
  intro returned sent
  have hlast := Inv.of_start hstart hlegal hrun
  exact ⟨hlast.answers, hlast.begun, hlast.holds, fun t => State.pending_exec t hrun,
    fun t hbusy => hlast.goesOn hbusy⟩

/-- A queue with one node, as it is constructed. -/
def oneNode : QueueShared Unit := ⟨⟨⟨0x2000, eventNodeSize⟩, 0, 0⟩, fun _ => 0, ()⟩

theorem start_oneNode : oneNode.Start [0x2000] where
  head := rfl
  tail := rfl
  objectSize := rfl
  free := .cons .nil
  apart x hx y hy hne := by
    rw [List.mem_singleton.mp hx, List.mem_singleton.mp hy] at hne
    exact absurd rfl hne

/-- Two threads push at once; the one that calls last has the lock first. -/
def twoPushes : List (QueueAction Bool) :=
  [.call true (.push 0x3000), .call false (.push 0x3010), .lock false] ++
    List.replicate 12 (.statement false) ++ [.unlock false, .lock true] ++
    List.replicate 7 (.statement true) ++ [.unlock true]

theorem keeps_first_interleaved_twoPushes : ∃ effects s',
    Run.exec (State.step (queueCode fun _ : Bool => Platform.granting) QueueShared.write)
      (State.start oneNode) twoPushes = some (effects, s') ∧
    sentIn effects.reduceOption = [0x3010, 0x3000] ∧
    answersIn effects.reduceOption = [.pushed true, .pushed false] := by
  exact ⟨_, _, rfl, rfl, (keeps_first_interleaved (fun _ : Bool => Platform.granting)
    start_oneNode twoPushes (by decide) rfl).1⟩

end QueueThreads

end Hologine.Threading
