import Hologine.Library.Run
import Hologine.Memory.FixedAllocator

/-!
# The event queue

Model of `event_queue` and its iterator (`core/threading/event_queue.hpp:119-141, 214-236`,
`core/threading/event_queue.cpp:15-85`). Queues are named by their addresses; their nodes and the
headers of the events are in one byte memory with everything the threads share.

* A step of `System` is what is done under one lock: a push, `begin`, and the two halves of the
  iterator's increment, which sends the event back to its owner and then frees its node. Steps of
  all the threads that push come in any order. One thread drains a queue, from `begin` to the end,
  before it calls `begin` again.
* `push` links a node to the tail and makes it the tail, and never sets the head. So `begin`
  finds no head, and clears the tail.

Results:
* `Silent.step`, `nothing_delivered`: whatever is pushed, in every run no event is delivered.
* `conserved_iff`: in every run the events delivered and those still queued are the ones pushed,
  in order, and the nodes that are not queued are free, **iff** no push found a free node.
-/

namespace Hologine.Threading

open Hologine.Library Hologine.Library.Run Hologine.Memory

/-! ## Nodes and events -/

/-- The size of an `event_node`: a pointer to the next, and one to the event. -/
def eventNodeSize : UInt64 := 16

def nodeNext (m : Memory) (node : UInt64) : UInt64 := m.load64 node.toNat

def nodeEvent (m : Memory) (node : UInt64) : UInt64 := m.load64 (node.toNat + 8)

def setNodeNext (m : Memory) (node next : UInt64) : Memory := m.store64 node.toNat next

def setNodeEvent (m : Memory) (node event : UInt64) : Memory := m.store64 (node.toNat + 8) event

/-- `event_node()`. -/
def constructNode (m : Memory) (node : UInt64) : Memory :=
  setNodeEvent (setNodeNext m node 0) node 0

/-- `event_header::event_flag_disposed`. -/
def eventFlagDisposed : UInt32 := 0x00000001

/-- `event_header::flags`, after `type`. -/
def eventFlags (m : Memory) (event : UInt64) : UInt32 := m.load32 (event.toNat + 4)

def setEventFlags (m : Memory) (event : UInt64) (flags : UInt32) : Memory :=
  m.store32 (event.toNat + 4) flags

/-- `event_header::queue`, the queue of the thread that owns the event. -/
def eventOwner (m : Memory) (event : UInt64) : UInt64 := m.load64 (event.toNat + 8)

/-! ## A queue -/

/-- `event_queue`. -/
structure EventQueue where
  allocator : FixedAllocator
  eventNodeListHead : UInt64
  eventNodeListTail : UInt64
  deriving Repr, DecidableEq

namespace EventQueue

variable {π : Type} (p : Platform π)

/-- `push`: whether there was a node for the event. -/
def push (q : EventQueue) (e : UInt64) (m : Memory) (env : π) : Bool × EventQueue × Memory × π :=
  let (node, allocator, env) := q.allocator.allocate p eventNodeSize m env
  let q := { q with allocator := allocator }
  if node = 0 then (false, q, m, env)
  else
    let m := constructNode m node
    let m := setNodeNext m node 0
    let m := setNodeEvent m node e
    let m := if q.eventNodeListTail ≠ 0 then setNodeNext m q.eventNodeListTail node else m
    (true, { q with eventNodeListTail := node }, m, env)

/-- `begin`: the node its iterator starts at. -/
def begin (q : EventQueue) : UInt64 × EventQueue :=
  (q.eventNodeListHead, { q with eventNodeListHead := 0, eventNodeListTail := 0 })

/-- `dispose`, on the queue that owns the event. -/
def dispose (q : EventQueue) (e : UInt64) (m : Memory) (env : π) : Bool × EventQueue × Memory × π :=
  q.push p e (setEventFlags m e (eventFlags m e ||| eventFlagDisposed)) env

end EventQueue

/-! ## The queues of all threads -/

/-- Where the thread that drains a queue is: not draining, before the increment at a node, or
between the halves of the increment. -/
inductive Drain
  | idle
  | visiting (node : UInt64)
  | disposed (node next : UInt64)
  deriving Repr, DecidableEq

/-- The iterator at a node. A null one is the end, where the drain is over. -/
def Drain.ofNode (node : UInt64) : Drain := if node = 0 then .idle else .visiting node

def Drain.isVisiting : Drain → Bool
  | .visiting _ => true
  | _ => false

def Drain.isDisposed : Drain → Bool
  | .disposed _ _ => true
  | _ => false

/-- The queues and the drains by the addresses of the queues, the memory, and what has been pushed
to and delivered from each queue so far. -/
structure System (π : Type) where
  queues : UInt64 → Option EventQueue
  drains : UInt64 → Drain
  memory : Memory
  env : π
  pushed : UInt64 → List UInt64
  delivered : UInt64 → List UInt64

/-- What is done under one lock. -/
inductive QueueCall
  | push (queue event : UInt64)
  | begin (queue : UInt64)
  | dispose (queue : UInt64)
  | deallocate (queue : UInt64)
  deriving Repr, DecidableEq

namespace System

variable {π : Type} (p : Platform π)

/-- The events of a queue that one more event was pushed to. -/
def append (events : UInt64 → List UInt64) (queue event : UInt64) : UInt64 → List UInt64 :=
  Function.update events queue (events queue ++ [event])

theorem append_self (events : UInt64 → List UInt64) (queue event : UInt64) :
    append events queue event queue = events queue ++ [event] := Function.update_self ..

theorem append_of_ne (events : UInt64 → List UInt64) {queue other : UInt64} (h : other ≠ queue)
    (event : UInt64) : append events queue event other = events other := Function.update_of_ne h ..

/-- A push to the queue at an address. -/
def pushTo (s : System π) (queue e : UInt64) : Option (Bool × System π) := do
  let q ← s.queues queue
  let (ok, q, m, env) := q.push p e s.memory s.env
  some (ok, { s with
    queues := Function.update s.queues queue (some q)
    memory := m
    env := env
    pushed := if ok then append s.pushed queue e else s.pushed })

/-- `begin`. -/
def beginOf (s : System π) (queue : UInt64) : Option (Bool × System π) := do
  let q ← s.queues queue
  let (node, q) := q.begin
  some (decide (node ≠ 0), { s with
    queues := Function.update s.queues queue (some q)
    drains := Function.update s.drains queue (.ofNode node) })

/-- The first half of `increment`: the event, which was delivered, is disposed of. -/
def disposeOf (s : System π) (queue : UInt64) : Option (Bool × System π) :=
  match s.drains queue with
  | .visiting node =>
    let next := nodeNext s.memory node
    let event := nodeEvent s.memory node
    if event = 0 then none
    else do
      let owner := eventOwner s.memory event
      let q ← s.queues owner
      let (ok, q, m, env) := q.dispose p event s.memory s.env
      some (ok, { s with
        queues := Function.update s.queues owner (some q)
        drains := Function.update s.drains queue (.disposed node next)
        memory := m
        env := env
        pushed := if ok then append s.pushed owner event else s.pushed
        delivered := append s.delivered queue event })
  | _ => none

/-- The second half of `increment`: the node is deallocated, and the iterator advances. -/
def deallocateOf (s : System π) (queue : UInt64) : Option (Bool × System π) :=
  match s.drains queue with
  | .disposed node next => do
    let q ← s.queues queue
    let (allocator, m) ← q.allocator.deallocate node s.memory
    some (decide (next ≠ 0), { s with
      queues := Function.update s.queues queue (some { q with allocator := allocator })
      drains := Function.update s.drains queue (.ofNode next)
      memory := m })
  | _ => none

/-- One call: whether a push found a node, or whether an iterator is at an event. -/
def step (s : System π) : QueueCall → Option (Bool × System π)
  | .push queue event => s.pushTo p queue event
  | .begin queue => s.beginOf queue
  | .dispose queue => s.disposeOf p queue
  | .deallocate queue => s.deallocateOf queue

/-- Drains are complete: the last is over when the next begins, and an iterator is incremented only
before its end. -/
def Legal (s : System π) : QueueCall → Prop
  | .push queue _ => (s.queues queue).isSome
  | .begin queue => (s.queues queue).isSome ∧ s.drains queue = .idle
  | .dispose queue => (s.drains queue).isVisiting
  | .deallocate queue => (s.drains queue).isDisposed

instance (s : System π) (call : QueueCall) : Decidable (s.Legal call) :=
  match call with
  | .push queue _ => inferInstanceAs (Decidable ((s.queues queue).isSome = true))
  | .begin queue =>
    inferInstanceAs (Decidable ((s.queues queue).isSome = true ∧ s.drains queue = .idle))
  | .dispose queue => inferInstanceAs (Decidable ((s.drains queue).isVisiting = true))
  | .deallocate queue => inferInstanceAs (Decidable ((s.drains queue).isDisposed = true))

/-- Queues as they are constructed: `nodes` are the nodes of their allocators, all of them free. -/
structure Start (nodes : UInt64 → List UInt64) (s : System π) : Prop where
  head : ∀ a q, s.queues a = some q → q.eventNodeListHead = 0
  tail : ∀ a q, s.queues a = some q → q.eventNodeListTail = 0
  objectSize : ∀ a q, s.queues a = some q → q.allocator.objectSize = eventNodeSize
  free : ∀ a q, s.queues a = some q → q.allocator.FreeList s.memory (nodes a)
  idle : ∀ a, s.drains a = .idle
  pushed : ∀ a, s.pushed a = []
  delivered : ∀ a, s.delivered a = []

/-- The nodes that are queued, in order. -/
def Queued (m : Memory) (q : EventQueue) (nodes : List UInt64) : Prop :=
  Chain (fun node => ofPointer (nodeNext m node)) (ofPointer q.eventNodeListHead) nodes

/-- **Events and nodes are conserved**: of every queue that is not being drained, the events
delivered and then those still queued are the events pushed, in order, and the nodes are free but
those that are queued. -/
def Conserved (nodes : UInt64 → List UInt64) (s : System π) : Prop :=
  ∀ a q, s.queues a = some q → s.drains a = .idle → ∃ queued free,
    Queued s.memory q queued ∧ q.allocator.FreeList s.memory free ∧
      s.delivered a ++ queued.map (nodeEvent s.memory) = s.pushed a ∧
      (free ++ queued).Perm (nodes a)

/-- What a call must keep. -/
def Conserves (nodes : UInt64 → List UInt64) (s : System π) (call : QueueCall) : Prop :=
  ∀ ok s', s.step p call = some (ok, s') → s'.Conserved nodes

/-- **The condition**: a push finds no free node. -/
def FindsNoNode (s : System π) : QueueCall → Prop
  | .push queue _ => ∀ q ∈ s.queues queue, q.allocator.freeNodes = 0
  | _ => True

instance (s : System π) (call : QueueCall) : Decidable (s.FindsNoNode call) :=
  match call with
  | .push queue _ =>
    inferInstanceAs (Decidable (∀ q ∈ s.queues queue, q.allocator.freeNodes = 0))
  | .begin _ => isTrue trivial
  | .dispose _ => isTrue trivial
  | .deallocate _ => isTrue trivial

end System

/-! ## What a push does -/

namespace EventQueue

variable {π : Type} {p : Platform π} {q : EventQueue} {e : UInt64} {m : Memory} {env : π}

/-- A push never sets the head. -/
theorem push_head : (q.push p e m env).2.1.eventNodeListHead = q.eventNodeListHead := by
  unfold push
  dsimp only
  split_ifs with hnode htail
  · rfl
  · rfl
  · rfl

/-- A push that finds no node changes nothing but the exceptions. -/
theorem push_of_empty (hsize : q.allocator.objectSize = eventNodeSize)
    (h : q.allocator.freeNodes = 0) :
    q.push p e m env = (false, q, m, p.pushException .outOfMemory env) := by
  unfold push
  rw [FixedAllocator.allocate_of_empty (UInt64.le_of_eq hsize.symm) h]
  rfl

/-- A push that finds a node succeeds. -/
theorem push_of_ne (p : Platform π) (e : UInt64) (m : Memory) (env : π)
    (hsize : q.allocator.objectSize = eventNodeSize)
    (h : q.allocator.freeNodes ≠ 0) : ∃ q' m', q.push p e m env = (true, q', m', env) := by
  unfold push
  rw [FixedAllocator.allocate_of_ne (UInt64.le_of_eq hsize.symm) h]
  dsimp only
  rw [if_neg h]
  exact ⟨_, _, rfl⟩

/-- An empty queue begins at its end, and stays as it is. -/
theorem begin_of_empty (hhead : q.eventNodeListHead = 0) (htail : q.eventNodeListTail = 0) :
    q.begin = (0, q) := by
  obtain ⟨allocator, head, tail⟩ := q
  obtain rfl : head = 0 := hhead
  obtain rfl : tail = 0 := htail
  rfl

end EventQueue

/-! ## Nothing is delivered -/

namespace System

variable {π : Type} {p : Platform π} {s s' : System π} {nodes : UInt64 → List UInt64}

/-- No queue has a head, so no drain is under way and none has delivered anything. -/
structure Silent (s : System π) : Prop where
  head : ∀ a q, s.queues a = some q → q.eventNodeListHead = 0
  idle : ∀ a, s.drains a = .idle
  delivered : ∀ a, s.delivered a = []

theorem Start.silent (h : s.Start nodes) : s.Silent := ⟨h.head, h.idle, h.delivered⟩

/-- The heads, after one queue has changed. -/
theorem head_update {queue : UInt64} {q' : EventQueue}
    (h : ∀ a q, s.queues a = some q → q.eventNodeListHead = 0)
    (hq' : q'.eventNodeListHead = 0) :
    ∀ a q, Function.update s.queues queue (some q') a = some q → q.eventNodeListHead = 0 := by
  intro a q hq
  by_cases ha : a = queue
  · subst ha
    rw [Function.update_self] at hq
    obtain rfl := Option.some.inj hq
    exact hq'
  · rw [Function.update_of_ne ha] at hq
    exact h a q hq

/-- Where no drain is under way there is nothing to dispose of and nothing to give back. -/
theorem step_of_idle (h : ∀ a, s.drains a = .idle) (queue : UInt64) :
    s.step p (.dispose queue) = none ∧ s.step p (.deallocate queue) = none := by
  constructor
  · rw [System.step, disposeOf, h]
  · rw [System.step, deallocateOf, h]

/-- **No call gives a queue a head or starts a drain**, whatever it pushes. -/
theorem Silent.step (h : s.Silent) {call : QueueCall} {ok : Bool}
    (hstep : s.step p call = some (ok, s')) : s'.Silent := by
  cases call with
  | push queue event =>
    obtain ⟨q, hq, heq⟩ := Option.bind_eq_some_iff.mp hstep
    obtain ⟨-, rfl⟩ := Prod.mk.inj (Option.some.inj heq)
    exact ⟨head_update h.head (EventQueue.push_head.trans (h.head _ _ hq)), h.idle, h.delivered⟩
  | begin queue =>
    obtain ⟨q, hq, heq⟩ := Option.bind_eq_some_iff.mp hstep
    obtain ⟨-, rfl⟩ := Prod.mk.inj (Option.some.inj heq)
    refine ⟨head_update h.head rfl, fun a => ?_, h.delivered⟩
    have hend : Drain.ofNode q.begin.1 = .idle := if_pos (h.head _ _ hq)
    by_cases ha : a = queue
    · subst ha
      exact (Function.update_self ..).trans hend
    · exact (Function.update_of_ne ha ..).trans (h.idle a)
  | dispose queue => exact absurd ((step_of_idle h.idle queue).1.symm.trans hstep) (by simp)
  | deallocate queue => exact absurd ((step_of_idle h.idle queue).2.symm.trans hstep) (by simp)

/-- **No event is ever delivered**: in every run from a start, whatever is pushed. -/
theorem nothing_delivered (hstart : s.Start nodes) (calls : List QueueCall) :
    Along (step p) (fun s _ => ∀ a, s.delivered a = []) s calls :=
  Along.of_invariant Silent (fun _ _ h => h.delivered) (fun _ _ _ _ h hstep => h.step hstep)
    hstart.silent

/-! ## When events and nodes are conserved -/

/-- At the start everything is conserved: nothing is pushed, and every node is free. -/
theorem Start.conserved (h : s.Start nodes) : s.Conserved nodes := by
  intro a q hq _
  refine ⟨[], nodes a, ?_, h.free a q hq, ?_, ?_⟩
  · rw [Queued, h.head a q hq]
    exact .nil
  · rw [h.delivered a, h.pushed a, List.map_nil, List.append_nil]
  · rw [List.append_nil]

/-- The start is about the queues, the memory and what was pushed. -/
theorem Start.of_same (h : s.Start nodes) (hsilent : s'.Silent) (hqueues : s'.queues = s.queues)
    (hmemory : s'.memory = s.memory) (hpushed : s'.pushed = s.pushed) : s'.Start nodes where
  head := hsilent.head
  tail := hqueues ▸ h.tail
  objectSize := hqueues ▸ h.objectSize
  free := by
    rw [hqueues, hmemory]
    exact h.free
  idle := hsilent.idle
  pushed := hpushed ▸ h.pushed
  delivered := hsilent.delivered

/-- **A call that finds no node leaves the queues as they started.** -/
theorem Start.step (h : s.Start nodes) {call : QueueCall} (hcall : s.FindsNoNode call) {ok : Bool}
    (hstep : s.step p call = some (ok, s')) : s'.Start nodes := by
  have hsilent := h.silent.step hstep
  cases call with
  | push queue event =>
    obtain ⟨q, hq, heq⟩ := Option.bind_eq_some_iff.mp hstep
    rw [EventQueue.push_of_empty (h.objectSize _ _ hq) (hcall q hq)] at heq
    obtain ⟨-, rfl⟩ := Prod.mk.inj (Option.some.inj heq)
    refine h.of_same hsilent ?_ rfl rfl
    rw [← hq]
    exact Function.update_eq_self queue s.queues
  | begin queue =>
    obtain ⟨q, hq, heq⟩ := Option.bind_eq_some_iff.mp hstep
    rw [EventQueue.begin_of_empty (h.head _ _ hq) (h.tail _ _ hq)] at heq
    obtain ⟨-, rfl⟩ := Prod.mk.inj (Option.some.inj heq)
    refine h.of_same hsilent ?_ rfl rfl
    rw [← hq]
    exact Function.update_eq_self queue s.queues
  | dispose queue => exact absurd ((step_of_idle h.idle queue).1.symm.trans hstep) (by simp)
  | deallocate queue => exact absurd ((step_of_idle h.idle queue).2.symm.trans hstep) (by simp)

/-- A queue that has been pushed to and has neither a head nor delivered anything lost an event. -/
theorem Silent.pushed_eq_nil (h : s.Silent) (hconserved : s.Conserved nodes) {a : UInt64}
    {q : EventQueue} (hq : s.queues a = some q) : s.pushed a = [] := by
  obtain ⟨queued, free, hqueued, -, hevents, -⟩ := hconserved a q hq (h.idle a)
  rw [Queued, h.head a q hq] at hqueued
  obtain rfl := Chain.none_iff.mp hqueued
  rw [← hevents, h.delivered a, List.map_nil, List.append_nil]

/-- **A push that finds a node loses its event.** -/
theorem Start.not_conserves (h : s.Start nodes) {queue event : UInt64} {q : EventQueue}
    (hq : s.queues queue = some q) (hnode : q.allocator.freeNodes ≠ 0) :
    ¬ s.Conserves p nodes (.push queue event) := by
  intro hconserves
  obtain ⟨q', m', hpush⟩ := EventQueue.push_of_ne p event s.memory s.env (h.objectSize _ _ hq) hnode
  have hstep : s.step p (.push queue event) = some (true, { s with
      queues := Function.update s.queues queue (some q')
      memory := m'
      pushed := append s.pushed queue event }) := by
    rw [System.step, pushTo, hq, Option.bind_eq_bind, Option.bind_some, hpush]
    rfl
  have hnil := (h.silent.step hstep).pushed_eq_nil (hconserves _ _ hstep) (Function.update_self ..)
  exact absurd ((append_self s.pushed queue event).symm.trans hnil) (by simp)

theorem conserves_iff_findsNoNode (h : s.Start nodes) (call : QueueCall) :
    s.Conserves p nodes call ↔ s.FindsNoNode call := by
  constructor
  · intro hconserves
    cases call with
    | push queue event =>
      intro q hq
      by_contra hnode
      exact h.not_conserves hq hnode hconserves
    | begin queue => trivial
    | dispose queue => trivial
    | deallocate queue => trivial
  · intro hcall ok s' hstep
    exact (h.step hcall hstep).conserved

/-- **In every run, events and nodes are conserved iff no push finds a free node.** -/
theorem conserved_iff (nodes : UInt64 → List UInt64) (s : System π) (hstart : s.Start nodes)
    (calls : List QueueCall) (hlegal : Along (step p) Legal s calls) :
    Along (step p) (fun s => s.Conserves p nodes) s calls ↔
      Along (step p) FindsNoNode s calls :=
  along_congr (fun s => s.Start nodes) (fun _ call h _ => conserves_iff_findsNoNode h call)
    (fun _ _ _ _ h _ hcall hstep => h.step hcall hstep) hstart hlegal

/-- A memory with the owner of an event in it, and nothing else. -/
def ownedEvent (event owner : UInt64) : Memory :=
  Memory.store64 (fun _ => 0) (event.toNat + 8) owner

/-- One queue, newly constructed, whose free nodes start at an address. -/
def oneQueue (queue freeNodes : UInt64) (m : Memory) : System Unit where
  queues a := if a = queue then some ⟨⟨freeNodes, eventNodeSize⟩, 0, 0⟩ else none
  drains _ := .idle
  memory := m
  env := ()
  pushed _ := []
  delivered _ := []

theorem start_oneQueue (queue : UInt64) {freeNodes : UInt64} {m : Memory} {nodes : List UInt64}
    (h : FixedAllocator.FreeList m ⟨freeNodes, eventNodeSize⟩ nodes) :
    (oneQueue queue freeNodes m).Start fun _ => nodes := by
  have hone : ∀ a q, (oneQueue queue freeNodes m).queues a = some q →
      q = ⟨⟨freeNodes, eventNodeSize⟩, 0, 0⟩ := by
    intro a q hq
    unfold oneQueue at hq
    dsimp only at hq
    split_ifs at hq
    exact (Option.some.inj hq).symm
  constructor
  · exact fun a q hq => hone a q hq ▸ rfl
  · exact fun a q hq => hone a q hq ▸ rfl
  · exact fun a q hq => hone a q hq ▸ rfl
  · exact fun a q hq => hone a q hq ▸ h
  · exact fun _ => rfl
  · exact fun _ => rfl
  · exact fun _ => rfl

/-- A queue without nodes conserves what it does not take. -/
theorem conserved_iff_without_nodes : Along (step Platform.granting)
    (fun s => s.Conserves Platform.granting fun _ => [])
    (oneQueue 0x1000 0 (ownedEvent 0x3000 0x1000)) [.push 0x1000 0x3000, .begin 0x1000] := by
  have hnodes : FixedAllocator.FreeList (ownedEvent 0x3000 0x1000) ⟨0, eventNodeSize⟩ [] := .nil
  exact (conserved_iff _ _ (start_oneQueue 0x1000 hnodes) _ (by decide)).mpr (by decide)

/-- **An event is lost**: one is pushed to a queue that has a node for it, and the queue is drained
without it. -/
theorem not_conserved : ¬ ∀ (p : Platform Unit) (nodes : UInt64 → List UInt64) (s : System Unit)
    (calls : List QueueCall), s.Start nodes → Along (step p) Legal s calls →
      Along (step p) (fun s => s.Conserves p nodes) s calls := by
  intro hall
  have hnodes : FixedAllocator.FreeList (ownedEvent 0x3000 0x1000) ⟨0x2000, eventNodeSize⟩
      [0x2000] := .cons .nil
  have h := hall Platform.granting _ _ [.push 0x1000 0x3000, .begin 0x1000]
    (start_oneQueue 0x1000 hnodes) (by decide)
  obtain ⟨queued, free, hqueued, -, hevents, -⟩ := (h.2 _ _ rfl).1 _ _ rfl 0x1000 _ rfl rfl
  obtain rfl := Chain.none_iff.mp hqueued
  exact absurd hevents (by decide)

end System

end Hologine.Threading
