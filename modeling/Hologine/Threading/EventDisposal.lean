import Hologine.Memory.FixedBlocks
import Hologine.Threading.EventQueue
import Mathlib.Data.List.Nodup

/-!
# Handing events back

What the increment of an event queue's iterator (`core/threading/event_queue.cpp:29-44`) does to the
events of a chain of nodes, from the first node to the end. The chain is any, as `push` never makes
one that `begin` finds. Between the halves of an increment other threads push other events.

`increment` disposes of every event it passes, and so pushes it to the queue of its owner. It never
asks for `event_flag_disposed`, which `dispose` sets: the owner that collects the event pushes it to
its own queue again.

Results:
* `Layout.push`, `Layout.flag`, `Layout.deallocate`: what each half keeps of the chain, the free
  nodes and the events.
* `Walk.step`: what is pushed and what is still to be visited are together what there was.
* `handsBack_iff`: the events that are not disposed of are handed back once, and no others, **iff**
  no event of the chain is disposed of and none is on it twice.
-/

namespace Hologine.Threading

open Hologine.Library Hologine.Library.Run Hologine.Memory

/-! ## Nodes and headers -/

/-- The event has been processed by the thread it was sent to. -/
def Disposed (m : Memory) (event : UInt64) : Prop := eventFlags m event &&& eventFlagDisposed ≠ 0

instance (m : Memory) (event : UInt64) : Decidable (Disposed m event) :=
  inferInstanceAs (Decidable (_ ≠ _))

theorem and_eventFlagDisposed_ne_zero (flags : UInt32) :
    (flags ||| eventFlagDisposed) &&& eventFlagDisposed ≠ 0 := by
  rw [ne_eq, ← UInt32.toNat_inj, UInt32.toNat_and, UInt32.toNat_or,
    show eventFlagDisposed.toNat = 1 from rfl, Nat.and_one_is_mod]
  simp

/-- Two objects of 16 bytes do not overlap. -/
def Apart (a b : UInt64) : Prop := a.toNat + 16 ≤ b.toNat ∨ b.toNat + 16 ≤ a.toNat

/-- The nodes of all queues and the headers of all events, each of 16 bytes, of which no two
overlap. -/
structure EventObjects where
  nodes : Set UInt64
  events : Set UInt64
  disjoint : ∀ a ∈ nodes, a ∉ events
  nonnull : ∀ a, a ∈ nodes ∨ a ∈ events → a ≠ 0
  apart : ∀ a b, a ∈ nodes ∨ a ∈ events → b ∈ nodes ∨ b ∈ events → a ≠ b → Apart a b

/-- The bytes of a node or a header are as they were. -/
def Keeps (m m' : Memory) (a : UInt64) : Prop :=
  ∀ x, a.toNat ≤ x → x < a.toNat + 16 → m' x = m x

namespace Keeps

variable {m m' m'' : Memory} {a b : UInt64}

theorem refl (m : Memory) (a : UInt64) : Keeps m m a := fun _ _ _ => rfl

theorem trans (h : Keeps m m' a) (h' : Keeps m' m'' a) : Keeps m m'' a :=
  fun x hx hx' => (h' x hx hx').trans (h x hx hx')

theorem nodeNext_eq (h : Keeps m m' a) : nodeNext m' a = nodeNext m a :=
  Memory.load64_congr fun x hx hx' => h x hx (by omega)

theorem nodeEvent_eq (h : Keeps m m' a) : nodeEvent m' a = nodeEvent m a :=
  Memory.load64_congr fun x hx hx' => h x (by omega) (by omega)

theorem eventOwner_eq (h : Keeps m m' a) : eventOwner m' a = eventOwner m a :=
  Memory.load64_congr fun x hx hx' => h x (by omega) (by omega)

theorem eventFlags_eq (h : Keeps m m' a) : eventFlags m' a = eventFlags m a :=
  congrArg UInt32.ofNat (Memory.load_congr fun x hx hx' => h x (by omega) (by omega))

/-- The words of another node can be set. -/
theorem setNodeNext (h : Apart a b) (next : UInt64) :
    Keeps m (setNodeNext m b next) a :=
  fun _ _ _ => Memory.store64_apply_of_outside (by unfold Apart at h; omega)

theorem setNodeEvent (h : Apart a b) (event : UInt64) :
    Keeps m (setNodeEvent m b event) a :=
  fun _ _ _ => Memory.store64_apply_of_outside (by unfold Apart at h; omega)

/-- The links of nodes that are kept. -/
theorem chain {nodes : List UInt64} {head : Option UInt64}
    (h : Chain (fun node => ofPointer (nodeNext m node)) head nodes)
    (hkeeps : ∀ node ∈ nodes, Keeps m m' node) :
    Chain (fun node => ofPointer (nodeNext m' node)) head nodes :=
  h.congr fun node hnode => congrArg ofPointer (hkeeps node hnode).nodeNext_eq

end Keeps

/-! ## The queues of all threads -/

/-- **What lasts while a chain is drained**: the nodes that are held by the drain, the free nodes of
each queue and the tails are different nodes, and the owners of the events are queues. -/
structure Layout (o : EventObjects) (held : List UInt64) (free : UInt64 → List UInt64)
    (queues : UInt64 → Option EventQueue) (m : Memory) : Prop where
  held_mem : ∀ node ∈ held, node ∈ o.nodes
  held_nodup : held.Nodup
  held_event : ∀ node ∈ held, nodeEvent m node ∈ o.events
  free_mem : ∀ a, ∀ node ∈ free a, node ∈ o.nodes ∧ node ∉ held
  free_disjoint : ∀ a b, ∀ node ∈ free a, node ∈ free b → a = b
  freeList : ∀ a q, queues a = some q → q.allocator.FreeList m (free a)
  objectSize : ∀ a q, queues a = some q → q.allocator.objectSize = eventNodeSize
  tail : ∀ a q, queues a = some q → q.eventNodeListTail ≠ 0 →
    q.eventNodeListTail ∈ o.nodes ∧ q.eventNodeListTail ∉ held ∧
      ∀ b, q.eventNodeListTail ∉ free b
  owned : ∀ e ∈ o.events, (queues (eventOwner m e)).isSome

variable {π : Type} {o : EventObjects} {held : List UInt64} {free : UInt64 → List UInt64}
  {queues : UInt64 → Option EventQueue} {m m' : Memory} {queue a e : UInt64} {q : EventQueue}

/-- The layout is about the nodes and the owners of the events. -/
theorem Layout.congr (h : Layout o held free queues m) (hnodes : ∀ b ∈ o.nodes, Keeps m m' b)
    (howner : ∀ b ∈ o.events, eventOwner m' b = eventOwner m b) :
    Layout o held free queues m' where
  held_mem := h.held_mem
  held_nodup := h.held_nodup
  held_event := fun node hnode => by
    rw [(hnodes node (h.held_mem node hnode)).nodeEvent_eq]
    exact h.held_event node hnode
  free_mem := h.free_mem
  free_disjoint := h.free_disjoint
  freeList := fun b q hq => (h.freeList b q hq).congr fun node hnode x hx hx' =>
    (hnodes node (h.free_mem b node hnode).1 x hx (by omega)).symm
  objectSize := h.objectSize
  tail := h.tail
  owned := fun b hb => by
    rw [howner b hb]
    exact h.owned b hb

/-- **Flagging an event** changes the flags in its header. -/
theorem Layout.flag (h : Layout o held free queues m) (he : e ∈ o.events) (flags : UInt32) :
    Layout o held free queues (setEventFlags m e flags) ∧
      (∀ b ∈ o.nodes, Keeps m (setEventFlags m e flags) b) ∧
      (∀ b ∈ o.events, b ≠ e → Keeps m (setEventFlags m e flags) b) ∧
      eventOwner (setEventFlags m e flags) e = eventOwner m e ∧
      eventFlags (setEventFlags m e flags) e = flags := by
  have hkeeps : ∀ b, b ∈ o.nodes ∨ b ∈ o.events → b ≠ e → Keeps m (setEventFlags m e flags) b := by
    intro b hb hne x hx hx'
    have hapart := o.apart b e hb (.inr he) hne
    unfold Apart at hapart
    exact Memory.store32_apply_of_outside (by omega)
  have hnodes : ∀ b ∈ o.nodes, Keeps m (setEventFlags m e flags) b := fun b hb =>
    hkeeps b (.inl hb) fun heq => o.disjoint b hb (heq ▸ he)
  have howner : eventOwner (setEventFlags m e flags) e = eventOwner m e :=
    Memory.load64_congr fun x hx _ => Memory.store32_apply_of_outside (by omega)
  refine ⟨h.congr hnodes fun b hb => ?_, hnodes, fun b hb hne => hkeeps b (.inr hb) hne, howner,
    Memory.load32_store32 m _ flags⟩
  by_cases hbe : b = e
  · rw [hbe]
    exact howner
  · exact (hkeeps b (.inr hb) hbe).eventOwner_eq

/-- **What a push writes**: the node that it takes, and the link of the tail. -/
theorem push_keeps (p : Platform π) (e : UInt64) (m : Memory) (env : π)
    (hsize : q.allocator.objectSize = eventNodeSize) (hfree : q.allocator.freeNodes ≠ 0) :
    ∃ q' m', q.push p e m env = (true, q', m', env) ∧
      q'.allocator.freeNodes = FixedAllocator.nextFreeNode m q.allocator.freeNodes ∧
      q'.allocator.objectSize = q.allocator.objectSize ∧
      q'.eventNodeListTail = q.allocator.freeNodes ∧
      ∀ b : UInt64, Apart b q.allocator.freeNodes →
        (q.eventNodeListTail ≠ 0 → Apart b q.eventNodeListTail) → Keeps m m' b := by
  unfold EventQueue.push
  rw [FixedAllocator.allocate_of_ne (UInt64.le_of_eq hsize.symm) hfree]
  dsimp only
  rw [if_neg hfree]
  refine ⟨_, _, rfl, rfl, rfl, rfl, fun b hb htail => ?_⟩
  have hconstruct : Keeps m (constructNode m q.allocator.freeNodes) b :=
    (Keeps.setNodeNext hb 0).trans (Keeps.setNodeEvent hb 0)
  have hnode := hconstruct.trans ((Keeps.setNodeNext hb 0).trans (Keeps.setNodeEvent hb e))
  split_ifs with htailed
  · exact hnode.trans (Keeps.setNodeNext (htail htailed) _)
  · exact hnode

/-- The first free node of a queue and the others. -/
theorem Layout.free_cons (h : Layout o held free queues m) (hq : queues a = some q)
    (hfree : q.allocator.freeNodes ≠ 0) : ∃ rest, free a = q.allocator.freeNodes :: rest ∧
      q.allocator.freeNodes ∉ rest ∧
      Chain (fun node => ofPointer (FixedAllocator.nextFreeNode m node))
        (ofPointer (FixedAllocator.nextFreeNode m q.allocator.freeNodes)) rest := by
  have hlist := h.freeList a q hq
  have hnodup := Chain.nodup hlist
  rw [FixedAllocator.FreeList, ofPointer_eq_some.mpr ⟨rfl, hfree⟩] at hlist
  obtain ⟨rest, heq, hrest⟩ := Chain.some_iff.mp hlist
  rw [heq] at hnodup
  exact ⟨rest, heq, (List.nodup_cons.mp hnodup).1, hrest⟩

/-- A property of the queues, after one has changed. -/
theorem forall_update {P : UInt64 → EventQueue → Prop} {q' : EventQueue} (hq' : P a q')
    (h : ∀ c q, queues c = some q → c ≠ a → P c q) :
    ∀ c q, Function.update queues a (some q') c = some q → P c q := by
  intro c q hq
  by_cases hc : c = a
  · rw [hc, Function.update_self] at hq
    rw [hc, ← Option.some.inj hq]
    exact hq'
  · rw [Function.update_of_ne hc] at hq
    exact h c q hq hc

theorem isSome_update {b : UInt64} (h : (queues b).isSome) (q' : EventQueue) :
    (Function.update queues a (some q') b).isSome := by
  by_cases hb : b = a
  · rw [hb, Function.update_self]
    rfl
  · rw [Function.update_of_ne hb]
    exact h

theorem isSome_of_update (ha : (queues a).isSome) {q' : EventQueue} {b : UInt64}
    (h : (Function.update queues a (some q') b).isSome) : (queues b).isSome := by
  by_cases hb : b = a
  · rwa [hb]
  · rwa [Function.update_of_ne hb] at h

/-- **A push to a queue that has a free node** takes the first, and leaves the nodes of the chain
and the events as they are. -/
theorem Layout.push (h : Layout o held free queues m) (hq : queues a = some q)
    (hfree : q.allocator.freeNodes ≠ 0) (p : Platform π) (e : UInt64) (env : π) :
    ∃ q' m' free', q.push p e m env = (true, q', m', env) ∧
      Layout o held free' (Function.update queues a (some q')) m' ∧
      (∀ b ∈ held, Keeps m m' b) ∧ ∀ b ∈ o.events, Keeps m m' b := by
  obtain ⟨rest, hcons, hnotMem, hrest⟩ := h.free_cons hq hfree
  obtain ⟨q', m', hpush, hfree', hsize', htail', hkeeps⟩ :=
    push_keeps p e m env (h.objectSize a q hq) hfree
  have hfirst : q.allocator.freeNodes ∈ free a := hcons ▸ List.mem_cons_self
  obtain ⟨hnode, hheld⟩ := h.free_mem a _ hfirst
  -- what is not the node or the tail is kept
  have hkept (b : UInt64) (hb : b ∈ o.nodes ∨ b ∈ o.events) (hne : b ≠ q.allocator.freeNodes)
      (htail : q.eventNodeListTail ≠ 0 → b ≠ q.eventNodeListTail) : Keeps m m' b :=
    hkeeps b (o.apart b _ hb (.inl hnode) hne) fun h0 =>
      o.apart b _ hb (.inl (h.tail a q hq h0).1) (htail h0)
  have hheldKept : ∀ b ∈ held, Keeps m m' b := fun b hb =>
    hkept b (.inl (h.held_mem b hb)) (fun heq => hheld (heq ▸ hb))
      fun h0 heq => (h.tail a q hq h0).2.1 (heq ▸ hb)
  have heventKept : ∀ b ∈ o.events, Keeps m m' b := fun b hb =>
    hkept b (.inr hb) (fun heq => o.disjoint _ hnode (heq ▸ hb))
      fun h0 heq => o.disjoint _ (h.tail a q hq h0).1 (heq ▸ hb)
  have hfewer (c x : UInt64) (hx : x ∈ Function.update free a rest c) :
      x ∈ free c ∧ x ≠ q.allocator.freeNodes := by
    by_cases hc : c = a
    · rw [hc, Function.update_self] at hx
      exact ⟨by rw [hc, hcons]; exact List.mem_cons_of_mem _ hx, fun heq => hnotMem (heq ▸ hx)⟩
    · rw [Function.update_of_ne hc] at hx
      exact ⟨hx, fun heq => hc (h.free_disjoint c a x hx (heq ▸ hfirst))⟩
  have hfreeKept (c x : UInt64) (hx : x ∈ Function.update free a rest c) : Keeps m m' x :=
    hkept x (.inl (h.free_mem c x (hfewer c x hx).1).1) (hfewer c x hx).2
      fun h0 heq => (h.tail a q hq h0).2.2 c (heq ▸ (hfewer c x hx).1)
  refine ⟨q', m', Function.update free a rest, hpush, ?_, hheldKept, heventKept⟩
  constructor
  case held_mem => exact h.held_mem
  case held_nodup => exact h.held_nodup
  case held_event =>
    intro node hnode
    rw [(hheldKept node hnode).nodeEvent_eq]
    exact h.held_event node hnode
  case free_mem => exact fun c x hx => h.free_mem c x (hfewer c x hx).1
  case free_disjoint =>
    exact fun c d x hx hx' => h.free_disjoint c d x (hfewer c x hx).1 (hfewer d x hx').1
  case freeList =>
    refine forall_update ?_ fun c r hr hc => ?_
    · rw [FixedAllocator.FreeList, Function.update_self, hfree']
      exact Chain.congr hrest fun x hx => congrArg ofPointer
        (hfreeKept a x (by rw [Function.update_self]; exact hx)).nodeNext_eq
    · rw [Function.update_of_ne hc]
      exact Chain.congr (h.freeList c r hr) fun x hx => congrArg ofPointer
        (hfreeKept c x (by rw [Function.update_of_ne hc]; exact hx)).nodeNext_eq
  case objectSize =>
    exact forall_update (hsize'.trans (h.objectSize a q hq)) fun c r hr _ => h.objectSize c r hr
  case tail =>
    refine forall_update (fun _ => ?_) fun c r hr _ h0 => ?_
    · rw [htail']
      exact ⟨hnode, hheld, fun c hx => (hfewer c _ hx).2 rfl⟩
    · obtain ⟨hmem, hnotHeld, hnotFree⟩ := h.tail c r hr h0
      exact ⟨hmem, hnotHeld, fun d hx => hnotFree d (hfewer d _ hx).1⟩
  case owned =>
    intro b hb
    rw [(heventKept b hb).eventOwner_eq]
    exact isSome_update (h.owned b hb) q'

/-- **Freeing the node that a drain has passed** makes it the first free node of the queue, and
leaves the rest of the chain and the events as they are. -/
theorem Layout.deallocate {node : UInt64} (h : Layout o (node :: held) free queues m)
    (hq : queues a = some q) : ∃ allocator m' free',
      q.allocator.deallocate node m = some (allocator, m') ∧
      Layout o held free' (Function.update queues a (some { q with allocator := allocator })) m' ∧
      (∀ b ∈ held, Keeps m m' b) ∧ ∀ b ∈ o.events, Keeps m m' b := by
  have hnode : node ∈ o.nodes := h.held_mem node List.mem_cons_self
  have hnull : node ≠ 0 := o.nonnull node (.inl hnode)
  obtain ⟨hnotMem, hnodup⟩ := List.nodup_cons.mp h.held_nodup
  have hkept (b : UInt64) (hb : b ∈ o.nodes ∨ b ∈ o.events) (hne : b ≠ node) :
      Keeps m (m.store64 node.toNat q.allocator.freeNodes) b :=
    Keeps.setNodeNext (o.apart b node hb (.inl hnode) hne) _
  have hheldKept : ∀ b ∈ held, Keeps m (m.store64 node.toNat q.allocator.freeNodes) b :=
    fun b hb => hkept b (.inl (h.held_mem b (List.mem_cons_of_mem _ hb)))
      fun heq => hnotMem (heq ▸ hb)
  have heventKept : ∀ b ∈ o.events, Keeps m (m.store64 node.toNat q.allocator.freeNodes) b :=
    fun b hb => hkept b (.inr hb) fun heq => o.disjoint node hnode (heq ▸ hb)
  have hnotFree (c : UInt64) : node ∉ free c := fun hx =>
    (h.free_mem c node hx).2 List.mem_cons_self
  have hmore (c x : UInt64) (hx : x ∈ Function.update free a (node :: free a) c) :
      x ∈ free c ∨ (c = a ∧ x = node) := by
    by_cases hc : c = a
    · rw [hc, Function.update_self] at hx
      rcases List.mem_cons.mp hx with rfl | hx'
      · exact .inr ⟨hc, rfl⟩
      · exact .inl (hc ▸ hx')
    · rw [Function.update_of_ne hc] at hx
      exact .inl hx
  have hfreeKept (c x : UInt64) (hx : x ∈ free c) :
      Keeps m (m.store64 node.toNat q.allocator.freeNodes) x :=
    hkept x (.inl (h.free_mem c x hx).1) fun heq => hnotFree c (heq ▸ hx)
  refine ⟨_, _, Function.update free a (node :: free a), if_neg hnull, ?_, hheldKept, heventKept⟩
  constructor
  case held_mem => exact fun b hb => h.held_mem b (List.mem_cons_of_mem _ hb)
  case held_nodup => exact hnodup
  case held_event =>
    intro b hb
    rw [(hheldKept b hb).nodeEvent_eq]
    exact h.held_event b (List.mem_cons_of_mem _ hb)
  case free_mem =>
    intro c x hx
    rcases hmore c x hx with hx' | ⟨-, rfl⟩
    · obtain ⟨hmem, hnotHeld⟩ := h.free_mem c x hx'
      exact ⟨hmem, fun hheld => hnotHeld (List.mem_cons_of_mem _ hheld)⟩
    · exact ⟨hnode, hnotMem⟩
  case free_disjoint =>
    intro c d x hx hx'
    rcases hmore c x hx with hc | ⟨rfl, rfl⟩ <;> rcases hmore d x hx' with hd | ⟨hd, hd'⟩
    · exact h.free_disjoint c d x hc hd
    · exact absurd (hd' ▸ hc) (hnotFree c)
    · exact absurd hd (hnotFree d)
    · exact hd.symm
  case freeList =>
    refine forall_update ?_ fun c r hr hc => ?_
    · rw [Function.update_self]
      refine FixedAllocator.FreeList.push (h.freeList a q hq) hnull fun b hb => ?_
      have hapart := o.apart b node (.inl (h.free_mem a b hb).1) (.inl hnode) fun heq =>
        hnotFree a (heq ▸ hb)
      unfold Apart at hapart
      omega
    · rw [Function.update_of_ne hc]
      exact Chain.congr (h.freeList c r hr) fun x hx =>
        congrArg ofPointer (hfreeKept c x hx).nodeNext_eq
  case objectSize =>
    exact forall_update (h.objectSize a q hq) fun c r hr _ => h.objectSize c r hr
  case tail =>
    have htail (c : UInt64) (r : EventQueue) (hr : queues c = some r)
        (h0 : r.eventNodeListTail ≠ 0) : r.eventNodeListTail ∈ o.nodes ∧
          r.eventNodeListTail ∉ held ∧
            ∀ b, r.eventNodeListTail ∉ Function.update free a (node :: free a) b := by
      obtain ⟨hmem, hnotHeld, hnotFree⟩ := h.tail c r hr h0
      refine ⟨hmem, fun hheld => hnotHeld (List.mem_cons_of_mem _ hheld), fun b hx => ?_⟩
      rcases hmore b _ hx with hb | ⟨-, hb⟩
      · exact hnotFree b hb
      · exact hnotHeld (hb ▸ List.mem_cons_self)
    exact forall_update (htail a q hq) fun c r hr _ => htail c r hr
  case owned =>
    intro b hb
    rw [(heventKept b hb).eventOwner_eq]
    exact isSome_update (h.owned b hb) _

/-! ## Draining a chain -/

/-- Where a drain is in its chain: the nodes it holds, and of these the ones it has yet to dispose
of. -/
def At (m : Memory) : Drain → List UInt64 → List UInt64 → Prop
  | .idle, held, left => held = [] ∧ left = []
  | .visiting node, held, left =>
    held = left ∧ Chain (fun node => ofPointer (nodeNext m node)) (some node) left
  | .disposed node next, held, left =>
    held = node :: left ∧ Chain (fun node => ofPointer (nodeNext m node)) (ofPointer next) left

variable {left nodes events : List UInt64}

/-- A drain at a node that is not freed has yet to dispose of all the nodes it holds. -/
theorem at_ofNode {node : UInt64}
    (h : Chain (fun node => ofPointer (nodeNext m node)) (ofPointer node) left) :
    At m (.ofNode node) left left := by
  unfold Drain.ofNode
  split_ifs with hnull
  · obtain rfl : left = [] := Chain.none_iff.mp (by rwa [hnull] at h)
    exact ⟨rfl, rfl⟩
  · rw [ofPointer_eq_some.mpr ⟨rfl, hnull⟩] at h
    exact ⟨rfl, h⟩

theorem At.subset {d : Drain} (h : At m d held left) : ∀ node ∈ left, node ∈ held := by
  intro node hnode
  cases d with
  | idle => exact h.1.trans h.2.symm ▸ hnode
  | visiting _ => exact h.1 ▸ hnode
  | disposed _ _ =>
    rw [h.1]
    exact List.mem_cons_of_mem _ hnode

/-- A drain stays where it is in a memory that keeps the nodes it holds. -/
theorem At.congr {d : Drain} (h : At m d held left) (hkeeps : ∀ b ∈ held, Keeps m m' b) :
    At m' d held left := by
  have hleft : ∀ b ∈ left, Keeps m m' b := fun b hb => hkeeps b (h.subset b hb)
  cases d with
  | idle => exact h
  | visiting _ => exact ⟨h.1, Keeps.chain h.2 hleft⟩
  | disposed _ _ => exact ⟨h.1, Keeps.chain h.2 hleft⟩

/-- The events of nodes that are kept. -/
theorem map_nodeEvent (hkeeps : ∀ b ∈ nodes, Keeps m m' b) :
    nodes.map (nodeEvent m') = nodes.map (nodeEvent m) :=
  List.map_congr_left fun b hb => (hkeeps b hb).nodeEvent_eq

namespace System

variable {p : Platform π} {s s₀ s' : System π} {call : QueueCall}

/-- The queue that the event under the drain goes back to has a free node. -/
def HasRoom (s : System π) (queue : UInt64) : Prop :=
  match s.drains queue with
  | .visiting node => ∀ q ∈ s.queues (eventOwner s.memory (nodeEvent s.memory node)),
      q.allocator.freeNodes ≠ 0
  | _ => True

instance (s : System π) (queue : UInt64) : Decidable (s.HasRoom queue) := by
  unfold HasRoom
  split <;> infer_instance

/-- The calls of a drain: the halves of the increments, where the owners have room, and between them
pushes of other events by other threads. -/
def Drains (queue : UInt64) (events : List UInt64) (s : System π) : QueueCall → Prop
  | .push a e => (s.queues a).isSome ∧ e ∉ events
  | .begin _ => False
  | .dispose a => a = queue ∧ (s.drains queue).isVisiting ∧ s.HasRoom queue
  | .deallocate a => a = queue ∧ (s.drains queue).isDisposed

instance (queue : UInt64) (events : List UInt64) (s : System π) (call : QueueCall) :
    Decidable (s.Drains queue events call) :=
  match call with
  | .push a e => inferInstanceAs (Decidable ((s.queues a).isSome = true ∧ e ∉ events))
  | .begin _ => isFalse id
  | .dispose a => inferInstanceAs
      (Decidable (a = queue ∧ (s.drains queue).isVisiting = true ∧ s.HasRoom queue))
  | .deallocate a =>
    inferInstanceAs (Decidable (a = queue ∧ (s.drains queue).isDisposed = true))

/-- **What lasts while a drain goes on**, since it started in the state `s₀`: what has been pushed
and what it has yet to dispose of are together the events of the chain, and what it has disposed of
is flagged. -/
structure Walk (o : EventObjects) (queue : UInt64) (events : List UInt64) (s₀ : System π)
    (held left : List UInt64) (free : UInt64 → List UInt64) (s : System π) : Prop where
  layout : Layout o held free s.queues s.memory
  queue_isSome : (s.queues queue).isSome
  drain : At s.memory (s.drains queue) held left
  owner : ∀ e ∈ o.events, eventOwner s.memory e = eventOwner s₀.memory e
  pushed : ∀ e ∈ events, ∀ a, (s.pushed a).count e +
      (if a = eventOwner s₀.memory e then (left.map (nodeEvent s.memory)).count e else 0) =
    (s₀.pushed a).count e + (if a = eventOwner s₀.memory e then events.count e else 0)
  flagged : ∀ e ∈ events, e ∈ left.map (nodeEvent s.memory) ∨ Disposed s.memory e

/-- What one more event does to the counts. -/
theorem count_append (pushed : UInt64 → List UInt64) (a e b e' : UInt64) :
    (append pushed a e b).count e' = (pushed b).count e' + if b = a ∧ e' = e then 1 else 0 := by
  by_cases hb : b = a
  · rw [append, hb, Function.update_self, List.count_append]
    by_cases he : e' = e
    · rw [he, List.count_singleton_self, if_pos ⟨rfl, rfl⟩]
    · rw [List.count_singleton, if_neg (by simpa using fun heq : e = e' => he heq.symm),
        if_neg fun h => he h.2]
  · rw [append, Function.update_of_ne hb, if_neg fun h => hb h.1, Nat.add_zero]

/-- **A push by another thread.** -/
theorem Walk.pushTo (h : Walk o queue events s₀ held left free s) (ha : (s.queues a).isSome)
    (he : e ∉ events) (hevents : ∀ b ∈ events, b ∈ o.events) :
    ∃ ok s' free', s.step p (.push a e) = some (ok, s') ∧
      Walk o queue events s₀ held left free' s' := by
  obtain ⟨q, hq⟩ := Option.isSome_iff_exists.mp ha
  by_cases hfree : q.allocator.freeNodes = 0
  · -- there is no node for the event
    have hpush : q.push p e s.memory s.env =
        (false, q, s.memory, p.pushException .outOfMemory s.env) :=
      EventQueue.push_of_empty (h.layout.objectSize a q hq) hfree
    have hqueues : Function.update s.queues a (some q) = s.queues := by
      rw [← hq]
      exact Function.update_eq_self a s.queues
    refine ⟨false, { s with env := p.pushException .outOfMemory s.env }, free, ?_, ?_⟩
    · rw [System.step, System.pushTo, hq, Option.bind_eq_bind, Option.bind_some, hpush]
      dsimp only
      rw [hqueues]
      rfl
    · exact ⟨h.layout, h.queue_isSome, h.drain, h.owner, h.pushed, h.flagged⟩
  · obtain ⟨q', m', free', hpush, hlayout, hheld, hevent⟩ := h.layout.push hq hfree p e s.env
    have hleft : left.map (nodeEvent m') = left.map (nodeEvent s.memory) :=
      map_nodeEvent fun b hb => hheld b (h.drain.subset b hb)
    refine ⟨true, { s with
      queues := Function.update s.queues a (some q')
      memory := m'
      pushed := append s.pushed a e }, free', ?_, hlayout, isSome_update h.queue_isSome q',
      h.drain.congr hheld, fun b hb => ?_, fun b hb c => ?_, fun b hb => ?_⟩
    · rw [System.step, System.pushTo, hq, Option.bind_eq_bind, Option.bind_some, hpush]
      rfl
    · rw [(hevent b hb).eventOwner_eq]
      exact h.owner b hb
    · rw [count_append, if_neg fun heq : c = a ∧ b = e => he (heq.2 ▸ hb), Nat.add_zero, hleft]
      exact h.pushed b hb c
    · rw [hleft, Disposed, (hevent b (hevents b hb)).eventFlags_eq]
      exact h.flagged b hb

/-- **The first half of an increment** pushes the event to its owner, flagged, whether it was or
not. -/
theorem Walk.dispose (h : Walk o queue events s₀ held left free s)
    (hevents : ∀ b ∈ events, b ∈ o.events) (hvisiting : (s.drains queue).isVisiting)
    (hroom : s.HasRoom queue) : ∃ ok s' left' free', s.step p (.dispose queue) = some (ok, s') ∧
      Walk o queue events s₀ held left' free' s' := by
  have hdrain := h.drain
  unfold HasRoom at hroom
  cases hd : s.drains queue with
  | idle => simp [hd, Drain.isVisiting] at hvisiting
  | disposed _ _ => simp [hd, Drain.isVisiting] at hvisiting
  | visiting node =>
    rw [hd] at hdrain hroom
    obtain ⟨rfl, hchain⟩ := hdrain
    obtain ⟨rest, rfl, hrest⟩ := Chain.some_iff.mp hchain
    have he : nodeEvent s.memory node ∈ o.events := h.layout.held_event node List.mem_cons_self
    have hnull : nodeEvent s.memory node ≠ 0 := o.nonnull _ (.inr he)
    obtain ⟨q, hq⟩ := Option.isSome_iff_exists.mp (h.layout.owned _ he)
    obtain ⟨hlayout₁, hnodes₁, hevents₁, howner₁, hflags₁⟩ := h.layout.flag he
      (eventFlags s.memory (nodeEvent s.memory node) ||| eventFlagDisposed)
    obtain ⟨q', m', free', hpush, hlayout, hheld, hevent⟩ :=
      hlayout₁.push hq (hroom q hq) p (nodeEvent s.memory node) s.env
    have hkept : ∀ b ∈ node :: rest, Keeps s.memory m' b := fun b hb =>
      (hnodes₁ b (h.layout.held_mem b hb)).trans (hheld b hb)
    have hkept' : ∀ b ∈ rest, Keeps s.memory m' b := fun b hb =>
      hkept b (List.mem_cons_of_mem _ hb)
    have hleft : rest.map (nodeEvent m') = rest.map (nodeEvent s.memory) := map_nodeEvent hkept'
    have hqueue : (Function.update s.queues (eventOwner s.memory (nodeEvent s.memory node))
        (some q') queue).isSome := isSome_update h.queue_isSome q'
    refine ⟨true, { s with
      queues := Function.update s.queues (eventOwner s.memory (nodeEvent s.memory node)) (some q')
      drains := Function.update s.drains queue (.disposed node (nodeNext s.memory node))
      memory := m'
      pushed := append s.pushed (eventOwner s.memory (nodeEvent s.memory node))
        (nodeEvent s.memory node)
      delivered := append s.delivered queue (nodeEvent s.memory node) }, rest, free', ?_, hlayout,
      hqueue, ?_, fun b hb => ?_, fun b hb c => ?_, fun b hb => ?_⟩
    · rw [System.step, disposeOf, hd]
      dsimp only
      rw [if_neg hnull, hq, Option.bind_eq_bind, Option.bind_some, EventQueue.dispose, hpush]
      rfl
    · dsimp only
      rw [Function.update_self]
      exact ⟨rfl, Keeps.chain hrest hkept'⟩
    · rw [(hevent b hb).eventOwner_eq, ← h.owner b hb]
      by_cases hbe : b = nodeEvent s.memory node
      · rw [hbe, howner₁]
      · exact (hevents₁ b hb hbe).eventOwner_eq
    · -- one event less to be disposed of, and one more pushed
      have hcount := h.pushed b hb c
      rw [List.map_cons, List.count_cons] at hcount
      rw [count_append, hleft, ← hcount]
      by_cases hbe : b = nodeEvent s.memory node
      · rw [← hbe, h.owner b (hevents b hb)]
        by_cases hc : c = eventOwner s₀.memory b
        · simp only [hc, beq_self_eq_true, and_self, if_true]
          omega
        · simp only [hc, false_and, if_false]
      · have hbeq : (nodeEvent s.memory node == b) = false := by simpa using Ne.symm hbe
        simp only [hbe, hbeq, and_false, if_false, Bool.false_eq_true, Nat.add_zero]
    · rw [hleft, Disposed, (hevent b (hevents b hb)).eventFlags_eq]
      by_cases hbe : b = nodeEvent s.memory node
      · rw [hbe, hflags₁]
        exact .inr (and_eventFlagDisposed_ne_zero _)
      · rw [(hevents₁ b (hevents b hb) hbe).eventFlags_eq]
        exact (h.flagged b hb).imp_left fun hmem => (List.mem_cons.mp hmem).resolve_left hbe

/-- **The second half of an increment** frees the node. -/
theorem Walk.deallocate (h : Walk o queue events s₀ held left free s)
    (hevents : ∀ b ∈ events, b ∈ o.events) (hdisposed : (s.drains queue).isDisposed) :
    ∃ ok s' held' free', s.step p (.deallocate queue) = some (ok, s') ∧
      Walk o queue events s₀ held' left free' s' := by
  have hdrain := h.drain
  obtain ⟨q, hq⟩ := Option.isSome_iff_exists.mp h.queue_isSome
  cases hd : s.drains queue with
  | idle => simp [hd, Drain.isDisposed] at hdisposed
  | visiting _ => simp [hd, Drain.isDisposed] at hdisposed
  | disposed node next =>
    rw [hd] at hdrain
    obtain ⟨rfl, hchain⟩ := hdrain
    obtain ⟨allocator, m', free', hdeallocate, hlayout, hheld, hevent⟩ := h.layout.deallocate hq
    have hleft : left.map (nodeEvent m') = left.map (nodeEvent s.memory) := map_nodeEvent hheld
    refine ⟨decide (next ≠ 0), { s with
      queues := Function.update s.queues queue (some { q with allocator := allocator })
      drains := Function.update s.drains queue (.ofNode next)
      memory := m' }, left, free', ?_, hlayout, isSome_update h.queue_isSome _, ?_, fun b hb => ?_,
      fun b hb c => ?_, fun b hb => ?_⟩
    · rw [System.step, deallocateOf, hd]
      dsimp only
      rw [hq, Option.bind_eq_bind, Option.bind_some, hdeallocate]
      rfl
    · dsimp only
      rw [Function.update_self]
      exact at_ofNode (Keeps.chain hchain hheld)
    · rw [(hevent b hb).eventOwner_eq]
      exact h.owner b hb
    · rw [hleft]
      exact h.pushed b hb c
    · rw [hleft, Disposed, (hevent b (hevents b hb)).eventFlags_eq]
      exact h.flagged b hb

/-! ## Whole chains -/

/-- **A chain to be drained**: the drain is at its first node. -/
structure Chained (o : EventObjects) (queue : UInt64) (nodes : List UInt64)
    (free : UInt64 → List UInt64) (s : System π) : Prop where
  layout : Layout o nodes free s.queues s.memory
  queue_isSome : (s.queues queue).isSome
  drain : At s.memory (s.drains queue) nodes nodes

/-- The events of the chain, in order. -/
def eventsOf (s : System π) (nodes : List UInt64) : List UInt64 := nodes.map (nodeEvent s.memory)

/-- The header of an event is neither read nor written: whatever it holds, the run does the same and
leaves it. -/
def Untouched (p : Platform π) (calls : List QueueCall) (s s' : System π) (e : UInt64) : Prop :=
  ∀ m : Memory, (∀ x, x < e.toNat ∨ e.toNat + 16 ≤ x → m x = s.memory x) →
    ∃ oks t, exec (step p) { s with memory := m } calls = some (oks, t) ∧
      t.queues = s'.queues ∧ t.drains = s'.drains ∧ t.pushed = s'.pushed ∧
      (∀ x, x < e.toNat ∨ e.toNat + 16 ≤ x → t.memory x = s'.memory x) ∧
      ∀ x, e.toNat ≤ x → x < e.toNat + 16 → t.memory x = m x

/-- **What a drain is to do** with the events of a chain: it pushes each that is not disposed of to
its owner, once and flagged, and leaves those that are. -/
structure HandsBack (p : Platform π) (events : List UInt64) (calls : List QueueCall)
    (s s' : System π) : Prop where
  once : ∀ e ∈ events, ¬ Disposed s.memory e → ∀ a, (s'.pushed a).count e =
    (s.pushed a).count e + if a = eventOwner s.memory e then 1 else 0
  flagged : ∀ e ∈ events, ¬ Disposed s.memory e → Disposed s'.memory e
  notAgain : ∀ e ∈ events, Disposed s.memory e → ∀ a,
    (s'.pushed a).count e = (s.pushed a).count e
  untouched : ∀ e ∈ events, Disposed s.memory e → Untouched p calls s s' e

/-- **The condition**: no event of the chain is on it twice, and none is disposed of. -/
structure AllNew (events : List UInt64) (m : Memory) : Prop where
  nodup : events.Nodup
  new : ∀ e ∈ events, ¬ Disposed m e

variable {calls : List QueueCall} {oks : List Bool}

theorem Chained.events_mem (h : s.Chained o queue nodes free) :
    ∀ e ∈ s.eventsOf nodes, e ∈ o.events := by
  intro e he
  obtain ⟨node, hnode, rfl⟩ := List.mem_map.mp he
  exact h.layout.held_event node hnode

/-- At the start every event is yet to be disposed of. -/
theorem Chained.walk (h : s.Chained o queue nodes free) :
    Walk o queue (s.eventsOf nodes) s nodes nodes free s where
  layout := h.layout
  queue_isSome := h.queue_isSome
  drain := h.drain
  owner := fun _ _ => rfl
  pushed := fun _ _ _ => rfl
  flagged := fun _ he => .inl he

/-- **One call of a drain.** -/
theorem Walk.step (hevents : ∀ b ∈ events, b ∈ o.events)
    (h : ∃ held left free, Walk o queue events s₀ held left free s)
    (hcall : s.Drains queue events call) : ∃ ok s', s.step p call = some (ok, s') ∧
      ∃ held left free, Walk o queue events s₀ held left free s' := by
  obtain ⟨held, left, free, hwalk⟩ := h
  cases call with
  | push a e =>
    obtain ⟨ok, s', free', hstep, hwalk'⟩ := hwalk.pushTo hcall.1 hcall.2 hevents
    exact ⟨ok, s', hstep, held, left, free', hwalk'⟩
  | begin _ => exact hcall.elim
  | dispose a =>
    obtain ⟨rfl, hvisiting, hroom⟩ := hcall
    obtain ⟨ok, s', left', free', hstep, hwalk'⟩ := hwalk.dispose hevents hvisiting hroom
    exact ⟨ok, s', hstep, held, left', free', hwalk'⟩
  | deallocate a =>
    obtain ⟨rfl, hdisposed⟩ := hcall
    obtain ⟨ok, s', held', free', hstep, hwalk'⟩ := hwalk.deallocate hevents hdisposed
    exact ⟨ok, s', hstep, held', left, free', hwalk'⟩

/-- **At the end of the chain** each event has been pushed to its owner as often as it is on the
chain, and is flagged. -/
theorem Chained.pushed (h : s.Chained o queue nodes free)
    (hcalls : Along (step p) (Drains queue (s.eventsOf nodes)) s calls)
    (hrun : exec (step p) s calls = some (oks, s')) (hend : s'.drains queue = .idle) :
    ∀ e ∈ s.eventsOf nodes, (∀ a, (s'.pushed a).count e = (s.pushed a).count e +
      if a = eventOwner s.memory e then (s.eventsOf nodes).count e else 0) ∧
      Disposed s'.memory e := by
  obtain ⟨held, left, free', hwalk⟩ := exec_invariant
    (fun t => ∃ held left free, Walk o queue (s.eventsOf nodes) s held left free t)
    (fun t call ok t' ht hcall hstep => by
      obtain ⟨ok', t'', hstep', ht'⟩ := Walk.step h.events_mem ht hcall
      obtain ⟨-, rfl⟩ := Prod.mk.inj (Option.some.inj (hstep'.symm.trans hstep))
      exact ht')
    ⟨nodes, nodes, free, h.walk⟩ hcalls hrun
  have hdrain := hwalk.drain
  rw [hend] at hdrain
  obtain ⟨-, rfl⟩ := hdrain
  intro e he
  refine ⟨fun a => ?_, (hwalk.flagged e he).resolve_left List.not_mem_nil⟩
  have hcount := hwalk.pushed e he a
  simp only [List.map_nil, List.count_nil, ite_self, Nat.add_zero] at hcount
  exact hcount

theorem handsBack_of_allNew (h : s.Chained o queue nodes free)
    (hcalls : Along (step p) (Drains queue (s.eventsOf nodes)) s calls)
    (hrun : exec (step p) s calls = some (oks, s')) (hend : s'.drains queue = .idle)
    (hnew : AllNew (s.eventsOf nodes) s.memory) :
    HandsBack p (s.eventsOf nodes) calls s s' where
  once := fun e he _ a => by
    rw [(h.pushed hcalls hrun hend e he).1 a, List.count_eq_one_of_mem hnew.nodup he]
  flagged := fun e he _ => (h.pushed hcalls hrun hend e he).2
  notAgain := fun e he hdisposed => absurd hdisposed (hnew.new e he)
  untouched := fun e he hdisposed => absurd hdisposed (hnew.new e he)

/-- **An event that is disposed of is pushed again**, and one that is twice on the chain is pushed
twice. -/
theorem allNew_of_handsBack (h : s.Chained o queue nodes free)
    (hcalls : Along (step p) (Drains queue (s.eventsOf nodes)) s calls)
    (hrun : exec (step p) s calls = some (oks, s')) (hend : s'.drains queue = .idle)
    (hback : HandsBack p (s.eventsOf nodes) calls s s') : AllNew (s.eventsOf nodes) s.memory := by
  have hnew : ∀ e ∈ s.eventsOf nodes, ¬ Disposed s.memory e := by
    intro e he hdisposed
    have hcount := (h.pushed hcalls hrun hend e he).1 (eventOwner s.memory e)
    have hpos := List.count_pos_iff.mpr he
    rw [if_pos rfl, hback.notAgain e he hdisposed] at hcount
    omega
  refine ⟨List.nodup_iff_count_eq_one.mpr fun e he => ?_, hnew⟩
  have hcount := (h.pushed hcalls hrun hend e he).1 (eventOwner s.memory e)
  rw [if_pos rfl, hback.once e he (hnew e he), if_pos rfl] at hcount
  omega

/-- **A drain hands back the events of a chain**, each that is not disposed of once and no others,
**iff** no event is on the chain twice and none is disposed of. -/
theorem handsBack_iff (p : Platform π) (o : EventObjects) (queue : UInt64) (nodes : List UInt64)
    (free : UInt64 → List UInt64) (s s' : System π) (calls : List QueueCall) (oks : List Bool)
    (h : s.Chained o queue nodes free)
    (hcalls : Along (step p) (Drains queue (s.eventsOf nodes)) s calls)
    (hrun : exec (step p) s calls = some (oks, s')) (hend : s'.drains queue = .idle) :
    HandsBack p (s.eventsOf nodes) calls s s' ↔ AllNew (s.eventsOf nodes) s.memory :=
  ⟨allNew_of_handsBack h hcalls hrun hend, handsBack_of_allNew h hcalls hrun hend⟩

/-- A thread that drains its queue of one event, which is its own and has the flags. -/
def ownEvent (flags : UInt32) : System Unit where
  queues a := if a = 0x1000 then some ⟨⟨0x5000, eventNodeSize⟩, 0, 0⟩ else none
  drains a := if a = 0x1000 then .visiting 0x2000 else .idle
  memory := setEventFlags (setNodeEvent (ownedEvent 0x3000 0x1000) 0x2000 0x3000) 0x3000 flags
  env := ()
  pushed _ := []
  delivered _ := []

/-- Its nodes and the header of its event. -/
def ownObjects : EventObjects where
  nodes := {node | node = 0x2000 ∨ node = 0x5000}
  events := {e | e = 0x3000}
  disjoint := by
    rintro a (rfl | rfl)
    · show ¬ (0x2000 : UInt64) = 0x3000
      decide
    · show ¬ (0x5000 : UInt64) = 0x3000
      decide
  nonnull := by
    rintro a ((rfl | rfl) | rfl) <;> decide
  apart := by
    rintro a b ((rfl | rfl) | rfl) ((rfl | rfl) | rfl) hne
    all_goals first | exact absurd rfl hne | (unfold Apart; decide)

theorem layout_ownEvent : Layout ownObjects [0x2000]
    (fun a => if a = 0x1000 then [0x5000] else []) (ownEvent 0).queues
    (setNodeEvent (ownedEvent 0x3000 0x1000) 0x2000 0x3000) := by
  have hone : ∀ a q, (ownEvent 0).queues a = some q →
      a = 0x1000 ∧ q = ⟨⟨0x5000, eventNodeSize⟩, 0, 0⟩ := by
    intro a q hq
    unfold ownEvent at hq
    dsimp only at hq
    split_ifs at hq with ha
    exact ⟨ha, (Option.some.inj hq).symm⟩
  constructor
  case held_mem =>
    intro node hnode
    exact .inl (List.mem_singleton.mp hnode)
  case held_nodup => exact List.nodup_singleton _
  case held_event =>
    intro node hnode
    obtain rfl := List.mem_singleton.mp hnode
    exact Memory.load64_store64 _ _ _
  case free_mem =>
    intro a node hnode
    split_ifs at hnode
    · obtain rfl := List.mem_singleton.mp hnode
      exact ⟨.inr rfl, by decide⟩
    · exact absurd hnode List.not_mem_nil
  case free_disjoint =>
    intro a b node hnode hnode'
    split_ifs at hnode with ha <;> split_ifs at hnode' with hb
    · exact ha.trans hb.symm
    · exact absurd hnode' List.not_mem_nil
    · exact absurd hnode List.not_mem_nil
    · exact absurd hnode List.not_mem_nil
  case freeList =>
    intro a q hq
    obtain ⟨rfl, rfl⟩ := hone a q hq
    exact .cons .nil
  case objectSize => exact fun a q hq => (hone a q hq).2 ▸ rfl
  case tail =>
    intro a q hq htail
    rw [(hone a q hq).2] at htail
    exact absurd rfl htail
  case owned =>
    rintro e rfl
    decide

/-- The chain of one event, whatever its flags. -/
theorem chained_ownEvent (flags : UInt32) : (ownEvent flags).Chained ownObjects 0x1000 [0x2000]
    (fun a => if a = 0x1000 then [0x5000] else []) := by
  obtain ⟨hlayout, hnodes, -⟩ := layout_ownEvent.flag (show (0x3000 : UInt64) ∈ _ from rfl) flags
  have hdrain : At (setNodeEvent (ownedEvent 0x3000 0x1000) 0x2000 0x3000)
      ((ownEvent flags).drains 0x1000) [0x2000] [0x2000] := ⟨rfl, .cons .nil⟩
  exact ⟨hlayout, rfl, hdrain.congr fun b hb => hnodes b (layout_ownEvent.held_mem b hb)⟩

/-- The event of the chain is new if it is not flagged. -/
theorem allNew_ownEvent_iff (flags : UInt32) :
    AllNew ((ownEvent flags).eventsOf [0x2000]) (ownEvent flags).memory ↔
      flags &&& eventFlagDisposed = 0 := by
  have hkeeps := (layout_ownEvent.flag (show (0x3000 : UInt64) ∈ _ from rfl) flags).2.1 0x2000
    (.inl rfl)
  have hevents : (ownEvent flags).eventsOf [0x2000] = [0x3000] :=
    congrArg ([·]) (hkeeps.nodeEvent_eq.trans (Memory.load64_store64 _ _ _))
  have hflags : eventFlags (ownEvent flags).memory 0x3000 = flags := Memory.load32_store32 _ _ _
  rw [hevents]
  constructor
  · intro h
    have hnew := h.new 0x3000 List.mem_cons_self
    rw [Disposed, hflags, not_not] at hnew
    exact hnew
  · intro h
    refine ⟨List.nodup_singleton _, fun e he => ?_⟩
    obtain rfl := List.mem_singleton.mp he
    rw [Disposed, hflags, not_not]
    exact h

/-- An event that is sent to the thread that owns it goes back to it once. -/
theorem handsBack_iff_new : ∃ oks s', exec (step Platform.granting) (ownEvent 0)
    [.dispose 0x1000, .deallocate 0x1000] = some (oks, s') ∧
      HandsBack Platform.granting ((ownEvent 0).eventsOf [0x2000])
        [.dispose 0x1000, .deallocate 0x1000] (ownEvent 0) s' := by
  have hlast : (exec (step Platform.granting) (ownEvent 0)
      [.dispose 0x1000, .deallocate 0x1000]).map (fun r => decide (r.2.drains 0x1000 = .idle)) =
        some true := by decide
  obtain ⟨⟨oks, s'⟩, hrun, hidle⟩ := Option.map_eq_some_iff.mp hlast
  exact ⟨oks, s', hrun, (handsBack_iff _ _ _ _ _ _ _ _ _ (chained_ownEvent 0) (by decide) hrun
    (of_decide_eq_true hidle)).mpr ((allNew_ownEvent_iff 0).mpr (by decide))⟩

/-- **An event goes round again**: its owner collects it, and it is pushed to the owner's queue. -/
theorem not_handsBack : ¬ ∀ (p : Platform Unit) (o : EventObjects) (queue : UInt64)
    (nodes : List UInt64) (free : UInt64 → List UInt64) (s s' : System Unit)
    (calls : List QueueCall) (oks : List Bool), s.Chained o queue nodes free →
      Along (step p) (Drains queue (s.eventsOf nodes)) s calls →
      exec (step p) s calls = some (oks, s') → s'.drains queue = .idle →
      HandsBack p (s.eventsOf nodes) calls s s' := by
  intro hall
  have hlast : (exec (step Platform.granting) (ownEvent eventFlagDisposed)
      [.dispose 0x1000, .deallocate 0x1000]).map (fun r => decide (r.2.drains 0x1000 = .idle)) =
        some true := by decide
  obtain ⟨⟨oks, s'⟩, hrun, hidle⟩ := Option.map_eq_some_iff.mp hlast
  have hcalls : Along (step Platform.granting)
      (Drains 0x1000 ((ownEvent eventFlagDisposed).eventsOf [0x2000]))
      (ownEvent eventFlagDisposed) [.dispose 0x1000, .deallocate 0x1000] := by decide
  have hback := hall _ _ _ _ _ _ _ _ _ (chained_ownEvent _) hcalls hrun (of_decide_eq_true hidle)
  have hnew := allNew_of_handsBack (chained_ownEvent _) hcalls hrun (of_decide_eq_true hidle) hback
  exact absurd ((allNew_ownEvent_iff eventFlagDisposed).mp hnew) (by decide)

end System

end Hologine.Threading
