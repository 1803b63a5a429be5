import Hologine.Memory.Allocator
import Hologine.Memory.FixedBlocks

/-!
# The construction of a fixed allocator

Model of the constructor of `fixed_allocator` (`core/memory/fixed_allocator.cpp:14-68`). It claims a
region, aligns its base and pushes the nodes to the free list from the last to the first.

* The number of nodes is computed from itself: `node_count = node_span_size / node_count` reads what
  the local happens to be, and divides by zero if that is zero.
* The loop goes on while a node is past the base of the region, not the first node. A first node
  that is the base is left out, and a node size past the first node wraps.
* `NodeLayout` says where the nodes belong, as natural numbers.

Results:
* `reserveNodes_eq_some_iff`: what the loop pushes, if it ends.
* `freeList_pushAll_iff`: nodes that are pushed head the free list.
* `NodeLayout.Valid.placed`: the nodes of a layout are aligned, apart and in the region.
* `constructs_iff`: the free list is the nodes of the layout **iff** the loop starts at the last of
  them, the base is not aligned, and the node size is not past the first node.
-/

namespace Hologine.Memory

open Hologine.Library Hologine.Library.Align Hologine.Math

namespace FixedAllocator

/-- `sizeof(free_node)`. -/
def sizeofFreeNode : UInt64 := 8

/-- The size of a node, including padding. -/
def nodeSize (objectSize alignment : UInt64) : UInt64 :=
  if moduloPowerOfTwo objectSize alignment = 0 then objectSize else roundUp objectSize alignment

/-- The loop of the constructor, from the last node down. It is `none` when the fuel runs out. -/
def reserveNodes (baseMemory nodeSize : UInt64) :
    Nat → UInt64 → FixedAllocator × Memory → Option (FixedAllocator × Memory)
  | 0, _, _ => none
  | fuel + 1, currentNode, s =>
    if currentNode > baseMemory then do
      let s ← s.1.deallocate currentNode s.2
      reserveNodes baseMemory nodeSize fuel (currentNode - nodeSize) s
    else some s

variable {π : Type} (p : Platform π)

/-- The constructor, where `nodeCount` is what the local of that name happens to be. A failed
assertion and a division by zero are `none`. -/
def create (nodeCount : UInt64) (fuel : Nat) (size objectSize alignment : UInt64) (bytes : Memory)
    (env : π) : Option (FixedAllocator × Memory × MemoryRegion × π) :=
  let a : FixedAllocator := ⟨0, objectSize⟩
  if objectSize < sizeofFreeNode then none
  else
    let (baseMemory, memoryRegion, env) := (MemoryRegion.create size).claim p env
    if baseMemory ≠ 0 then
      let memory := alignPointer baseMemory alignment
      let nodeSize := nodeSize objectSize alignment
      let maxSize := memoryRegion.getCurrentSize
      let nodeSpanSize := maxSize - getPointerDistance memory baseMemory
      if nodeCount = 0 then none
      else
        let nodeCount := nodeSpanSize / nodeCount
        let currentNode := memory + (nodeCount - 1) * nodeSize
        (reserveNodes baseMemory nodeSize fuel currentNode (a, bytes)).map fun (a, bytes) =>
          (a, bytes, memoryRegion, env)
    else some (a, bytes, memoryRegion, env)

end FixedAllocator

/-! ## Where the nodes belong -/

/-- Where a region is and how much of it is committed, and what its nodes are for. -/
structure NodeLayout where
  base : UInt64
  committed : UInt64
  objectSize : UInt64
  alignment : UInt64
  deriving Repr, DecidableEq

namespace NodeLayout

/-- The layout of the region that a constructor claims. -/
def ofClaim {π : Type} (p : Platform π) (size objectSize alignment : UInt64) (env : π) :
    NodeLayout :=
  let claimed := (MemoryRegion.create size).claim p env
  ⟨claimed.1, claimed.2.1.getCurrentSize, objectSize, alignment⟩

/-- The first node: the base, aligned. -/
def memory (l : NodeLayout) : Nat := alignUp l.base.toNat l.alignment.toNat

/-- The size of a node: that of an object, aligned. -/
def nodeSize (l : NodeLayout) : Nat := alignUp l.objectSize.toNat l.alignment.toNat

/-- What is committed from the first node on. -/
def span (l : NodeLayout) : Nat := l.base.toNat + l.committed.toNat - l.memory

/-- How many nodes there is space for. -/
def count (l : NodeLayout) : Nat := l.span / l.nodeSize

/-- The nodes, in the order of their addresses. -/
def nodes (l : NodeLayout) : List UInt64 :=
  (List.range l.count).map fun i => UInt64.ofNat (l.memory + i * l.nodeSize)

/-- **The region is claimed and has space for a node**: an object has room for a free node, the
alignment is a power of two, and the region is in the address space. -/
structure Valid (l : NodeLayout) : Prop where
  claimed : l.base ≠ 0
  word : FixedAllocator.sizeofFreeNode ≤ l.objectSize
  powerOfTwo : ∃ n, l.alignment.toNat = 2 ^ n
  inSpace : l.base.toNat + l.committed.toNat ≤ 2 ^ 64
  fits : l.memory + l.nodeSize ≤ l.base.toNat + l.committed.toNat

/-- **The nodes are where they should be**: in increasing order, aligned, at least an object apart,
and inside what is committed. -/
structure Placed (l : NodeLayout) : Prop where
  increasing : l.nodes.Pairwise (· < ·)
  aligned : ∀ node ∈ l.nodes, l.alignment.toNat ∣ node.toNat
  apart : NodesApart l.objectSize l.nodes
  inside : ∀ node ∈ l.nodes, l.base.toNat ≤ node.toNat ∧
    node.toNat + l.objectSize.toNat ≤ l.base.toNat + l.committed.toNat

/-- **The condition**: the local is not zero and happens to make the loop start at the last node;
the base is not the first node; and the node size is not past that. -/
structure StartsAtLast (l : NodeLayout) (nodeCount : UInt64) : Prop where
  nonzero : nodeCount ≠ 0
  last : l.span / nodeCount.toNat * l.nodeSize % 2 ^ 64 = l.count * l.nodeSize
  unaligned : ¬ l.alignment.toNat ∣ l.base.toNat
  below : l.nodeSize ≤ l.memory

end NodeLayout

/-- **What construction is for**: it ends, the nodes are where they should be, and the free list is
all of them. -/
def FixedAllocator.Constructs {π : Type} (p : Platform π)
    (nodeCount size objectSize alignment : UInt64) (bytes : Memory) (env : π) : Prop :=
  let layout := NodeLayout.ofClaim p size objectSize alignment env
  ∃ fuel a bytes' memoryRegion env',
    FixedAllocator.create p nodeCount fuel size objectSize alignment bytes env =
      some (a, bytes', memoryRegion, env') ∧ a.FreeList bytes' layout.nodes ∧ layout.Placed

/-! ## What the loop pushes -/

namespace FixedAllocator

/-- A node that is pushed to the free list. -/
def pushNode (node : UInt64) (s : FixedAllocator × Memory) : FixedAllocator × Memory :=
  ({ s.1 with freeNodes := node }, s.2.store64 node.toNat s.1.freeNodes)

/-- Nodes that are pushed to the free list, the last one first. -/
def pushAll (nodes : List UInt64) (s : FixedAllocator × Memory) : FixedAllocator × Memory :=
  nodes.foldr pushNode s

/-- Nodes at equal distances, modulo `2 ^ 64`. -/
def equidistant (nodeSize first : UInt64) (k : Nat) : List UInt64 :=
  (List.range k).map fun i => first + UInt64.ofNat i * nodeSize

variable {nodeSize base first currentNode : UInt64} {s s' : FixedAllocator × Memory}

@[simp] theorem length_equidistant (nodeSize first : UInt64) (k : Nat) :
    (equidistant nodeSize first k).length = k := by
  rw [equidistant, List.length_map, List.length_range]

/-- One node more at the end. -/
theorem equidistant_succ (nodeSize first : UInt64) (k : Nat) :
    equidistant nodeSize first (k + 1) =
      equidistant nodeSize first k ++ [first + UInt64.ofNat k * nodeSize] := by
  rw [equidistant, List.range_succ, List.map_append, equidistant, List.map_cons, List.map_nil]

/-- One node more at the start. -/
theorem equidistant_cons (nodeSize first : UInt64) (k : Nat) : ∃ nodes,
    equidistant nodeSize first (k + 1) = first :: nodes := by
  rw [equidistant, List.range_succ_eq_map, List.map_cons, show UInt64.ofNat 0 = 0 from rfl,
    UInt64.zero_mul, UInt64.add_zero]
  exact ⟨_, rfl⟩

/-- The free list starts at the first of the nodes that are pushed. -/
theorem pushAll_freeNodes (nodeSize first : UInt64) (k : Nat) (s : FixedAllocator × Memory) :
    (pushAll (equidistant nodeSize first (k + 1)) s).1.freeNodes = first := by
  obtain ⟨nodes, hnodes⟩ := equidistant_cons nodeSize first k
  rw [hnodes]
  rfl

/-- The first `k` nodes and those that follow them. -/
theorem equidistant_add (nodeSize first : UInt64) (k n : Nat) :
    equidistant nodeSize first (k + n) = equidistant nodeSize first k ++
      equidistant nodeSize (first + UInt64.ofNat k * nodeSize) n := by
  rw [equidistant, List.range_add, List.map_append, List.map_map, equidistant, equidistant]
  refine congrArg _ (List.map_congr_left fun i _ => ?_)
  rw [Function.comp_apply, UInt64.ofNat_add, UInt64.add_mul, UInt64.add_assoc]

/-- **What the loop does, if it ends**: it pushes the nodes down to the last that is past the
base. -/
theorem reserveNodes_eq_some_iff {fuel : Nat} :
    reserveNodes base nodeSize fuel currentNode s = some s' ↔ ∃ k < fuel,
      (∀ i < k, base < currentNode - UInt64.ofNat i * nodeSize) ∧
      ¬ base < currentNode - UInt64.ofNat k * nodeSize ∧
      s' = pushAll (equidistant nodeSize (currentNode + nodeSize - UInt64.ofNat k * nodeSize) k)
        s := by
  have hzero (node : UInt64) : node - UInt64.ofNat 0 * nodeSize = node := by
    rw [show UInt64.ofNat 0 = 0 from rfl, UInt64.zero_mul, UInt64.sub_zero]
  have hsucc (node : UInt64) (i : Nat) :
      node - UInt64.ofNat (i + 1) * nodeSize = node - nodeSize - UInt64.ofNat i * nodeSize := by
    rw [UInt64.ofNat_add, show UInt64.ofNat 1 = 1 from rfl]
    grind
  induction fuel generalizing currentNode s with
  | zero =>
    refine iff_of_false (by rw [reserveNodes]; simp) ?_
    rintro ⟨k, hk, -⟩
    omega
  | succ fuel ih =>
    rw [reserveNodes]
    by_cases hnode : currentNode > base
    · have hne : currentNode ≠ 0 := by
        rintro rfl
        exact absurd hnode (UInt64.not_lt.mpr UInt64.zero_le)
      have hpush : s.1.deallocate currentNode s.2 = some (pushNode currentNode s) := if_neg hne
      have hnodes (k : Nat) : pushAll (equidistant nodeSize
          (currentNode + nodeSize - UInt64.ofNat (k + 1) * nodeSize) (k + 1)) s =
          pushAll (equidistant nodeSize
            (currentNode - nodeSize + nodeSize - UInt64.ofNat k * nodeSize) k)
            (pushNode currentNode s) := by
        rw [equidistant_succ, pushAll, List.foldr_append, hsucc, UInt64.add_sub_cancel,
          UInt64.sub_add_cancel, UInt64.sub_add_cancel]
        rfl
      rw [if_pos hnode, Option.bind_eq_bind, hpush, Option.bind_some]
      refine ih.trans ⟨?_, ?_⟩
      · rintro ⟨k, hk, habove, hend, rfl⟩
        refine ⟨k + 1, by omega, fun i hi => ?_, hsucc currentNode k ▸ hend, (hnodes k).symm⟩
        cases i with
        | zero => exact (hzero currentNode).symm ▸ hnode
        | succ i => exact hsucc currentNode i ▸ habove i (by omega)
      · rintro ⟨k, hk, habove, hend, rfl⟩
        cases k with
        | zero => exact absurd hnode (hzero currentNode ▸ hend)
        | succ k =>
          exact ⟨k, by omega, fun i hi => hsucc currentNode i ▸ habove (i + 1) (by omega),
            hsucc currentNode k ▸ hend, hnodes k⟩
    · rw [if_neg hnode, Option.some_inj]
      constructor
      · rintro rfl
        exact ⟨0, by omega, fun i hi => absurd hi (by omega), (hzero currentNode).symm ▸ hnode, rfl⟩
      · rintro ⟨k, hk, habove, hend, rfl⟩
        cases k with
        | zero => rfl
        | succ k => exact absurd (hzero currentNode ▸ habove 0 (by omega)) hnode

/-- The links of nodes that are pushed, in a memory that keeps their words. -/
theorem chain_pushAll_iff {m : Memory} {nodes l : List UInt64} (hnull : ∀ node ∈ nodes, node ≠ 0)
    (hapart : nodes.Pairwise fun a b => a.toNat + 8 ≤ b.toNat)
    (hword : ∀ node ∈ nodes, nextFreeNode m node = nextFreeNode (pushAll nodes s).2 node) :
    Chain (fun node => ofPointer (nextFreeNode m node))
        (ofPointer (pushAll nodes s).1.freeNodes) l ↔
      ∃ l', l = nodes ++ l' ∧
        Chain (fun node => ofPointer (nextFreeNode m node)) (ofPointer s.1.freeNodes) l' := by
  induction nodes generalizing l with
  | nil =>
    constructor
    · exact fun h => ⟨l, rfl, h⟩
    · rintro ⟨l', rfl, h⟩
      exact h
  | cons node nodes ih =>
    obtain ⟨hnode, hnull'⟩ := List.forall_mem_cons.mp hnull
    obtain ⟨hbefore, hapart'⟩ := List.pairwise_cons.mp hapart
    obtain ⟨hlink, hword'⟩ := List.forall_mem_cons.mp hword
    have hnext : nextFreeNode m node = (pushAll nodes s).1.freeNodes :=
      hlink.trans (Memory.load64_store64 _ _ _)
    have hrest := ih (l := l.tail) hnull' hapart' fun b hb =>
      (hword' b hb).trans (Memory.load64_store64_of_disjoint (.inr (hbefore b hb)))
    rw [show (pushAll (node :: nodes) s).1.freeNodes = node from rfl,
      ofPointer_eq_some.mpr ⟨rfl, hnode⟩, Chain.some_iff, hnext]
    constructor
    · rintro ⟨l, rfl, h⟩
      obtain ⟨l', heq, h'⟩ := hrest.mp h
      exact ⟨l', congrArg (node :: ·) heq, h'⟩
    · rintro ⟨l', rfl, h'⟩
      exact ⟨_, rfl, hrest.mpr ⟨l', rfl, h'⟩⟩

/-- **Nodes that are pushed head the free list**, and the free list there was follows them. -/
theorem freeList_pushAll_iff {nodes l : List UInt64} (hnull : ∀ node ∈ nodes, node ≠ 0)
    (hapart : nodes.Pairwise fun a b => a.toNat + 8 ≤ b.toNat) :
    (pushAll nodes s).1.FreeList (pushAll nodes s).2 l ↔ ∃ l', l = nodes ++ l' ∧
      Chain (fun node => ofPointer (nextFreeNode (pushAll nodes s).2 node))
        (ofPointer s.1.freeNodes) l' :=
  chain_pushAll_iff hnull hapart fun _ _ => rfl

end FixedAllocator

/-! ## Where the nodes are -/

namespace NodeLayout

variable {l : NodeLayout}

theorem Valid.alignment_pos (h : l.Valid) : 0 < l.alignment.toNat := by
  obtain ⟨n, hn⟩ := h.powerOfTwo
  exact hn ▸ Nat.two_pow_pos n

theorem Valid.objectSize_ge (h : l.Valid) : 8 ≤ l.objectSize.toNat :=
  UInt64.le_iff_toNat_le.mp h.word

/-- The first node is the base, or less than the alignment past it. -/
theorem Valid.memory_bounds (h : l.Valid) :
    l.base.toNat ≤ l.memory ∧ l.memory < l.base.toNat + l.alignment.toNat :=
  ⟨le_alignUp h.alignment_pos, alignUp_lt h.alignment_pos⟩

/-- A node has room for an object, and is no smaller than the alignment. -/
theorem Valid.nodeSize_bounds (h : l.Valid) :
    l.objectSize.toNat ≤ l.nodeSize ∧ l.alignment.toNat ≤ l.nodeSize := by
  have hle : l.objectSize.toNat ≤ l.nodeSize := le_alignUp h.alignment_pos
  have hword := h.objectSize_ge
  exact ⟨hle, Nat.le_of_dvd (by omega) (dvd_alignUp _ _)⟩

theorem Valid.nodeSize_pos (h : l.Valid) : 0 < l.nodeSize :=
  h.alignment_pos.trans_le h.nodeSize_bounds.2

/-- There is a node, and the last of them ends where the region does or before. -/
theorem Valid.count_bounds (h : l.Valid) :
    0 < l.count ∧ l.memory + l.count * l.nodeSize ≤ l.base.toNat + l.committed.toNat := by
  have hfits := h.fits
  have hspan : l.nodeSize ≤ l.span := by
    rw [span]
    omega
  have hmul : l.count * l.nodeSize ≤ l.span := Nat.div_mul_le_self _ _
  refine ⟨Nat.div_pos hspan h.nodeSize_pos, ?_⟩
  rw [span] at hmul
  omega

/-- A node ends where a later one starts or before. -/
theorem node_add_le (l : NodeLayout) {i j : Nat} (hlt : i < j) :
    l.memory + i * l.nodeSize + l.nodeSize ≤ l.memory + j * l.nodeSize := by
  have hmul := Nat.mul_le_mul_right l.nodeSize (show i + 1 ≤ j from hlt)
  rw [Nat.add_mul, Nat.one_mul] at hmul
  omega

/-- A node ends where the region does or before. -/
theorem Valid.node_le (h : l.Valid) {i : Nat} (hi : i < l.count) :
    l.memory + i * l.nodeSize + l.nodeSize ≤ l.base.toNat + l.committed.toNat :=
  (l.node_add_le hi).trans h.count_bounds.2

theorem Valid.toNat_node (h : l.Valid) {i : Nat} (hi : i < l.count) :
    (UInt64.ofNat (l.memory + i * l.nodeSize)).toNat = l.memory + i * l.nodeSize := by
  have hle := h.node_le hi
  have hpos := h.nodeSize_pos
  have hspace := h.inSpace
  rw [UInt64.toNat_ofNat', Nat.mod_eq_of_lt (by omega)]

theorem mem_nodes {node : UInt64} :
    node ∈ l.nodes ↔ ∃ i < l.count, UInt64.ofNat (l.memory + i * l.nodeSize) = node := by
  simp only [nodes, List.mem_map, List.mem_range]

/-- Of two nodes the first ends before the other. -/
theorem Valid.pairwise_nodes (h : l.Valid) :
    l.nodes.Pairwise fun a b => a.toNat + l.nodeSize ≤ b.toNat := by
  rw [nodes, List.pairwise_map]
  refine List.pairwise_lt_range.imp_of_mem fun {i j} hi hj hlt => ?_
  rw [h.toNat_node (List.mem_range.mp hi), h.toNat_node (List.mem_range.mp hj)]
  exact l.node_add_le hlt

/-- **The nodes of a layout are where they should be.** -/
theorem Valid.placed (h : l.Valid) : l.Placed where
  increasing := h.pairwise_nodes.imp fun {a b} hab => by
    have hpos := h.nodeSize_pos
    rw [UInt64.lt_iff_toNat_lt]
    omega
  aligned := by
    intro node hnode
    obtain ⟨i, hi, rfl⟩ := mem_nodes.mp hnode
    rw [h.toNat_node hi]
    exact Nat.dvd_add (dvd_alignUp _ _) (Nat.dvd_mul_left_of_dvd (dvd_alignUp _ _) i)
  apart := by
    intro a ha b hb hne
    obtain ⟨i, hi, rfl⟩ := mem_nodes.mp ha
    obtain ⟨j, hj, rfl⟩ := mem_nodes.mp hb
    have hle := h.nodeSize_bounds.1
    rw [h.toNat_node hi, h.toNat_node hj]
    rcases Nat.lt_trichotomy i j with hlt | rfl | hlt
    · have := l.node_add_le hlt
      omega
    · exact absurd rfl hne
    · have := l.node_add_le hlt
      omega
  inside := by
    intro node hnode
    obtain ⟨i, hi, rfl⟩ := mem_nodes.mp hnode
    have hle := h.node_le hi
    have hbase := h.memory_bounds.1
    have hsize := h.nodeSize_bounds.1
    rw [h.toNat_node hi]
    omega

/-! ### The words of the source -/

/-- The alignment divides what there is of the address space from a multiple of it on. -/
theorem Valid.add_alignment_le (h : l.Valid) {n : Nat} (hdvd : l.alignment.toNat ∣ n)
    (hlt : n < 2 ^ 64) : n + l.alignment.toNat ≤ 2 ^ 64 := by
  obtain ⟨k, hk⟩ := h.powerOfTwo
  have halign := l.alignment.toNat_lt
  have hspace : l.alignment.toNat ∣ 2 ^ 64 := by
    rw [hk] at halign ⊢
    exact Nat.pow_dvd_pow 2 ((Nat.pow_lt_pow_iff_right (by decide)).mp halign).le
  have hle := Nat.le_of_dvd (by omega) (Nat.dvd_sub hspace hdvd)
  omega

theorem Valid.toNat_memory (h : l.Valid) : (alignPointer l.base l.alignment).toNat = l.memory := by
  obtain ⟨n, hn⟩ := h.powerOfTwo
  have hpos := h.nodeSize_pos
  have hfits := h.fits
  have hspace := h.inSpace
  rw [toNat_alignPointer hn]
  exact if_pos (show l.memory < 2 ^ 64 by omega)

theorem Valid.memory_pos (h : l.Valid) : 0 < l.memory := by
  have hbase : l.base.toNat ≠ 0 := fun h0 => h.claimed (UInt64.toNat_inj.mp h0)
  have hle := h.memory_bounds.1
  omega

theorem Valid.toNat_nodeSize (h : l.Valid) :
    (FixedAllocator.nodeSize l.objectSize l.alignment).toNat = l.nodeSize := by
  obtain ⟨n, hn⟩ := h.powerOfTwo
  have hpos := h.alignment_pos
  have hword := h.objectSize_ge
  rw [FixedAllocator.nodeSize]
  split_ifs with hpacked
  · have hmod : l.objectSize.toNat % l.alignment.toNat = 0 := by
      rw [← toNat_moduloPowerOfTwo hn, hpacked]
      rfl
    exact (alignUp_eq_self hpos (Nat.dvd_of_mod_eq_zero hmod)).symm
  · have hmemory := h.memory_pos
    have hfits := h.fits
    have hspace := h.inSpace
    have hroom := h.add_alignment_le (dvd_alignUp l.objectSize.toNat _)
      (show l.nodeSize < 2 ^ 64 by omega)
    have hle : l.objectSize.toNat ≤ alignUp l.objectSize.toNat l.alignment.toNat := le_alignUp hpos
    exact toNat_roundUp (by omega) hpos (by omega)

theorem Valid.toNat_span (h : l.Valid) :
    (l.committed - getPointerDistance (alignPointer l.base l.alignment) l.base).toNat =
      l.span := by
  have hmemory := h.toNat_memory
  have hle := h.memory_bounds.1
  have hfits := h.fits
  have hdistance : (getPointerDistance (alignPointer l.base l.alignment) l.base).toNat =
      l.memory - l.base.toNat := by
    rw [getPointerDistance, UInt64.toNat_sub_of_le _ _
      (UInt64.le_iff_toNat_le.mpr (by omega)), hmemory]
  rw [UInt64.toNat_sub_of_le _ _ (UInt64.le_iff_toNat_le.mpr (by omega)), hdistance, span]
  omega

theorem Valid.node_eq (h : l.Valid) (i : Nat) : UInt64.ofNat (l.memory + i * l.nodeSize) =
    alignPointer l.base l.alignment +
      UInt64.ofNat i * FixedAllocator.nodeSize l.objectSize l.alignment := by
  rw [UInt64.ofNat_add, UInt64.ofNat_mul, ← h.toNat_memory, ← h.toNat_nodeSize,
    UInt64.ofNat_toNat, UInt64.ofNat_toNat]

/-- The nodes are at equal distances. -/
theorem Valid.nodes_eq (h : l.Valid) : l.nodes = FixedAllocator.equidistant
    (FixedAllocator.nodeSize l.objectSize l.alignment) (alignPointer l.base l.alignment)
    l.count :=
  List.map_congr_left fun i _ => h.node_eq i

/-- Nodes that are words apart, none of them null. -/
theorem Valid.pushable (h : l.Valid) : (∀ node ∈ l.nodes, node ≠ 0) ∧
    l.nodes.Pairwise fun a b => a.toNat + 8 ≤ b.toNat := by
  constructor
  · intro node hnode h0
    have hle := (h.placed.inside node hnode).1
    rw [h0] at hle
    exact h.claimed (UInt64.toNat_inj.mp (Nat.le_zero.mp hle))
  · refine h.pairwise_nodes.imp fun {a b} hab => ?_
    have hword := h.objectSize_ge
    have hsize := h.nodeSize_bounds.1
    omega

/-- The node the loop starts at. -/
def start (l : NodeLayout) (nodeCount : UInt64) : UInt64 :=
  let memory := alignPointer l.base l.alignment
  let nodeSpanSize := l.committed - getPointerDistance memory l.base
  memory + (nodeSpanSize / nodeCount - 1) * FixedAllocator.nodeSize l.objectSize l.alignment

/-- **The loop starts at the last node** just where that is as far from the first as what it divides
says. -/
theorem Valid.start_iff (h : l.Valid) (nodeCount : UInt64) :
    l.start nodeCount + FixedAllocator.nodeSize l.objectSize l.alignment =
      alignPointer l.base l.alignment +
        UInt64.ofNat l.count * FixedAllocator.nodeSize l.objectSize l.alignment ↔
    l.span / nodeCount.toNat * l.nodeSize % 2 ^ 64 = l.count * l.nodeSize := by
  have hend := h.count_bounds.2
  have hspace := h.inSpace
  have hmemory := h.memory_pos
  have hspan := h.toNat_span
  have hsize := h.toNat_nodeSize
  rw [start]
  generalize l.committed - getPointerDistance (alignPointer l.base l.alignment) l.base = span at *
  generalize FixedAllocator.nodeSize l.objectSize l.alignment = nodeSize at *
  have hmul : (span / nodeCount * nodeSize).toNat =
      l.span / nodeCount.toNat * l.nodeSize % 2 ^ 64 := by
    rw [UInt64.toNat_mul, UInt64.toNat_div, hspan, hsize]
  have hmul' : (UInt64.ofNat l.count * nodeSize).toNat = l.count * l.nodeSize := by
    rw [UInt64.toNat_mul, UInt64.toNat_ofNat', hsize, Nat.mod_mul_mod,
      Nat.mod_eq_of_lt (by omega)]
  rw [← hmul, ← hmul', UInt64.toNat_inj]
  constructor
  · intro heq
    grind
  · intro heq
    grind

variable {nodeCount : UInt64} {s : FixedAllocator × Memory}

/-- **A loop that starts at the last node, and ends below the first, pushes the nodes.** -/
theorem Valid.reserves (h : l.Valid) (hstart : l.StartsAtLast nodeCount)
    (hempty : s.1.freeNodes = 0) : ∃ fuel s', FixedAllocator.reserveNodes l.base
      (FixedAllocator.nodeSize l.objectSize l.alignment) fuel (l.start nodeCount) s = some s' ∧
      s'.1.FreeList s'.2 l.nodes := by
  obtain ⟨-, hlast, hunaligned, hbelow⟩ := hstart
  have hbounds := h.memory_bounds
  have hmemory := h.toNat_memory
  have hsize := h.toNat_nodeSize
  have hnode := h.node_eq
  have hlast' := (h.start_iff nodeCount).mpr hlast
  have hnodes := h.nodes_eq
  have hne : l.memory ≠ l.base.toNat := fun heq => hunaligned (heq ▸ dvd_alignUp _ _)
  generalize FixedAllocator.nodeSize l.objectSize l.alignment = nodeSize at *
  generalize alignPointer l.base l.alignment = memory at *
  refine ⟨l.count + 1, _, FixedAllocator.reserveNodes_eq_some_iff.mpr
    ⟨l.count, by omega, fun i hi => ?_, ?_, rfl⟩, ?_⟩
  · -- a node is past the base
    obtain ⟨j, hj⟩ := Nat.exists_eq_add_of_lt hi
    have heq : l.start nodeCount - UInt64.ofNat i * nodeSize =
        memory + UInt64.ofNat j * nodeSize := by
      rw [hj, UInt64.ofNat_add, UInt64.ofNat_add, show UInt64.ofNat 1 = 1 from rfl] at hlast'
      grind
    rw [heq, ← hnode, UInt64.lt_iff_toNat_lt, h.toNat_node (by omega)]
    omega
  · -- what is below the first node is not
    have heq : l.start nodeCount - UInt64.ofNat l.count * nodeSize = memory - nodeSize := by
      grind
    have hge := h.nodeSize_bounds.2
    rw [heq, UInt64.lt_iff_toNat_lt, UInt64.toNat_sub_of_le _ _
      (UInt64.le_iff_toNat_le.mpr (by omega)), hmemory, hsize]
    omega
  · rw [hlast', UInt64.add_sub_cancel, ← hnodes]
    refine (FixedAllocator.freeList_pushAll_iff h.pushable.1 h.pushable.2).mpr
      ⟨[], (List.append_nil _).symm, ?_⟩
    rw [hempty]
    exact .nil

/-- **Nodes at equal distances, down to the first, that become the free list are the nodes.** With
fewer of them the last but one would end the list, with more it would go on. -/
theorem Valid.count_eq (h : l.Valid) {k : Nat} (hempty : s.1.freeNodes = 0)
    (habove : ∀ i < k, alignPointer l.base l.alignment +
      UInt64.ofNat i * FixedAllocator.nodeSize l.objectSize l.alignment ≠ 0)
    (hfree : (FixedAllocator.pushAll (FixedAllocator.equidistant
        (FixedAllocator.nodeSize l.objectSize l.alignment) (alignPointer l.base l.alignment) k)
        s).1.FreeList
      (FixedAllocator.pushAll (FixedAllocator.equidistant
        (FixedAllocator.nodeSize l.objectSize l.alignment) (alignPointer l.base l.alignment) k)
        s).2 l.nodes) : k = l.count := by
  obtain ⟨hnull, hapart⟩ := h.pushable
  have hnodes := h.nodes_eq
  generalize FixedAllocator.nodeSize l.objectSize l.alignment = nodeSize at *
  generalize alignPointer l.base l.alignment = memory at *
  rcases Nat.lt_or_ge l.count k with hmore | hfewer
  · -- what the nodes were pushed on top of is not null
    obtain ⟨n, rfl⟩ := Nat.exists_eq_add_of_lt hmore
    obtain ⟨rest, hrest⟩ := FixedAllocator.equidistant_cons nodeSize
      (memory + UInt64.ofNat l.count * nodeSize) n
    rw [Nat.add_assoc, FixedAllocator.equidistant_add, hrest, ← hnodes, FixedAllocator.pushAll,
      List.foldr_append] at hfree
    obtain ⟨l', heq, hchain⟩ := (FixedAllocator.freeList_pushAll_iff hnull hapart).mp hfree
    obtain rfl : l' = [] := List.self_eq_append_right.mp heq
    rw [List.foldr_cons, FixedAllocator.pushNode,
      ofPointer_eq_some.mpr ⟨rfl, habove l.count (by omega)⟩] at hchain
    cases hchain
  · -- the nodes are among those there should be
    obtain ⟨n, hn⟩ := Nat.exists_eq_add_of_le hfewer
    rw [hn, FixedAllocator.equidistant_add] at hnodes
    rw [hnodes] at hnull hapart
    obtain ⟨l', heq, hchain⟩ := (FixedAllocator.freeList_pushAll_iff
      (fun node hnode => hnull node (List.mem_append_left _ hnode))
      (List.pairwise_append.mp hapart).1).mp hfree
    rw [hempty] at hchain
    obtain rfl := Chain.none_iff.mp hchain
    have hlength := congrArg List.length (hnodes.symm.trans heq)
    simp only [List.length_append, FixedAllocator.length_equidistant, List.length_nil] at hlength
    omega

/-- The first node is the first of the free list. -/
theorem Valid.freeNodes_eq (h : l.Valid) {a : FixedAllocator} {m : Memory}
    (hfree : a.FreeList m l.nodes) : a.freeNodes = alignPointer l.base l.alignment := by
  obtain ⟨count, hcount⟩ := Nat.exists_eq_add_of_lt h.count_bounds.1
  obtain ⟨rest, hrest⟩ := FixedAllocator.equidistant_cons
    (FixedAllocator.nodeSize l.objectSize l.alignment) (alignPointer l.base l.alignment) (0 + count)
  rw [h.nodes_eq, hcount, hrest] at hfree
  by_cases hnull : a.freeNodes = 0
  · rw [FixedAllocator.FreeList, hnull] at hfree
    exact absurd (Chain.none_iff.mp hfree) (List.cons_ne_nil _ _)
  · rw [FixedAllocator.FreeList, ofPointer_eq_some.mpr ⟨rfl, hnull⟩] at hfree
    obtain ⟨rest', heq, -⟩ := Chain.some_iff.mp hfree
    exact (List.cons.inj heq).1.symm

/-- **A loop that pushes the nodes starts at the last, and ends below the first.** -/
theorem Valid.startsAtLast (h : l.Valid) (hnonzero : nodeCount ≠ 0) (hempty : s.1.freeNodes = 0)
    {fuel : Nat} {s' : FixedAllocator × Memory}
    (hreserve : FixedAllocator.reserveNodes l.base
      (FixedAllocator.nodeSize l.objectSize l.alignment) fuel (l.start nodeCount) s = some s')
    (hfree : s'.1.FreeList s'.2 l.nodes) : l.StartsAtLast nodeCount := by
  obtain ⟨k, -, habove, hend, rfl⟩ := FixedAllocator.reserveNodes_eq_some_iff.mp hreserve
  have hbounds := h.memory_bounds
  have hmemory := h.toNat_memory
  have hpos := h.memory_pos
  have hsize := h.toNat_nodeSize
  have hfirst := h.freeNodes_eq hfree
  have hcount := h.count_eq (k := k) hempty
  have hlast := h.start_iff nodeCount
  generalize FixedAllocator.nodeSize l.objectSize l.alignment = nodeSize at *
  generalize alignPointer l.base l.alignment = memory at *
  cases k with
  | zero =>
    -- nothing is pushed
    obtain rfl : memory = 0 := hfirst.symm.trans hempty
    exact absurd (hmemory.symm.trans UInt64.toNat_zero) (by omega)
  | succ k =>
    -- the last that is pushed is the first node
    rw [FixedAllocator.pushAll_freeNodes] at hfirst
    rw [hfirst] at hfree
    have hnode (i : Nat) (hi : i ≤ k) :
        l.start nodeCount - UInt64.ofNat (k - i) * nodeSize =
          memory + UInt64.ofNat i * nodeSize := by
      obtain ⟨j, rfl⟩ := Nat.exists_eq_add_of_le hi
      rw [UInt64.ofNat_add, UInt64.ofNat_add, show UInt64.ofNat 1 = 1 from rfl] at hfirst
      rw [Nat.add_sub_cancel_left]
      grind
    have hbelow : l.start nodeCount - UInt64.ofNat (k + 1) * nodeSize = memory - nodeSize := by
      grind
    have hk := hcount (fun i hi h0 => ?_) hfree
    · have hpast := habove k (by omega)
      have hfirst' := hnode 0 (by omega)
      rw [Nat.sub_zero, show UInt64.ofNat 0 = 0 from rfl, UInt64.zero_mul, UInt64.add_zero]
        at hfirst'
      rw [hfirst', UInt64.lt_iff_toNat_lt, hmemory] at hpast
      rw [hbelow, UInt64.lt_iff_toNat_lt, UInt64.toNat_sub, hmemory, hsize] at hend
      refine ⟨hnonzero, hlast.mp ?_, fun hdvd => ?_, ?_⟩
      · rw [← hk]
        grind
      · have hself : l.memory = l.base.toNat := alignUp_eq_self h.alignment_pos hdvd
        omega
      · have hlt := nodeSize.toNat_lt
        omega
    · have hpast := habove (k - i) (by omega)
      rw [hnode i (by omega), h0] at hpast
      exact absurd hpast (UInt64.not_lt.mpr UInt64.zero_le)

end NodeLayout

/-! ## The constructor -/

namespace FixedAllocator

variable {π : Type} {p : Platform π} {nodeCount size objectSize alignment : UInt64}
  {bytes : Memory} {env : π}

/-- A constructor that claims its region and does not divide by zero runs the loop. -/
theorem create_eq (h : (NodeLayout.ofClaim p size objectSize alignment env).Valid)
    (hnonzero : nodeCount ≠ 0) (bytes : Memory) (fuel : Nat) : ∃ memoryRegion env',
      create p nodeCount fuel size objectSize alignment bytes env =
        (reserveNodes (NodeLayout.ofClaim p size objectSize alignment env).base
          (nodeSize objectSize alignment) fuel
          ((NodeLayout.ofClaim p size objectSize alignment env).start nodeCount)
          (⟨0, objectSize⟩, bytes)).map fun s => (s.1, s.2, memoryRegion, env') := by
  have hword : ¬ objectSize < sizeofFreeNode := UInt64.not_lt.mpr h.word
  have hbase : ((MemoryRegion.create size).claim p env).1 ≠ 0 := h.claimed
  unfold create
  dsimp only
  rw [if_neg hword, if_pos hbase, if_neg hnonzero]
  exact ⟨_, _, rfl⟩

/-- One that divides by zero has no defined behaviour. -/
theorem create_zero (h : (NodeLayout.ofClaim p size objectSize alignment env).Valid) (fuel : Nat) :
    create p 0 fuel size objectSize alignment bytes env = none := by
  have hword : ¬ objectSize < sizeofFreeNode := UInt64.not_lt.mpr h.word
  have hbase : ((MemoryRegion.create size).claim p env).1 ≠ 0 := h.claimed
  unfold create
  dsimp only
  rw [if_neg hword, if_pos hbase, if_pos rfl]

theorem constructs_of_startsAtLast
    (h : (NodeLayout.ofClaim p size objectSize alignment env).Valid)
    (hstart : (NodeLayout.ofClaim p size objectSize alignment env).StartsAtLast nodeCount) :
    Constructs p nodeCount size objectSize alignment bytes env := by
  obtain ⟨fuel, s', hreserve, hfree⟩ :=
    h.reserves hstart (s := (⟨0, objectSize⟩, bytes)) rfl
  obtain ⟨memoryRegion, env', hcreate⟩ := create_eq h hstart.nonzero bytes fuel
  refine ⟨fuel, s'.1, s'.2, memoryRegion, env', ?_, hfree, h.placed⟩
  rw [hcreate]
  exact congrArg (Option.map _) hreserve

theorem startsAtLast_of_constructs
    (h : (NodeLayout.ofClaim p size objectSize alignment env).Valid)
    (hconstructs : Constructs p nodeCount size objectSize alignment bytes env) :
    (NodeLayout.ofClaim p size objectSize alignment env).StartsAtLast nodeCount := by
  obtain ⟨fuel, a, bytes', memoryRegion, env', hcreate, hfree, -⟩ := hconstructs
  by_cases hnonzero : nodeCount = 0
  · rw [hnonzero, create_zero h] at hcreate
    exact absurd hcreate (by simp)
  · obtain ⟨memoryRegion', env'', heq⟩ := create_eq h hnonzero bytes fuel
    rw [heq] at hcreate
    obtain ⟨s', hreserve, hs'⟩ := Option.map_eq_some_iff.mp hcreate
    obtain ⟨rfl, hs''⟩ := Prod.mk.inj hs'
    obtain ⟨rfl, -⟩ := Prod.mk.inj hs''
    exact h.startsAtLast hnonzero (s := (⟨0, objectSize⟩, bytes)) rfl hreserve hfree

/-- **The free list is the nodes of the region iff** the loop happens to start at the last of them,
the base is not aligned, and the node size is not past the first node. -/
theorem constructs_iff (p : Platform π) (nodeCount size objectSize alignment : UInt64)
    (bytes : Memory) (env : π)
    (h : (NodeLayout.ofClaim p size objectSize alignment env).Valid) :
    Constructs p nodeCount size objectSize alignment bytes env ↔
      (NodeLayout.ofClaim p size objectSize alignment env).StartsAtLast nodeCount :=
  ⟨startsAtLast_of_constructs h, constructs_of_startsAtLast h⟩

/-- A region at `0x10000` with an alignment of `0x20000` has space for one node, which is past its
base. -/
theorem constructs_iff_unaligned :
    Constructs Platform.granting 0x20000 0x30000 8 0x20000 (fun _ => 0) () :=
  (constructs_iff Platform.granting 0x20000 0x30000 8 0x20000 (fun _ => 0) ()
    ⟨by decide, by decide, ⟨17, by decide⟩, by decide, by decide⟩).mpr
    ⟨by decide, by decide, by decide, by decide⟩

/-- **The first node is left out** of a region whose base is aligned, even if the local happens to
be the size of a node. -/
theorem not_constructs : ¬ ∀ (p : Platform Unit) (nodeCount size objectSize alignment : UInt64)
    (bytes : Memory) (env : Unit), (NodeLayout.ofClaim p size objectSize alignment env).Valid →
      Constructs p nodeCount size objectSize alignment bytes env := by
  intro hall
  have h : (NodeLayout.ofClaim Platform.granting 0x10000 16 16 ()).Valid :=
    ⟨by decide, by decide, ⟨4, by decide⟩, by decide, by decide⟩
  exact absurd (startsAtLast_of_constructs h
    (hall Platform.granting 16 0x10000 16 16 (fun _ => 0) () h)).unaligned (by decide)

end FixedAllocator

end Hologine.Memory
