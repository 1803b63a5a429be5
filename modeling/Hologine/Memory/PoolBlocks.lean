import Hologine.Memory.PoolLists

/-!
# The blocks of an arena

What an arena is like between calls when the blocks of it that are live are the first ones:
`ArenaState` says so of one arena, with the free node after its last live block, and `Blocks` of
all arenas that have an allocator.

* `ArenaState.takeNode`: `takeNode` hands out the block after the live ones, if there is room for
  what is left of the span beside it.
* `Blocks.occupy`: the block handed out was not live, and is.
* `Blocks.apart`: it overlaps no live block.
* `Blocks.write`: what a client writes in a live block changes no free node.
-/

namespace Hologine.Memory

open Hologine.Library MemoryArenaPool

/-- The size of the objects of an allocator, and how many it counts on having in an arena. -/
def PoolAllocator.sizes (a : PoolAllocator) : Nat × Nat :=
  (a.objectSize.toNat, a.objectCount.toNat)

/-! ## One arena -/

/-- **The first `k` blocks of an arena are live**: its free node is the block after them, unless
they are all there are. -/
structure ArenaState (pool : MemoryArenaPool) (m : Memory) (size count i k : Nat) : Prop where
  counted : k + (pool.record i).freeNodeCount.toNat = count
  fits : k * size ≤ pool.arenaSize.toNat
  full : k = count → (pool.record i).freeNodeList = 0
  room : k < count → (k + 1) * size ≤ pool.arenaSize.toNat
  list : k < count → (pool.record i).freeNodeList.toNat = pool.arenaBase i + k * size
  next : k < count →
    (nodeNext m (pool.record i).freeNodeList).toNat = pool.arenaBase i + (k - 1) * size
  previous : k < count → (nodePrevious m (pool.record i).freeNodeList).toNat = pool.arenaBase i
  span : k < count → (nodeSize m (pool.record i).freeNodeList).toNat = count - k

/-- **The free node of an arena is its block `k`**, a span of all the blocks from there on, be there
room for them or not. -/
structure SpanAt (pool : MemoryArenaPool) (m : Memory) (size count i k : Nat) : Prop where
  counted : k + (pool.record i).freeNodeCount.toNat = count
  list : (pool.record i).freeNodeList.toNat = pool.arenaBase i + k * size
  next : (nodeNext m (pool.record i).freeNodeList).toNat = pool.arenaBase i + (k - 1) * size
  previous : (nodePrevious m (pool.record i).freeNodeList).toNat = pool.arenaBase i
  span : (nodeSize m (pool.record i).freeNodeList).toNat = count - k

variable {pool pool' : MemoryArenaPool} {m m' : Memory} {size count i j k : Nat}

theorem ArenaState.spanAt (h : ArenaState pool m size count i k) (hk : k < count) :
    SpanAt pool m size count i k :=
  ⟨h.counted, h.list hk, h.next hk, h.previous hk, h.span hk⟩

theorem nodeNext_congr {node : UInt64}
    (h : ∀ x, node.toNat ≤ x → x < node.toNat + 24 → m' x = m x) :
    nodeNext m' node = nodeNext m node :=
  Memory.load64_congr fun x _ _ => h x (by omega) (by omega)

theorem nodePrevious_congr {node : UInt64}
    (h : ∀ x, node.toNat ≤ x → x < node.toNat + 24 → m' x = m x) :
    nodePrevious m' node = nodePrevious m node :=
  Memory.load64_congr fun x _ _ => h x (by omega) (by omega)

theorem nodeSize_congr {node : UInt64}
    (h : ∀ x, node.toNat ≤ x → x < node.toNat + 24 → m' x = m x) :
    nodeSize m' node = nodeSize m node :=
  Memory.load64_congr fun x _ _ => h x (by omega) (by omega)

namespace ArenaState

/-- The state of an arena is in its record and in its free node. -/
theorem congr (h : ArenaState pool m size count i k)
    (hcount : (pool'.record i).freeNodeCount = (pool.record i).freeNodeCount)
    (hlist : (pool'.record i).freeNodeList = (pool.record i).freeNodeList)
    (hpool : pool'.arenaPool = pool.arenaPool) (hsize : pool'.arenaSize = pool.arenaSize)
    (hm : k < count → ∀ x, pool.arenaBase i + k * size ≤ x →
      x < pool.arenaBase i + k * size + 24 → m' x = m x) :
    ArenaState pool' m' size count i k := by
  have hbase : pool'.arenaBase i = pool.arenaBase i := by rw [arenaBase, hpool, hsize, arenaBase]
  have hnode : k < count → ∀ x, (pool.record i).freeNodeList.toNat ≤ x →
      x < (pool.record i).freeNodeList.toNat + 24 → m' x = m x := by
    intro hk
    rw [h.list hk]
    exact hm hk
  constructor
  · rw [hcount]
    exact h.counted
  · rw [hsize]
    exact h.fits
  · rw [hlist]
    exact h.full
  · rw [hsize]
    exact h.room
  · rw [hlist, hbase]
    exact h.list
  · intro hk
    rw [hlist, hbase, nodeNext_congr (hnode hk)]
    exact h.next hk
  · intro hk
    rw [hlist, hbase, nodePrevious_congr (hnode hk)]
    exact h.previous hk
  · intro hk
    rw [hlist, nodeSize_congr (hnode hk)]
    exact h.span hk

end ArenaState

/-! ## Taking a node -/

theorem setNode_eq {offset : Nat} {node : UInt64} (h : node.toNat ≠ 0) (value : UInt64)
    (m : Memory) :
    setNode offset node value m = some (m.store64 (node.toNat + offset) value) := by
  refine if_neg fun hnull => h ?_
  rw [hnull, UInt64.toNat_zero]

/-- The memory after a node is taken from a span, and what is left of the span is the next node. -/
def splitMemory (m : Memory) (node next previous size : UInt64) : Memory :=
  (((m.store64 (next.toNat + 16) size).store64 (next.toNat + 0) node).store64 (next.toNat + 8)
    previous).store64 (previous.toNat + 0) next

/-- The memory after a node is taken. -/
@[irreducible] def PoolAllocator.takenMemory (a : PoolAllocator) (m : Memory) (node : UInt64) : Memory :=
  if nodeSize m node > 1 then
    splitMemory m node (node + a.objectSize) (nodePrevious m node) (nodeSize m node - 1)
  else m.store64 ((nodeNext m node).toNat + 8) (nodePrevious m node)

section Take

variable {π : Type} {a : PoolAllocator} {node next previous left : UInt64} {env : π}

theorem splitMemory_of_outside {b e x : Nat} (hnext : b ≤ next.toNat) (hend : next.toNat + 24 ≤ e)
    (hprevious : b ≤ previous.toNat) (hend' : previous.toNat + 24 ≤ e) (hx : x < b ∨ e ≤ x) :
    splitMemory m node next previous left x = m x := by
  unfold splitMemory
  rw [Memory.store64_apply_of_outside (by omega), Memory.store64_apply_of_outside (by omega),
    Memory.store64_apply_of_outside (by omega), Memory.store64_apply_of_outside (by omega)]

/-- The next node is linked to the one taken, and has what is left. -/
theorem splitMemory_next (m : Memory) (node left : UInt64) (h : previous.toNat + 24 ≤ next.toNat) :
    nodeNext (splitMemory m node next previous left) next = node ∧
      nodePrevious (splitMemory m node next previous left) next = previous ∧
      nodeSize (splitMemory m node next previous left) next = left := by
  unfold splitMemory nodeNext nodePrevious nodeSize
  refine ⟨?_, ?_, ?_⟩
  · rw [Memory.load64_store64_of_disjoint (by omega), Memory.load64_store64_of_disjoint (by omega)]
    exact Memory.load64_store64 ..
  · rw [Memory.load64_store64_of_disjoint (by omega)]
    exact Memory.load64_store64 ..
  · rw [Memory.load64_store64_of_disjoint (by omega), Memory.load64_store64_of_disjoint (by omega),
      Memory.load64_store64_of_disjoint (by omega)]
    exact Memory.load64_store64 ..

/-- `takeNode` where the node is a span of more than one block. -/
theorem takeNode_split (env : π) (harena : pool.getArena node = some i) (hi : i < pool.capacity)
    (hmore : nodeSize m node > 1) (hcount : (pool.record i).freeNodeCount ≠ 0)
    (hnext : (node + a.objectSize).toNat = node.toNat + a.objectSize.toNat)
    (hsize : 24 ≤ a.objectSize.toNat) (hprevious : (nodePrevious m node).toNat ≠ 0) :
    a.takeNode node ⟨pool, m, env⟩ = some (node, ⟨pool.set i { pool.record i with
      freeNodeList := node + a.objectSize }, splitMemory m node (node + a.objectSize)
        (nodePrevious m node) (nodeSize m node - 1), env⟩) := by
  have hnull : (node + a.objectSize).toNat ≠ 0 := by omega
  have hread : nodePrevious ((m.store64 ((node + a.objectSize).toNat + 16)
      (nodeSize m node - 1)).store64 ((node + a.objectSize).toNat + 0) node) node =
        nodePrevious m node := by
    unfold nodePrevious
    rw [Memory.load64_store64_of_disjoint (by omega), Memory.load64_store64_of_disjoint (by omega)]
  have hread' : nodePrevious (((m.store64 ((node + a.objectSize).toNat + 16)
      (nodeSize m node - 1)).store64 ((node + a.objectSize).toNat + 0) node).store64
        ((node + a.objectSize).toNat + 8) (nodePrevious m node)) node = nodePrevious m node := by
    refine Eq.trans ?_ hread
    unfold nodePrevious
    rw [Memory.load64_store64_of_disjoint (by omega)]
  unfold PoolAllocator.takeNode
  simp only [harena, hmore, if_true, setNodeSize, setNodeNext, setNodePrevious, setNode_eq hnull,
    hread, hread', getRecord_eq hi, hcount, if_false, setNode_eq hprevious, modifyRecord_eq hi,
    Option.bind_eq_bind, Option.bind_some]
  rfl

/-- `takeNode` where the node is the last. -/
theorem takeNode_last (a : PoolAllocator) (env : π) (harena : pool.getArena node = some i)
    (hi : i < pool.capacity) (hlast : ¬ nodeSize m node > 1)
    (hcount : (pool.record i).freeNodeCount = 0) (hnext : (nodeNext m node).toNat ≠ 0) :
    a.takeNode node ⟨pool, m, env⟩ = some (node, ⟨pool.set i { pool.record i with
      freeNodeList := 0 }, m.store64 ((nodeNext m node).toNat + 8) (nodePrevious m node),
        env⟩) := by
  unfold PoolAllocator.takeNode
  simp only [harena, hlast, if_false, setNodePrevious, setNode_eq hnext, getRecord_eq hi, hcount,
    if_true, modifyRecord_eq hi, Option.bind_eq_bind, Option.bind_some]

/-- A node of an arena is counted as taken. -/
theorem toNat_counted {r : ArenaRecord} (h : k + r.freeNodeCount.toNat = count) (hk : k < count) :
    k + 1 + r.counted.freeNodeCount.toNat = count := by
  have hless : r.counted.freeNodeCount.toNat = r.freeNodeCount.toNat - 1 :=
    Bits.toNat_sub_one (by omega)
  omega

namespace SpanAt

/-- The free node of an arena is in it. -/
theorem getArena_list (h : SpanAt pool m size count i k) (hg : pool.Geometry)
    (hi : i < pool.arenaCount.toNat) (hsize : 24 ≤ size)
    (hroom : (k + 1) * size ≤ pool.arenaSize.toNat) (r : ArenaRecord) :
    (pool.set i r).getArena (pool.record i).freeNodeList = some i := by
  have hnode := h.list
  rw [Nat.succ_mul] at hroom
  exact hg.getArena_eq hi (by omega) (by omega)

/-- **The first block of the span is taken**, and the span is from the block after it, which need
not be in the arena. -/
theorem takeNode (h : SpanAt pool m a.objectSize.toNat a.objectCount.toNat i k)
    (hg : pool.Geometry) (hi : i < pool.arenaCount.toNat) (hsize : 24 ≤ a.objectSize.toNat)
    (hk : k + 1 < a.objectCount.toNat)
    (hroom : (k + 1) * a.objectSize.toNat ≤ pool.arenaSize.toNat) (env : π) :
    ∃ list, a.takeNode (pool.record i).freeNodeList
        ⟨pool.set i (pool.record i).counted, m, env⟩ = some ((pool.record i).freeNodeList,
          ⟨pool.set i { (pool.record i).counted with freeNodeList := list },
            a.takenMemory m (pool.record i).freeNodeList, env⟩) ∧
      SpanAt (pool.set i { (pool.record i).counted with freeNodeList := list })
        (a.takenMemory m (pool.record i).freeNodeList) a.objectSize.toNat a.objectCount.toNat i
          (k + 1) ∧
      ∀ x, x < pool.arenaBase i ∨
        pool.arenaBase i + (k + 1) * a.objectSize.toNat + 24 ≤ x →
          a.takenMemory m (pool.record i).freeNodeList x = m x := by
  have hcapacity := hg.lt_capacity hi
  have hcapacity' : i < (pool.set i (pool.record i).counted).capacity := by
    rw [capacity_set]
    exact hcapacity
  have hset := record_set_self hcapacity
  have harena := h.getArena_list hg hi hsize hroom (pool.record i).counted
  -- the sizes, in multiples of the object size
  have hbase : 0 < pool.arenaBase i := Nat.lt_of_lt_of_le hg.positive (Nat.le_add_right _ _)
  have hend := hg.arenaEnd_lt hi
  have hnode := h.list
  have hprevious := h.previous
  have hcounted := toNat_counted h.counted (Nat.lt_of_succ_lt hk)
  rw [Nat.succ_mul] at hroom
  have hnext : ((pool.record i).freeNodeList + a.objectSize).toNat =
      (pool.record i).freeNodeList.toNat + a.objectSize.toNat := by
    rw [UInt64.toNat_add, Nat.mod_eq_of_lt (by omega)]
  have hspan : nodeSize m (pool.record i).freeNodeList > 1 := by
    rw [gt_iff_lt, UInt64.lt_iff_toNat_lt, UInt64.toNat_one, h.span]
    omega
  have hleft : (nodeSize m (pool.record i).freeNodeList - 1).toNat =
      a.objectCount.toNat - (k + 1) := by
    rw [UInt64.toNat_sub_of_le _ _ (UInt64.le_of_lt hspan), h.span, UInt64.toNat_one]
    omega
  have hcount : ((pool.set i (pool.record i).counted).record i).freeNodeCount ≠ 0 := by
    rw [hset]
    intro hzero
    rw [hzero, UInt64.toNat_zero] at hcounted
    omega
  have hafter : (nodePrevious m (pool.record i).freeNodeList).toNat + 24 ≤
      ((pool.record i).freeNodeList + a.objectSize).toNat := by omega
  obtain ⟨hnextNode, hpreviousNode, hspanNode⟩ := splitMemory_next m
    (pool.record i).freeNodeList (nodeSize m (pool.record i).freeNodeList - 1) hafter
  have hrun := takeNode_split env harena hcapacity' hspan hcount hnext hsize (by omega)
  rw [hset, set_set] at hrun
  rw [PoolAllocator.takenMemory, if_pos hspan]
  refine ⟨_, hrun, ⟨?_, ?_, ?_, ?_, ?_⟩, fun x hx => ?_⟩
  · rw [hset]
    exact hcounted
  · rw [hset, Nat.succ_mul]
    show ((pool.record i).freeNodeList + a.objectSize).toNat = pool.arenaBase i + _
    omega
  · rw [hset]
    exact (congrArg UInt64.toNat hnextNode).trans hnode
  · rw [hset]
    exact (congrArg UInt64.toNat hpreviousNode).trans hprevious
  · rw [hset]
    exact (congrArg UInt64.toNat hspanNode).trans hleft
  · rw [Nat.succ_mul] at hx
    exact splitMemory_of_outside (b := pool.arenaBase i)
      (e := pool.arenaBase i + (k * a.objectSize.toNat + a.objectSize.toNat) + 24) (by omega)
        (by omega) (by omega) (by omega) hx

end SpanAt

namespace ArenaState

/-- **The block after the live ones is handed out**, and the next node is the block after it. -/
theorem takeNode_next (h : ArenaState pool m a.objectSize.toNat a.objectCount.toNat i k)
    (hg : pool.Geometry) (hi : i < pool.arenaCount.toNat) (hsize : 24 ≤ a.objectSize.toNat)
    (hk : k + 1 < a.objectCount.toNat)
    (hfit : (k + 2) * a.objectSize.toNat ≤ pool.arenaSize.toNat) (env : π) :
    ∃ list, a.takeNode (pool.record i).freeNodeList
        ⟨pool.set i (pool.record i).counted, m, env⟩ = some ((pool.record i).freeNodeList,
          ⟨pool.set i { (pool.record i).counted with freeNodeList := list },
            a.takenMemory m (pool.record i).freeNodeList, env⟩) ∧
      ArenaState (pool.set i { (pool.record i).counted with freeNodeList := list })
        (a.takenMemory m (pool.record i).freeNodeList) a.objectSize.toNat a.objectCount.toNat i
          (k + 1) ∧
      ∀ x, x < pool.arenaBase i ∨ pool.arenaBase i + pool.arenaSize.toNat ≤ x →
        a.takenMemory m (pool.record i).freeNodeList x = m x := by
  have hlt : k < a.objectCount.toNat := Nat.lt_of_succ_lt hk
  have hroom := h.room hlt
  obtain ⟨list, hrun, hspan, hm⟩ := (h.spanAt hlt).takeNode hg hi hsize hk hroom env
  have hfit' : (k + 1) * a.objectSize.toNat + a.objectSize.toNat ≤ pool.arenaSize.toNat := by
    rwa [← Nat.succ_mul]
  refine ⟨list, hrun, ⟨hspan.counted, hroom, fun heq => absurd heq (Nat.ne_of_lt hk), fun _ => hfit,
    fun _ => hspan.list, fun _ => hspan.next, fun _ => hspan.previous, fun _ => hspan.span⟩,
    fun x hx => hm x ?_⟩
  omega

/-- **The last block of an arena is handed out.** -/
theorem takeNode_full (h : ArenaState pool m a.objectSize.toNat a.objectCount.toNat i k)
    (hg : pool.Geometry) (hi : i < pool.arenaCount.toNat) (hsize : 24 ≤ a.objectSize.toNat)
    (hk : k < a.objectCount.toNat) (hlast : ¬ k + 1 < a.objectCount.toNat) (env : π) :
    a.takeNode (pool.record i).freeNodeList
        ⟨pool.set i (pool.record i).counted, m, env⟩ = some ((pool.record i).freeNodeList,
          ⟨pool.set i { (pool.record i).counted with freeNodeList := 0 },
            a.takenMemory m (pool.record i).freeNodeList, env⟩) ∧
      ArenaState (pool.set i { (pool.record i).counted with freeNodeList := 0 })
        (a.takenMemory m (pool.record i).freeNodeList) a.objectSize.toNat a.objectCount.toNat i
          (k + 1) ∧
      ∀ x, x < pool.arenaBase i ∨ pool.arenaBase i + pool.arenaSize.toNat ≤ x →
        a.takenMemory m (pool.record i).freeNodeList x = m x := by
  have hcapacity := hg.lt_capacity hi
  have hcapacity' : i < (pool.set i (pool.record i).counted).capacity := by
    rw [capacity_set]
    exact hcapacity
  have hset := record_set_self hcapacity
  have hbase : 0 < pool.arenaBase i := Nat.lt_of_lt_of_le hg.positive (Nat.le_add_right _ _)
  have hroom := h.room hk
  have hback : (k - 1) * a.objectSize.toNat ≤ k * a.objectSize.toNat :=
    Nat.mul_le_mul_right _ (Nat.sub_le k 1)
  have hnext := h.next hk
  have hcounted := toNat_counted h.counted hk
  have hspan : ¬ nodeSize m (pool.record i).freeNodeList > 1 := by
    rw [gt_iff_lt, UInt64.lt_iff_toNat_lt, UInt64.toNat_one, h.span hk]
    omega
  have hcount : ((pool.set i (pool.record i).counted).record i).freeNodeCount = 0 := by
    rw [hset, ← UInt64.toNat_inj, UInt64.toNat_zero]
    omega
  have hrun := takeNode_last a env ((h.spanAt hk).getArena_list hg hi hsize hroom _) hcapacity'
    hspan hcount (by omega)
  rw [hset, set_set] at hrun
  rw [PoolAllocator.takenMemory, if_neg hspan]
  refine ⟨hrun, ⟨?_, hroom, fun _ => ?_, fun hlt => absurd hlt hlast,
    fun hlt => absurd hlt hlast, fun hlt => absurd hlt hlast, fun hlt => absurd hlt hlast,
    fun hlt => absurd hlt hlast⟩, fun x hx => ?_⟩
  · rw [hset]
    exact hcounted
  · rw [hset]
  · rw [Nat.succ_mul] at hroom
    exact Memory.store64_apply_of_outside (by omega)

/-- **A block of an arena is handed out**, and nothing changes outside the arena. -/
theorem takeNode (h : ArenaState pool m a.objectSize.toNat a.objectCount.toNat i k)
    (hg : pool.Geometry) (hi : i < pool.arenaCount.toNat) (hsize : 24 ≤ a.objectSize.toNat)
    (hk : k < a.objectCount.toNat)
    (hsplits : k + 1 < a.objectCount.toNat →
      (k + 2) * a.objectSize.toNat ≤ pool.arenaSize.toNat) (env : π) :
    ∃ list, a.takeNode (pool.record i).freeNodeList
        ⟨pool.set i (pool.record i).counted, m, env⟩ = some ((pool.record i).freeNodeList,
          ⟨pool.set i { (pool.record i).counted with freeNodeList := list },
            a.takenMemory m (pool.record i).freeNodeList, env⟩) ∧
      ArenaState (pool.set i { (pool.record i).counted with freeNodeList := list })
        (a.takenMemory m (pool.record i).freeNodeList) a.objectSize.toNat a.objectCount.toNat i
          (k + 1) ∧
      ∀ x, x < pool.arenaBase i ∨ pool.arenaBase i + pool.arenaSize.toNat ≤ x →
        a.takenMemory m (pool.record i).freeNodeList x = m x := by
  by_cases hmore : k + 1 < a.objectCount.toNat
  · exact h.takeNode_next hg hi hsize hmore (hsplits hmore) env
  · exact ⟨0, h.takeNode_full hg hi hsize hk hmore env⟩

end ArenaState

end Take

/-! ## A new span -/

/-- The memory after an arena is made one span of free blocks. -/
def spanMemory (m : Memory) (node size : UInt64) : Memory :=
  ((m.store64 (node.toNat + 16) size).store64 (node.toNat + 0) node).store64 (node.toNat + 8) node

theorem spanMemory_of_outside {node span : UInt64} {x : Nat}
    (hx : x < node.toNat ∨ node.toNat + 24 ≤ x) : spanMemory m node span x = m x := by
  unfold spanMemory
  rw [Memory.store64_apply_of_outside (by omega), Memory.store64_apply_of_outside (by omega),
    Memory.store64_apply_of_outside (by omega)]

/-- The span is linked to itself. -/
theorem spanMemory_node (m : Memory) (node span : UInt64) :
    nodeNext (spanMemory m node span) node = node ∧
      nodePrevious (spanMemory m node span) node = node ∧
      nodeSize (spanMemory m node span) node = span := by
  unfold spanMemory nodeNext nodePrevious nodeSize
  refine ⟨?_, Memory.load64_store64 .., ?_⟩
  · rw [Memory.load64_store64_of_disjoint (by omega)]
    exact Memory.load64_store64 ..
  · rw [Memory.load64_store64_of_disjoint (by omega), Memory.load64_store64_of_disjoint (by omega)]
    exact Memory.load64_store64 ..

/-- An arena that is one span. -/
theorem SpanAt.spanned (hg : pool.Geometry) (hi : i < pool.arenaCount.toNat) {span : UInt64}
    (hcount : (pool.record i).freeNodeCount = span)
    (hlist : (pool.record i).freeNodeList = (pool.record i).base) :
    SpanAt pool (spanMemory m (pool.record i).base span) size span.toNat i 0 := by
  obtain ⟨hnext, hprevious, hspan⟩ := spanMemory_node m (pool.record i).base span
  have hbase := hg.base i hi
  refine ⟨?_, ?_, ?_, ?_, ?_⟩
  · rw [hcount, Nat.zero_add]
  · rw [hlist, Nat.zero_mul]
    exact hbase
  · rw [hlist, hnext, Nat.zero_sub, Nat.zero_mul]
    exact hbase
  · rw [hlist, hprevious]
    exact hbase
  · rw [hlist, hspan, Nat.sub_zero]

/-- **An arena that is one span** has no live block. -/
theorem ArenaState.spanned (hg : pool.Geometry) (hi : i < pool.arenaCount.toNat) {span : UInt64}
    (hcount : (pool.record i).freeNodeCount = span)
    (hlist : (pool.record i).freeNodeList = (pool.record i).base) (hpos : 0 < span.toNat)
    (hsize : size ≤ pool.arenaSize.toNat) :
    ArenaState pool (spanMemory m (pool.record i).base span) size span.toNat i 0 := by
  have h : SpanAt pool (spanMemory m (pool.record i).base span) size span.toNat i 0 :=
    .spanned hg hi hcount hlist
  refine ⟨h.counted, ?_, fun hzero => absurd hzero (Nat.ne_of_lt hpos), fun _ => ?_,
    fun _ => h.list, fun _ => h.next, fun _ => h.previous, fun _ => h.span⟩
  · rw [Nat.zero_mul]
    exact Nat.zero_le _
  · rw [Nat.zero_add, Nat.one_mul]
    exact hsize

/-! ## All arenas -/

/-- A block of an arena is one of its first, which are live. -/
def OccupiedAt (pool : MemoryArenaPool) (sizes : UInt64 → Option (Nat × Nat)) (i : Nat)
    (block self : UInt64) : Prop :=
  (pool.record i).allocator = self ∧ self ≠ 0 ∧ ∃ size count j, sizes self = some (size, count) ∧
    j + (pool.record i).freeNodeCount.toNat < count ∧
      block.toNat = pool.arenaBase i + j * size

/-- **The arenas that have an allocator have their first blocks live**, none of them no block but
one that was just taken, and these are the live blocks. -/
structure Blocks (pool : MemoryArenaPool) (m : Memory) (sizes : UInt64 → Option (Nat × Nat))
    (live : UInt64 → Option UInt64) (fresh : Option Nat) : Prop where
  arena : ∀ i < pool.arenaCount.toNat, (pool.record i).allocator ≠ 0 → ∃ size count k,
    sizes (pool.record i).allocator = some (size, count) ∧ ArenaState pool m size count i k ∧
      (k = 0 → fresh = some i)
  live : ∀ block self, live block = some self ↔
    ∃ i < pool.arenaCount.toNat, OccupiedAt pool sizes i block self

variable {sizes : UInt64 → Option (Nat × Nat)} {live live' : UInt64 → Option UInt64}
  {fresh fresh' : Option Nat} {block self : UInt64}

/-- Two pools have the same state of an arena in its record. -/
def SameArena (pool pool' : MemoryArenaPool) (i : Nat) : Prop :=
  (pool'.record i).allocator = (pool.record i).allocator ∧
    (pool'.record i).freeNodeCount = (pool.record i).freeNodeCount ∧
      (pool'.record i).freeNodeList = (pool.record i).freeNodeList

/-- Two pools have their arenas at the same places. -/
def SamePlaces (pool pool' : MemoryArenaPool) : Prop :=
  pool'.arenaPool = pool.arenaPool ∧ pool'.arenaSize = pool.arenaSize

theorem SamePlaces.arenaBase_eq (h : SamePlaces pool pool') (i : Nat) :
    pool'.arenaBase i = pool.arenaBase i := by
  rw [arenaBase, h.1, h.2, arenaBase]

theorem SameArena.trans {pool₁ : MemoryArenaPool} (h : SameArena pool pool₁ i)
    (h' : SameArena pool₁ pool' i) : SameArena pool pool' i :=
  ⟨h'.1.trans h.1, h'.2.1.trans h.2.1, h'.2.2.trans h.2.2⟩

theorem SameArena.relinked {pool₁ : MemoryArenaPool} (h : SameArena pool pool₁ i)
    (hrelinked : Relinked pool₁ pool') : SameArena pool pool' i :=
  ⟨(hrelinked.allocator i).trans h.1, (hrelinked.freeNodeCount i).trans h.2.1,
    (hrelinked.freeNodeList i).trans h.2.2⟩

theorem OccupiedAt.congr (hplaces : SamePlaces pool pool') (hsame : SameArena pool pool' i) :
    OccupiedAt pool' sizes i block self ↔ OccupiedAt pool sizes i block self := by
  unfold OccupiedAt
  rw [hsame.1, hsame.2.1, hplaces.arenaBase_eq]

namespace Blocks

/-- A live block ends in its arena. -/
theorem within (hb : Blocks pool m sizes live fresh) (hi : i < pool.arenaCount.toNat)
    (hself : (pool.record i).allocator ≠ 0)
    (hsizes : sizes (pool.record i).allocator = some (size, count))
    (hj : j + (pool.record i).freeNodeCount.toNat < count) :
    j * size + size ≤ pool.arenaSize.toNat := by
  obtain ⟨size', count', k, hsizes', hstate, -⟩ := hb.arena i hi hself
  obtain ⟨rfl, rfl⟩ := Prod.mk.inj (Option.some.inj (hsizes'.symm.trans hsizes))
  have hcounted := hstate.counted
  have hle : (j + 1) * size' ≤ k * size' := Nat.mul_le_mul_right _ (by omega)
  rw [Nat.succ_mul] at hle
  exact Nat.le_trans hle hstate.fits

/-- A block is in one arena only. -/
theorem occupied_unique (hb : Blocks pool m sizes live fresh)
    (hsize : ∀ self size count, sizes self = some (size, count) → 24 ≤ size)
    (hi : i < pool.arenaCount.toNat) (hj : j < pool.arenaCount.toNat) {self' : UInt64}
    (h : OccupiedAt pool sizes i block self) (h' : OccupiedAt pool sizes j block self') :
    i = j := by
  obtain ⟨rfl, hself, size, count, k, hsizes, hk, hblock⟩ := h
  obtain ⟨rfl, hself', size', count', k', hsizes', hk', hblock'⟩ := h'
  by_contra hne
  have hin := hb.within hi hself hsizes hk
  have hin' := hb.within hj hself' hsizes' hk'
  have hpos := hsize _ _ _ hsizes
  have hpos' := hsize _ _ _ hsizes'
  rcases arenas_apart pool hne with h | h
  · omega
  · omega

/-- **What is done in one arena**: the others stay as they are, and so do their live blocks. -/
theorem change (hb : Blocks pool m sizes live fresh)
    (hsize : ∀ self size count, sizes self = some (size, count) → 24 ≤ size)
    (hi : i < pool.arenaCount.toNat) (hplaces : SamePlaces pool pool')
    (hcount : pool'.arenaCount = pool.arenaCount)
    (hsame : ∀ j, j ≠ i → SameArena pool pool' j)
    (hm : ∀ x, x < pool.arenaBase i ∨ pool.arenaBase i + pool.arenaSize.toNat ≤ x → m' x = m x)
    (hfresh : ∀ j, fresh = some j → j = i)
    (harena : (pool'.record i).allocator ≠ 0 → ∃ size count k,
      sizes (pool'.record i).allocator = some (size, count) ∧ ArenaState pool' m' size count i k ∧
        (k = 0 → fresh' = some i))
    (hlive : ∀ block self, live' block = some self ↔
      (live block = some self ∧ ¬ OccupiedAt pool sizes i block self) ∨
        OccupiedAt pool' sizes i block self) :
    Blocks pool' m' sizes live' fresh' := by
  constructor
  · intro j hj hself
    by_cases heq : j = i
    · subst heq
      exact harena hself
    · obtain ⟨hallocator, hnodes, hlist⟩ := hsame j heq
      rw [hcount] at hj
      rw [hallocator] at hself ⊢
      obtain ⟨size, count, k, hsizes, hstate, hk⟩ := hb.arena j hj hself
      refine ⟨size, count, k, hsizes, hstate.congr hnodes hlist hplaces.1 hplaces.2 ?_,
        fun hzero => absurd (hfresh j (hk hzero)) heq⟩
      intro hlt x hx hx'
      have hroom := hstate.room hlt
      have hpos := hsize _ _ _ hsizes
      rw [Nat.succ_mul] at hroom
      refine hm x ?_
      rcases arenas_apart pool heq with h | h
      · exact .inl (by omega)
      · exact .inr (by omega)
  · intro block self
    rw [hlive, hcount]
    constructor
    · rintro (⟨hblock, hnot⟩ | hat)
      · obtain ⟨j, hj, hat⟩ := (hb.live block self).mp hblock
        have heq : j ≠ i := by
          rintro rfl
          exact hnot hat
        exact ⟨j, hj, (OccupiedAt.congr hplaces (hsame j heq)).mpr hat⟩
      · exact ⟨i, hi, hat⟩
    · rintro ⟨j, hj, hat⟩
      by_cases heq : j = i
      · subst heq
        exact .inr hat
      · have hat' := (OccupiedAt.congr hplaces (hsame j heq)).mp hat
        refine .inl ⟨(hb.live block self).mpr ⟨j, hj, hat'⟩, fun hat'' => heq ?_⟩
        exact hb.occupied_unique hsize hj hi hat' hat''

/-- Records that keep their states, and arenas that keep their places. -/
theorem of_same (hb : Blocks pool m sizes live fresh) (hplaces : SamePlaces pool pool')
    (hcount : pool'.arenaCount = pool.arenaCount) (hsame : ∀ j, SameArena pool pool' j) :
    Blocks pool' m sizes live fresh := by
  constructor
  · intro i hi hself
    obtain ⟨hallocator, hnodes, hlist⟩ := hsame i
    rw [hcount] at hi
    rw [hallocator] at hself ⊢
    obtain ⟨size, count, k, hsizes, hstate, hk⟩ := hb.arena i hi hself
    exact ⟨size, count, k, hsizes,
      hstate.congr hnodes hlist hplaces.1 hplaces.2 fun _ _ _ _ => rfl, hk⟩
  · intro block self
    rw [hb.live, hcount]
    exact exists_congr fun i => and_congr_right fun _ => (OccupiedAt.congr hplaces (hsame i)).symm

/-- An arena more, without an allocator. -/
theorem grown (hb : Blocks pool m sizes live fresh) (hg : pool.Geometry)
    (h : Grown pool pool') : Blocks pool' m sizes live fresh := by
  cases h with
  | region region => exact hb.of_same ⟨rfl, rfl⟩ rfl fun _ => ⟨rfl, rfl, rfl⟩
  | arena region hlt =>
    have hrecord := hg.record_withArena hlt region
    have hcount := toNat_arenaCount_withArena hlt region
    have hplaces : SamePlaces pool (pool.withArena region) := ⟨rfl, rfl⟩
    have hsame : ∀ j, SameArena pool (pool.withArena region) j := by
      intro j
      unfold SameArena
      rw [hrecord]
      by_cases heq : j = pool.arenaCount.toNat
      · rw [heq, Function.update_self]
        exact ⟨rfl, rfl, rfl⟩
      · rw [Function.update_of_ne heq]
        exact ⟨rfl, rfl, rfl⟩
    have hnew : (pool.record pool.arenaCount.toNat).allocator = 0 := by
      rw [hg.zero _ (Nat.le_refl _)]
      rfl
    have hold : ∀ i < (pool.withArena region).arenaCount.toNat,
        (pool.record i).allocator ≠ 0 → i < pool.arenaCount.toNat := by
      intro i hi hself
      rw [hcount] at hi
      refine Nat.lt_of_le_of_ne (Nat.lt_succ_iff.mp hi) ?_
      rintro rfl
      exact hself hnew
    constructor
    · intro i hi hself
      obtain ⟨hallocator, hnodes, hlist⟩ := hsame i
      rw [hallocator] at hself ⊢
      obtain ⟨size, count, k, hsizes, hstate, hk⟩ := hb.arena i (hold i hi hself) hself
      exact ⟨size, count, k, hsizes, hstate.congr hnodes hlist rfl rfl fun _ _ _ _ => rfl, hk⟩
    · intro block self
      rw [hb.live]
      constructor
      · rintro ⟨i, hi, hat⟩
        exact ⟨i, by omega, (OccupiedAt.congr hplaces (hsame i)).mpr hat⟩
      · rintro ⟨i, hi, hat⟩
        have hat' := (OccupiedAt.congr hplaces (hsame i)).mp hat
        obtain ⟨rfl, hself, -⟩ := id hat'
        exact ⟨i, hold i hi hself, hat'⟩

/-- **The block after the live ones of an arena overlaps no live block.** -/
theorem apart (hb : Blocks pool m sizes live fresh)
    (hsize : ∀ self size count, sizes self = some (size, count) → 24 ≤ size)
    (hallocator : (pool.record i).allocator = self) (hsizes : sizes self = some (size, count))
    (hstate : ArenaState pool m size count i k) (hk : k < count)
    (hblock : block.toNat = pool.arenaBase i + k * size) {other self' : UInt64} {size' count' : Nat}
    (hlive : live other = some self') (hsizes' : sizes self' = some (size', count')) :
    block.toNat + size ≤ other.toNat ∨ other.toNat + size' ≤ block.toNat := by
  obtain ⟨j, hj, rfl, hne, size'', count'', l, hsizes'', hl, hb'⟩ := (hb.live other self').mp hlive
  obtain ⟨rfl, rfl⟩ := Prod.mk.inj (Option.some.inj (hsizes'.symm.trans hsizes''))
  have hin := hb.within hj hne hsizes' hl
  have hroom := hstate.room hk
  have hcounted := hstate.counted
  have hpos := hsize _ _ _ hsizes
  have hpos' := hsize _ _ _ hsizes'
  rw [Nat.succ_mul] at hroom
  by_cases heq : j = i
  · subst heq
    rw [hallocator] at hsizes'
    obtain ⟨rfl, rfl⟩ := Prod.mk.inj (Option.some.inj (hsizes.symm.trans hsizes'))
    have hle : (l + 1) * size ≤ k * size := Nat.mul_le_mul_right _ (by omega)
    rw [Nat.succ_mul] at hle
    exact .inr (by omega)
  · rcases arenas_apart pool heq with h | h
    · exact .inr (by omega)
    · exact .inl (by omega)

/-- **A block that is handed out** was not live, and is. -/
theorem occupy (hb : Blocks pool m sizes live fresh)
    (hsize : ∀ self size count, sizes self = some (size, count) → 24 ≤ size)
    (hi : i < pool.arenaCount.toNat) (hself : self ≠ 0) (hplaces : SamePlaces pool pool')
    (hcount : pool'.arenaCount = pool.arenaCount)
    (hsame : ∀ j, j ≠ i → SameArena pool pool' j)
    (hm : ∀ x, x < pool.arenaBase i ∨ pool.arenaBase i + pool.arenaSize.toNat ≤ x → m' x = m x)
    (hfresh : ∀ j, fresh = some j → j = i) (hallocator : (pool.record i).allocator = self)
    (hallocator' : (pool'.record i).allocator = self) (hsizes : sizes self = some (size, count))
    (hstate : ArenaState pool m size count i k) (hk : k < count)
    (hstate' : ArenaState pool' m' size count i (k + 1))
    (hblock : block.toNat = pool.arenaBase i + k * size) :
    Blocks pool' m' sizes (Function.update live block (some self)) none := by
  have hcounted := hstate.counted
  have hcounted' := hstate'.counted
  have hat : ∀ b self', OccupiedAt pool' sizes i b self' ↔
      OccupiedAt pool sizes i b self' ∨ (b = block ∧ self' = self) := by
    intro b self'
    unfold OccupiedAt
    rw [hallocator, hallocator', hplaces.arenaBase_eq]
    constructor
    · rintro ⟨rfl, hne, size', count', j, hsizes', hj, hb⟩
      obtain ⟨rfl, rfl⟩ := Prod.mk.inj (Option.some.inj (hsizes.symm.trans hsizes'))
      by_cases hlast : j = k
      · subst hlast
        exact .inr ⟨UInt64.toNat_inj.mp (hb.trans hblock.symm), rfl⟩
      · exact .inl ⟨rfl, hne, size, count, j, hsizes, by omega, hb⟩
    · rintro (⟨rfl, hne, size', count', j, hsizes', hj, hb⟩ | ⟨rfl, rfl⟩)
      · obtain ⟨rfl, rfl⟩ := Prod.mk.inj (Option.some.inj (hsizes.symm.trans hsizes'))
        exact ⟨rfl, hne, size, count, j, hsizes, by omega, hb⟩
      · exact ⟨rfl, hself, size, count, k, hsizes, by omega, hblock⟩
  have hnew : ∀ self', live block ≠ some self' := by
    intro self' hlive
    obtain ⟨j, hj, -, -, size', count', -, hsizes', -⟩ := (hb.live block self').mp hlive
    have hpos := hsize _ _ _ hsizes
    have hpos' := hsize _ _ _ hsizes'
    rcases hb.apart hsize hallocator hsizes hstate hk hblock hlive hsizes' with h | h
    · omega
    · omega
  refine hb.change hsize hi hplaces hcount hsame hm hfresh (fun _ => ?_) fun b self' => ?_
  · exact ⟨size, count, k + 1, hallocator' ▸ hsizes, hstate',
      fun h => absurd h (Nat.succ_ne_zero k)⟩
  · rw [hat]
    by_cases heq : b = block
    · subst heq
      rw [Function.update_self]
      constructor
      · intro h
        exact .inr (.inr ⟨rfl, (Option.some.inj h).symm⟩)
      · rintro (⟨hlive, -⟩ | hold | ⟨-, rfl⟩)
        · exact absurd hlive (hnew self')
        · exact absurd ((hb.live b self').mpr ⟨i, hi, hold⟩) (hnew self')
        · rfl
    · rw [Function.update_of_ne heq]
      constructor
      · intro hlive
        by_cases hold : OccupiedAt pool sizes i b self'
        · exact .inr (.inl hold)
        · exact .inl ⟨hlive, hold⟩
      · rintro (⟨hlive, -⟩ | hold | ⟨hblock', -⟩)
        · exact hlive
        · exact (hb.live b self').mpr ⟨i, hi, hold⟩
        · exact absurd hblock' heq

/-- **The last live block of an arena goes away**, and with it the arena. -/
theorem release (hb : Blocks pool m sizes live none)
    (hsize : ∀ self size count, sizes self = some (size, count) → 24 ≤ size)
    (hi : i < pool.arenaCount.toNat) (hplaces : SamePlaces pool pool')
    (hcount : pool'.arenaCount = pool.arenaCount)
    (hsame : ∀ j, j ≠ i → SameArena pool pool' j) (hat : OccupiedAt pool sizes i block self)
    (hone : ∀ size count, sizes self = some (size, count) →
      (pool.record i).freeNodeCount.toNat + 1 = count)
    (hgone : (pool'.record i).allocator = 0) :
    Blocks pool' m sizes (Function.update live block none) none := by
  have hlive : live block = some self := (hb.live block self).mpr ⟨i, hi, hat⟩
  refine hb.change hsize hi hplaces hcount hsame (fun _ _ => rfl) nofun
    (fun hself => absurd hgone hself) fun b self' => ?_
  have hnone : ¬ OccupiedAt pool' sizes i b self' := by
    rintro ⟨hallocator, hself, -⟩
    exact hself (hallocator.symm.trans hgone)
  rw [or_iff_left hnone]
  by_cases heq : b = block
  · subst heq
    rw [Function.update_self]
    refine iff_of_false (by simp) ?_
    rintro ⟨hlive', hnot⟩
    obtain rfl := Option.some.inj (hlive.symm.trans hlive')
    exact hnot hat
  · rw [Function.update_of_ne heq]
    refine ⟨fun hlive' => ⟨hlive', ?_⟩, And.left⟩
    -- the arena has one block only
    rintro ⟨rfl, hself, size, count, j, hsizes, hj, hb'⟩
    obtain ⟨hself', -, size', count', j', hsizes', hj', hblock⟩ := hat
    rw [← hself', hsizes] at hsizes'
    obtain ⟨rfl, rfl⟩ := Prod.mk.inj (Option.some.inj hsizes')
    have honly := hone size count (hself' ▸ hsizes)
    obtain rfl : j = j' := by omega
    exact heq (UInt64.toNat_inj.mp (hb'.trans hblock.symm))

/-- **An arena that is requested** has no live block yet. -/
theorem request (hb : Blocks pool m sizes live none)
    (hsize : ∀ self size count, sizes self = some (size, count) → 24 ≤ size)
    (hi : i < pool.arenaCount.toNat) (hplaces : SamePlaces pool pool')
    (hcount : pool'.arenaCount = pool.arenaCount)
    (hsame : ∀ j, j ≠ i → SameArena pool pool' j)
    (hm : ∀ x, x < pool.arenaBase i ∨ pool.arenaBase i + pool.arenaSize.toNat ≤ x → m' x = m x)
    (hfree : (pool.record i).allocator = 0) (hallocator : (pool'.record i).allocator = self)
    (hsizes : sizes self = some (size, count)) (hstate : ArenaState pool' m' size count i 0) :
    Blocks pool' m' sizes live (some i) := by
  refine hb.change hsize hi hplaces hcount hsame hm nofun (fun _ => ?_) fun b self' => ?_
  · exact ⟨size, count, 0, hallocator ▸ hsizes, hstate, fun _ => rfl⟩
  · have hbefore : ¬ OccupiedAt pool sizes i b self' := by
      rintro ⟨hself, hne, -⟩
      exact hne (hself.symm.trans hfree)
    have hafter : ¬ OccupiedAt pool' sizes i b self' := by
      rintro ⟨rfl, -, size', count', j, hsizes', hj, -⟩
      rw [hallocator, hsizes] at hsizes'
      obtain ⟨rfl, rfl⟩ := Prod.mk.inj (Option.some.inj hsizes')
      have hcounted := hstate.counted
      omega
    rw [or_iff_left hafter]
    exact ⟨fun hlive => ⟨hlive, hbefore⟩, And.left⟩

/-- **What a client writes in a live block** changes no free node. -/
theorem write (hb : Blocks pool m sizes live none)
    (hsize : ∀ self size count, sizes self = some (size, count) → 24 ≤ size)
    (hlive : live block = some self) (hsizes : sizes self = some (size, count))
    (hm : ∀ x, x < block.toNat ∨ block.toNat + size ≤ x → m' x = m x) :
    Blocks pool m' sizes live none := by
  refine ⟨fun i hi hself => ?_, hb.live⟩
  obtain ⟨size', count', k, hsizes', hstate, hk⟩ := hb.arena i hi hself
  refine ⟨size', count', k, hsizes', hstate.congr rfl rfl rfl rfl fun hlt x hx hx' => ?_, hk⟩
  have hpos := hsize _ _ _ hsizes'
  have hnode := hstate.list hlt
  rcases hb.apart hsize rfl hsizes' hstate hlt hnode hlive hsizes with h | h
  · exact hm x (.inl (by omega))
  · exact hm x (.inr (by omega))

end Blocks

end Hologine.Memory
