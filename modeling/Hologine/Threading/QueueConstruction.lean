import Hologine.Memory.FixedConstruction
import Hologine.Threading.EventThreads
import Mathlib.Data.List.Pairwise

/-!
# The construction of an event queue

Model of the constructor of `event_queue` (`core/threading/event_queue.cpp:51-57`), which is that of
its allocator, for nodes of 16 bytes at the default alignment. `nodeCount` is what the local of that
name in the allocator's constructor happens to be.

On a region whose base is aligned the loop of that constructor ends at the base, so the first node
is left out; the others are as many as the local makes them. That may be more than are in what is
committed, and then what the loop writes first is not.

* `builtNodes_inside_iff`: when the nodes are in what is committed.
* `reserveNodes_aligned`: what the loop pushes there.
* `create_eq`, `start_built`: a queue is constructed as `QueueShared.Start` has it, with these nodes.

Results:
* `built_keeps_first`: **what a constructed queue can take is decided by the local**, whatever
  threads do with it.
-/

namespace Hologine.Threading

open Hologine.Library Hologine.Library.Run Hologine.Library.Locked Hologine.Memory

variable {τ π : Type}

/-- `event_queue::event_queue`. -/
def EventQueue.create (p : Platform π) (nodeCount : UInt64) (fuel : ℕ) (size : UInt64)
    (bytes : Memory) (env : π) : Option (QueueShared π × MemoryRegion) :=
  (FixedAllocator.create p nodeCount fuel size eventNodeSize defaultAlignment bytes env).map
    fun (allocator, bytes, memoryRegion, env) => (⟨⟨allocator, 0, 0⟩, bytes, env⟩, memoryRegion)

/-- The region of a queue. -/
def queueLayout (p : Platform π) (size : UInt64) (env : π) : NodeLayout :=
  NodeLayout.ofClaim p size eventNodeSize defaultAlignment env

/-- How many nodes there would be, as the constructor computes it. -/
def builtCount (l : NodeLayout) (nodeCount : UInt64) : ℕ :=
  l.committed.toNat / nodeCount.toNat

/-- The nodes that are free in a queue that has been constructed. -/
def builtNodes (l : NodeLayout) (nodeCount : UInt64) : List UInt64 :=
  if l.base = 0 then []
  else FixedAllocator.equidistant eventNodeSize (l.base + eventNodeSize)
    (builtCount l nodeCount - 1)

/-- What is claimed is aligned, the local is not zero, and it makes no nodes past what is
committed. -/
structure Buildable (l : NodeLayout) (nodeCount : UInt64) : Prop where
  aligned : 16 ∣ l.base.toNat
  nonzero : nodeCount ≠ 0
  inSpace : l.base.toNat + l.committed.toNat ≤ 2 ^ 64
  committed : builtCount l nodeCount ≤ 1 ∨ builtCount l nodeCount * 16 ≤ l.committed.toNat

/-- The nodes are in the address space, the first one included. -/
theorem Buildable.nodes_inSpace {l : NodeLayout} {nodeCount : UInt64} (h : Buildable l nodeCount) :
    l.base.toNat + builtCount l nodeCount * 16 ≤ 2 ^ 64 := by
  have hlt := l.base.toNat_lt
  have hspace := h.inSpace
  obtain ⟨k, hk⟩ := h.aligned
  rcases h.committed with hfew | hfit
  · omega
  · omega

/-! ## The loop -/

section Loop

variable {base count : UInt64} {s : FixedAllocator × Memory}

theorem toNat_add_node {k : ℕ} (hspace : base.toNat + k * 16 < 2 ^ 64) :
    (base + UInt64.ofNat k * eventNodeSize).toNat = base.toNat + k * 16 := by
  have hsize : eventNodeSize.toNat = 16 := rfl
  rw [UInt64.toNat_add, UInt64.toNat_mul, UInt64.toNat_ofNat', hsize, Nat.mod_mul_mod,
    Nat.mod_eq_of_lt (show k * 16 < 2 ^ 64 by omega), Nat.mod_eq_of_lt hspace]

/-- **The loop ends at the base**, which is left out. -/
theorem reserveNodes_aligned (hbase : base ≠ 0) (haligned : 16 ∣ base.toNat)
    (hspace : base.toNat + count.toNat * 16 ≤ 2 ^ 64) :
    FixedAllocator.reserveNodes base eventNodeSize (count.toNat + 1)
      (base + (count - 1) * eventNodeSize) s =
        some (FixedAllocator.pushAll (FixedAllocator.equidistant eventNodeSize
          (base + eventNodeSize) (count.toNat - 1)) s) := by
  have hge : 16 ≤ base.toNat := by
    have hne : base.toNat ≠ 0 := fun h => hbase (UInt64.toNat_inj.mp h)
    omega
  have hcount : count = UInt64.ofNat count.toNat := UInt64.ofNat_toNat.symm
  generalize count.toNat = k at hspace hcount
  subst hcount
  cases k with
  | zero =>
    -- the loop starts below the base
    have hbelow : base + (UInt64.ofNat 0 - 1) * eventNodeSize - UInt64.ofNat 0 * eventNodeSize =
        base - eventNodeSize := by
      rw [show UInt64.ofNat 0 = 0 from rfl]
      grind
    refine FixedAllocator.reserveNodes_eq_some_iff.mpr ⟨0, Nat.one_pos, nofun, ?_, ?_⟩
    · have hsize : eventNodeSize.toNat = 16 := rfl
      rw [hbelow, UInt64.lt_iff_toNat_lt, UInt64.toNat_sub_of_le _ _
        (UInt64.le_iff_toNat_le.mpr (by omega))]
      omega
    · simp [FixedAllocator.equidistant]
  | succ k =>
    have hstart : base + (UInt64.ofNat (k + 1) - 1) * eventNodeSize =
        base + UInt64.ofNat k * eventNodeSize := by
      rw [UInt64.ofNat_add, show UInt64.ofNat 1 = 1 from rfl, UInt64.add_sub_cancel]
    rw [hstart]
    refine FixedAllocator.reserveNodes_eq_some_iff.mpr
      ⟨k, by omega, fun i hi => ?_, ?_, ?_⟩
    · obtain ⟨j, rfl⟩ := Nat.exists_eq_add_of_lt hi
      have heq : base + UInt64.ofNat (i + j + 1) * eventNodeSize -
          UInt64.ofNat i * eventNodeSize = base + UInt64.ofNat (j + 1) * eventNodeSize := by
        rw [Nat.add_assoc, UInt64.ofNat_add]
        grind
      rw [heq, UInt64.lt_iff_toNat_lt, toNat_add_node (by omega)]
      omega
    · rw [UInt64.add_sub_cancel]
      exact UInt64.lt_irrefl base
    · have hfirst : base + UInt64.ofNat k * eventNodeSize + eventNodeSize -
          UInt64.ofNat k * eventNodeSize = base + eventNodeSize := by
        grind
      rw [hfirst, Nat.add_sub_cancel]

/-- The nodes that are pushed are after the base, each as far as a node is large. -/
theorem toNat_node {k i : ℕ} (hspace : base.toNat + k * 16 ≤ 2 ^ 64) (hi : i < k - 1) :
    (base + eventNodeSize + UInt64.ofNat i * eventNodeSize).toNat =
      base.toNat + (i + 1) * 16 := by
  have heq : base + eventNodeSize + UInt64.ofNat i * eventNodeSize =
      base + UInt64.ofNat (i + 1) * eventNodeSize := by
    rw [UInt64.ofNat_add, show UInt64.ofNat 1 = 1 from rfl]
    grind
  rw [heq, toNat_add_node (by omega)]

end Loop

/-! ## What is constructed -/

section Built

variable {l : NodeLayout} {nodeCount : UInt64}

theorem toNat_of_mem_builtNodes (hspace : l.base.toNat + builtCount l nodeCount * 16 ≤ 2 ^ 64)
    {node : UInt64} (hnode : node ∈ builtNodes l nodeCount) :
    ∃ i < builtCount l nodeCount - 1, node.toNat = l.base.toNat + (i + 1) * 16 := by
  unfold builtNodes at hnode
  split_ifs at hnode with hbase
  · cases hnode
  · obtain ⟨i, hi, rfl⟩ := List.mem_map.mp hnode
    exact ⟨i, List.mem_range.mp hi, toNat_node hspace (List.mem_range.mp hi)⟩

theorem pairwise_builtNodes (h : Buildable l nodeCount) :
    (builtNodes l nodeCount).Pairwise fun a b => a.toNat + 16 ≤ b.toNat := by
  unfold builtNodes
  split_ifs with hbase
  · exact .nil
  · rw [FixedAllocator.equidistant, List.pairwise_map]
    refine List.pairwise_lt_range.imp_of_mem fun {i j} hi hj hlt => ?_
    have hspace := h.nodes_inSpace
    rw [toNat_node hspace (List.mem_range.mp hi), toNat_node hspace (List.mem_range.mp hj)]
    omega

/-- Pushing nodes leaves the size of an object. -/
theorem pushAll_objectSize (nodes : List UInt64) (s : FixedAllocator × Memory) :
    (FixedAllocator.pushAll nodes s).1.objectSize = s.1.objectSize := by
  induction nodes with
  | nil => rfl
  | cons node nodes ih => exact ih

theorem alignPointer_of_dvd {base : UInt64} (haligned : 16 ∣ base.toNat) :
    alignPointer base defaultAlignment = base := by
  have hself : Align.alignUp base.toNat defaultAlignment.toNat = base.toNat :=
    Align.alignUp_eq_self (by decide) haligned
  have hlt := base.toNat_lt
  rw [← UInt64.toNat_inj, toNat_alignPointer (a := 4) rfl, hself, if_pos hlt]

/-- **The allocator is constructed**, with the nodes in its free list. -/
theorem create_eq (p : Platform π) {nodeCount size : UInt64} {env : π}
    (h : (queueLayout p size env).base ≠ 0 → Buildable (queueLayout p size env) nodeCount)
    (bytes : Memory) : ∃ region env', EventQueue.create p nodeCount
      (builtCount (queueLayout p size env) nodeCount + 1) size bytes env =
      let s := FixedAllocator.pushAll (builtNodes (queueLayout p size env) nodeCount)
        (⟨0, eventNodeSize⟩, bytes)
      some (⟨⟨s.1, 0, 0⟩, s.2, env'⟩, region) := by
  have hbase : (queueLayout p size env).base = ((MemoryRegion.create size).claim p env).1 := rfl
  have hcommitted : (queueLayout p size env).committed =
      ((MemoryRegion.create size).claim p env).2.1.getCurrentSize := rfl
  have hroom : ¬ eventNodeSize < FixedAllocator.sizeofFreeNode := by decide
  have hsize : FixedAllocator.nodeSize eventNodeSize defaultAlignment = eventNodeSize := by decide
  rcases hclaim : (MemoryRegion.create size).claim p env with ⟨base, region, env'⟩
  rw [hclaim] at hbase hcommitted
  dsimp only at hbase hcommitted
  by_cases hnull : base = 0
  · refine ⟨region, env', ?_⟩
    unfold EventQueue.create FixedAllocator.create builtNodes
    dsimp only
    rw [if_neg hroom, if_pos (hbase.trans hnull), hclaim]
    simp [hnull, FixedAllocator.pushAll]
  · have hbuildable := h (hbase ▸ hnull)
    have haligned := hbuildable.aligned
    have hnonzero := hbuildable.nonzero
    have hspace := hbuildable.nodes_inSpace
    rw [builtCount, hbase, hcommitted, ← UInt64.toNat_div] at hspace
    rw [hbase] at haligned
    have hreserve := reserveNodes_aligned hnull haligned (s := (⟨0, eventNodeSize⟩, bytes)) hspace
    have hspan : region.getCurrentSize - getPointerDistance base base = region.getCurrentSize := by
      rw [getPointerDistance, UInt64.sub_self, UInt64.sub_zero]
    refine ⟨region, env', ?_⟩
    unfold EventQueue.create FixedAllocator.create builtNodes builtCount
    dsimp only
    rw [if_neg hroom, hclaim, hbase, hcommitted, ← UInt64.toNat_div]
    dsimp only
    rw [if_pos hnull, if_neg hnull, alignPointer_of_dvd haligned, hspan, if_neg hnonzero, hsize,
      hreserve]
    rfl

/-- **A queue starts with its nodes free.** -/
theorem start_built (h : l.base ≠ 0 → Buildable l nodeCount) (bytes : Memory) (env : π) :
    let s := FixedAllocator.pushAll (builtNodes l nodeCount) (⟨0, eventNodeSize⟩, bytes)
    QueueShared.Start (builtNodes l nodeCount) ⟨⟨s.1, 0, 0⟩, s.2, env⟩ := by
  intro s
  have hpairwise : (builtNodes l nodeCount).Pairwise fun a b => a.toNat + 16 ≤ b.toNat := by
    by_cases hbase : l.base = 0
    · rw [builtNodes, if_pos hbase]
      exact .nil
    · exact pairwise_builtNodes (h hbase)
  have hnull : ∀ node ∈ builtNodes l nodeCount, node ≠ 0 := by
    intro node hnode h0
    by_cases hbase : l.base = 0
    · rw [builtNodes, if_pos hbase] at hnode
      cases hnode
    · obtain ⟨i, -, hi⟩ := toNat_of_mem_builtNodes (h hbase).nodes_inSpace hnode
      rw [h0, UInt64.toNat_zero] at hi
      omega
  have hword : (builtNodes l nodeCount).Pairwise fun a b => a.toNat + 8 ≤ b.toNat :=
    hpairwise.imp fun {a b} hab => by omega
  constructor
  case head => rfl
  case tail => rfl
  case objectSize => exact pushAll_objectSize _ _
  case free =>
    exact (FixedAllocator.freeList_pushAll_iff hnull hword).mpr
      ⟨[], (List.append_nil _).symm, .nil⟩
  case apart =>
    have hsymm : Std.Symm Apart := ⟨fun _ _ => Or.symm⟩
    have hapart : (builtNodes l nodeCount).Pairwise Apart := hpairwise.imp .inl
    exact fun x hx y hy hne => hapart.forall hx hy hne

theorem length_builtNodes (l : NodeLayout) (nodeCount : UInt64) :
    (builtNodes l nodeCount).length = if l.base = 0 then 0 else builtCount l nodeCount - 1 := by
  unfold builtNodes
  split_ifs
  · rfl
  · exact FixedAllocator.length_equidistant _ _ _

/-- **The nodes are in what is committed** iff there are none, or there is room for one more. -/
theorem builtNodes_inside_iff (hspace : l.base.toNat + builtCount l nodeCount * 16 ≤ 2 ^ 64)
    (hbase : l.base ≠ 0) :
    (∀ node ∈ builtNodes l nodeCount,
      node.toNat + 16 ≤ l.base.toNat + l.committed.toNat) ↔
      builtCount l nodeCount ≤ 1 ∨ builtCount l nodeCount * 16 ≤ l.committed.toNat := by
  constructor
  · intro hinside
    rcases Nat.lt_or_ge 1 (builtCount l nodeCount) with hmany | hfew
    · right
      -- the last node, which is written first, is the one that matters
      obtain ⟨k, hk⟩ := Nat.exists_eq_add_of_lt hmany
      have hlast : k < builtCount l nodeCount - 1 := by omega
      have hnode := toNat_node hspace hlast
      have hmem : l.base + eventNodeSize + UInt64.ofNat k * eventNodeSize ∈
          builtNodes l nodeCount := by
        rw [builtNodes, if_neg hbase]
        exact List.mem_map.mpr ⟨k, List.mem_range.mpr hlast, rfl⟩
      have hle := hinside _ hmem
      omega
    · exact .inl hfew
  · intro hcount node hmem
    obtain ⟨i, hi, hnode⟩ := toNat_of_mem_builtNodes hspace hmem
    omega

end Built

/-! ## From the construction on -/

section

variable [DecidableEq τ]

open QueueThreads

/-- **What a constructed queue can take is decided by the local.** Where the region is aligned and
has space for them, the constructor ends and leaves as many nodes free as what is committed divided
by the local is, but one, and they are in it. In every interleaving of the statements of pushes and
drains after it, as many events are kept, the first that are pushed, and every later push is
refused. -/
theorem built_keeps_first (q : Platform π) (p : τ → Platform π) {nodeCount size : UInt64} {env : π}
    (h : (queueLayout q size env).base ≠ 0 → Buildable (queueLayout q size env) nodeCount)
    (bytes : Memory) :
    let layout := queueLayout q size env
    let nodes := builtNodes layout nodeCount
    let count := if layout.base = 0 then 0 else builtCount layout nodeCount - 1
    nodes.length = count ∧
    (∀ node ∈ nodes, layout.base.toNat ≤ node.toNat ∧
      node.toNat + 16 ≤ layout.base.toNat + layout.committed.toNat) ∧
    ∃ s region, EventQueue.create q nodeCount (builtCount layout nodeCount + 1) size bytes env =
        some (s, region) ∧ s.queue.allocator.FreeList s.bytes nodes ∧
      ∀ (actions : List (QueueAction τ)) effects s', (∀ action ∈ actions, Legal nodes action) →
        Run.exec (State.step (queueCode p) QueueShared.write) (State.start s) actions =
          some (effects, s') →
        let sent := sentIn effects.reduceOption
        answersIn effects.reduceOption =
            (List.range sent.length).map (fun k => .pushed (decide (k < count))) ∧
          (s'.owner = none →
            (nodes.take sent.length).map (nodeEvent s'.shared.bytes) = sent.take count) := by
  intro layout nodes count
  have hlength : nodes.length = count := length_builtNodes layout nodeCount
  obtain ⟨region, env', hcreate⟩ := create_eq q h bytes
  have hstart := start_built h bytes env'
  refine ⟨hlength, fun node hnode => ?_, _, region, hcreate, hstart.free,
    fun actions effects s' hlegal hrun => ?_⟩
  · by_cases hbase : layout.base = 0
    · have hnone : nodes = [] := if_pos hbase
      rw [hnone] at hnode
      cases hnode
    · obtain ⟨i, -, hi⟩ := toNat_of_mem_builtNodes (h hbase).nodes_inSpace hnode
      exact ⟨(Nat.le_add_right _ _).trans_eq hi.symm,
        (builtNodes_inside_iff (h hbase).nodes_inSpace hbase).mpr (h hbase).committed node hnode⟩
  · have hlast := Inv.of_start hstart hlegal hrun
    rw [← hlength]
    exact ⟨hlast.answers, fun hfree => (hlast.holds hfree).1⟩

/-- On a region of 64 KiB that the local makes two nodes of, two threads push at once. -/
theorem built_keeps_first_twoNodes : ∃ s region effects s',
    EventQueue.create Platform.granting 0x8000 3 0x10000 (fun _ => 0) () = some (s, region) ∧
      Run.exec (State.step (queueCode fun _ : Bool => Platform.granting) QueueShared.write)
        (State.start s) twoPushes = some (effects, s') ∧
      answersIn effects.reduceOption = [.pushed true, .pushed false] := by
  have hbuildable : Buildable (queueLayout Platform.granting 0x10000 ()) 0x8000 :=
    ⟨by decide, by decide, by decide, by decide⟩
  obtain ⟨-, -, s, region, hcreate, -, hkeeps⟩ := built_keeps_first Platform.granting
    (fun _ : Bool => Platform.granting) (fun _ => hbuildable) (fun _ => 0)
  obtain ⟨rfl, rfl⟩ := Prod.mk.inj (Option.some.inj hcreate)
  exact ⟨_, _, _, _, rfl, rfl, (hkeeps twoPushes _ _ (by decide) rfl).1⟩

end

end Hologine.Threading
