import Hologine.Memory.PoolBookkeeping
import Mathlib.Data.List.Cycle

/-!
# Giving back one block of many

What `deallocate` does with a block of an arena that has other live blocks, in the states that runs
of all the pool allocators of an arena pool reach. The pointer may be any in the block.

`deallocate` takes the remainder of the pointer by the object size for the block: the distance of
the pointer from its block, not the address of the block. It is null for the block itself, and for
another pointer it is a node in the first bytes of memory. The list of the arena is left as it is.

Results:
* `PoolAllocator.linkNode_outside`: what is written is where the node is.
* `PoolInv.deallocate_remainder`: the node is the remainder, and the list stays as it is.
* `PoolSystem.Inv.frees_nothing`: no block is linked into the list of its arena.
* `PoolSystem.never_frees`: in **no** state of a run whose calls are safe does `deallocate` free a
  block that is not the only live one of its arena.
-/

namespace Hologine.Memory

open Hologine.Library Hologine.Library.Run MemoryArenaPool

/-! ## The property -/

/-- **A circular list of free nodes**, from its first. -/
structure FreeRing (m : Memory) (list : UInt64) (nodes : List UInt64) : Prop where
  nodup : nodes.Nodup
  head : nodes.head? = ofPointer list
  next : ∀ node (h : node ∈ nodes), nodeNext m node = nodes.next node h
  previous : ∀ node (h : node ∈ nodes), nodePrevious m node = nodes.prev node h

namespace PoolSystem

variable {π : Type} (p : Platform π)

/-- The state after a block is given back. -/
def released (s : PoolSystem π) (self block : UInt64) (a : PoolAllocator) (arenas : Arenas π) :
    PoolSystem π where
  arenas := arenas
  allocators := Function.update s.allocators self (some a)
  live := Function.update s.live block none

/-- **What `deallocate` must have done** with a block of an arena: it wrote only in the block and
in the record, the block is on the circular list of free nodes with the node that was there and no
live block, and allocations without a deallocation hand it out again before an arena is
requested. -/
structure Freed (s : PoolSystem π) (owner block : UInt64) (i : Nat) (a a' : PoolAllocator)
    (arenas : Arenas π) : Prop where
  memory : ∀ x, x < block.toNat ∨ block.toNat + a.objectSize.toNat ≤ x →
    arenas.memory x = s.arenas.memory x
  records : ∀ j, j ≠ i → arenas.pool.record j = s.arenas.pool.record j
  linked : ∃ nodes, FreeRing arenas.memory (arenas.pool.record i).freeNodeList nodes ∧
    block ∈ nodes ∧
      ((s.arenas.pool.record i).freeNodeList ≠ 0 → (s.arenas.pool.record i).freeNodeList ∈ nodes) ∧
        ∀ node ∈ nodes, node = block ∨ s.live node = none
  returned : ∃ calls outputs s', (∀ call ∈ calls, ∃ size, call = PoolCall.allocate owner size) ∧
    exec (step p) (s.released owner block a' arenas) calls = some (outputs, s') ∧
      block ∈ outputs ∧ s'.arenas.pool.owner = arenas.pool.owner

/-- **What `deallocate` must do** with a pointer in a live block. -/
def Frees (s : PoolSystem π) (self block pointer : UInt64) : Prop :=
  ∀ a i, s.allocators self = some a → s.arenas.pool.getArena block = some i →
    ∃ a' arenas, a.deallocate self pointer s.arenas = some (a', arenas) ∧
      s.Freed p self block i a a' arenas

end PoolSystem

/-! ## The node that is linked -/

section

variable {π : Type} {pool : MemoryArenaPool} {m : Memory}
  {allocators : UInt64 → Option PoolAllocator} {live : UInt64 → Option UInt64}
  {a : PoolAllocator} {self block pointer : UInt64} {i : Nat}

/-- **What is written is where the node is.** -/
theorem PoolAllocator.linkNode_outside {r : ArenaRecord} {node : UInt64} {m' : Memory}
    (h : linkNode r node m = some m') {x : Nat}
    (hx : x < node.toNat ∨ node.toNat + 24 ≤ x) : m' x = m x := by
  have hnode : node.toNat ≠ 0 := by
    intro hzero
    obtain rfl : node = 0 := UInt64.toNat_inj.mp hzero
    exact absurd h.symm (Option.some_ne_none m')
  unfold linkNode at h
  simp only [setNodeSize, setNodeNext, setNodePrevious, setNode_eq hnode, Option.bind_eq_bind,
    Option.bind_some] at h
  split at h
  · rw [← Option.some.inj h, Memory.store64_apply_of_outside (by omega),
      Memory.store64_apply_of_outside (by omega), Memory.store64_apply_of_outside (by omega)]
  · rw [← Option.some.inj h, Memory.store64_apply_of_outside (by omega),
      Memory.store64_apply_of_outside (by omega), Memory.store64_apply_of_outside (by omega)]

namespace PoolInv

/-- **The node is the remainder**, where the block is not the only live one of its arena, and the
list of the arena stays as it is. -/
theorem deallocate_remainder (h : PoolInv pool m allocators live none)
    (ha : allocators self = some a) (hlive : live block = some self)
    (hget : pool.getArena block = some i)
    (hmore : (pool.record i).freeNodeCount + 1 ≠ a.objectCount) (hle : block ≤ pointer)
    (hlt : pointer.toNat < block.toNat + a.objectSize.toNat) (env : π) :
    a.deallocate self pointer ⟨pool, m, env⟩ =
      (PoolAllocator.linkNode (pool.record i) (pointer - block) m).map fun m' =>
        (a, ⟨pool.set i (pool.record i).returned, m', env⟩) := by
  obtain ⟨i', j, hi, hat, hget', hj, hblock⟩ := h.exists_arena ha hlive
  obtain rfl := Option.some.inj (hget.symm.trans hget')
  have hle := UInt64.le_iff_toNat_le.mp hle
  have hin := h.blocks.within hi (hat.1 ▸ h.named self a ha) (hat.1 ▸ sizesOf_eq ha) hj
  have hbase := h.geometry.base i hi
  have hcapacity := h.geometry.lt_capacity hi
  have hpointer : pool.getArena pointer = some i :=
    h.geometry.getArena_eq hi (by omega) (by omega)
  have hnode : (pointer - (pool.record i).base) % a.objectSize = pointer - block := by
    rw [← UInt64.toNat_inj, UInt64.toNat_mod, UInt64.toNat_sub_of_le _ _
      (UInt64.le_iff_toNat_le.mpr (by omega)), UInt64.toNat_sub_of_le _ _
      (UInt64.le_iff_toNat_le.mpr hle), hblock,
      show pointer.toNat - (pool.record i).base.toNat =
        pointer.toNat - ((pool.record i).base.toNat + j * a.objectSize.toNat) +
          j * a.objectSize.toNat by omega, Nat.add_mul_mod_self_right]
    exact Nat.mod_eq_of_lt (by omega)
  unfold PoolAllocator.deallocate
  rw [hpointer, Option.bind_eq_bind, Option.bind_some, getRecord_eq hcapacity, Option.bind_eq_bind,
    Option.bind_some]
  dsimp only
  rw [if_neg (not_not.mpr hat.1), modifyRecord_eq hcapacity, Option.bind_eq_bind, Option.bind_some,
    if_neg hmore, hnode, Option.map_eq_bind]
  rfl

/-- **The two nodes that the free node is linked to are live blocks**, and not the same one if two
are live. -/
theorem list_links (h : PoolInv pool m allocators live none) (hi : i < pool.arenaCount.toNat)
    (hself : (pool.record i).allocator = self) (ha : allocators self = some a)
    (hlist : (pool.record i).freeNodeList ≠ 0)
    (htwo : (pool.record i).freeNodeCount.toNat + 1 < a.objectCount.toNat) :
    live (nodeNext m (pool.record i).freeNodeList) = some self ∧
      live (nodePrevious m (pool.record i).freeNodeList) = some self ∧
        nodeNext m (pool.record i).freeNodeList ≠ nodePrevious m (pool.record i).freeNodeList ∧
          2 * a.objectSize.toNat ≤ (pool.record i).freeNodeList.toNat := by
  have hne := h.named self a ha
  have hsized := (h.regular self a ha).sized
  obtain ⟨k, hstate, -, hk⟩ := h.arenaState hi hself ha
  have hk := hk hlist
  have hcounted := hstate.counted
  have hnext := hstate.next hk
  have hprevious := hstate.previous hk
  have hback : a.objectSize.toNat ≤ (k - 1) * a.objectSize.toNat :=
    Nat.le_mul_of_pos_left _ (by omega)
  have htwice : 2 * a.objectSize.toNat ≤ k * a.objectSize.toNat :=
    Nat.mul_le_mul_right _ (by omega)
  refine ⟨(h.blocks.live _ self).mpr ⟨i, hi, hself, hne, _, _, k - 1, sizesOf_eq ha, by omega,
    hnext⟩, (h.blocks.live _ self).mpr ⟨i, hi, hself, hne, _, _, 0, sizesOf_eq ha, by omega, ?_⟩,
    fun heq => ?_, ?_⟩
  · rw [hprevious, Nat.zero_mul, Nat.add_zero]
  · rw [heq] at hnext
    omega
  · rw [hstate.list hk]
    omega

end PoolInv

end

/-! ## All states -/

namespace PoolSystem

variable {π : Type} {p : Platform π} {arenaSizeHint arenaCountHint : UInt64}
  {sizes : UInt64 → Option UInt64} {s : PoolSystem π} {env : π} {self block pointer : UInt64}
  {a : PoolAllocator} {i : Nat}

/-- Two live blocks of an arena are counted. -/
theorem Inv.two_live (h : s.Inv) (ha : s.allocators self = some a)
    (hlive : s.live block = some self) (hget : s.arenas.pool.getArena block = some i)
    (hother : ∃ other ∈ s.liveIn self i, other ≠ block) :
    i < s.arenas.pool.arenaCount.toNat ∧ (s.arenas.pool.record i).allocator = self ∧
      (s.arenas.pool.record i).freeNodeCount.toNat + 1 < a.objectCount.toNat := by
  obtain ⟨other, ⟨hlive', hget'⟩, hne⟩ := hother
  obtain ⟨i', j, hi, hat, hi', hj, hblock⟩ := h.exists_arena ha hlive
  obtain rfl := Option.some.inj (hget.symm.trans hi')
  obtain ⟨i', j', -, -, hi', hj', hblock'⟩ := h.exists_arena ha hlive'
  obtain rfl := Option.some.inj (hget'.symm.trans hi')
  refine ⟨hi, hat.1, ?_⟩
  by_contra hone
  obtain rfl : j = j' := by omega
  exact hne (UInt64.toNat_inj.mp (hblock'.trans hblock.symm))

/-- **No block is freed**, whatever pointer in it `deallocate` has, if it is not the only live one
of its arena. -/
theorem Inv.frees_nothing (h : s.Inv) (hlive : s.live block = some self)
    (ha : s.allocators self = some a) (hget : s.arenas.pool.getArena block = some i)
    (hle : block ≤ pointer) (hlt : pointer.toNat < block.toNat + a.objectSize.toNat)
    (hother : ∃ other ∈ s.liveIn self i, other ≠ block) : ¬ s.Frees p self block pointer := by
  intro hfrees
  obtain ⟨a', arenas, hrun, hfreed⟩ := hfrees a i ha hget
  obtain ⟨hi, hself, htwo⟩ := h.two_live ha hlive hget hother
  have hmore : (s.arenas.pool.record i).freeNodeCount + 1 ≠ a.objectCount := by
    intro heq
    have hbound := a.objectCount.toNat_lt
    rw [← heq, UInt64.toNat_add, UInt64.toNat_one, Nat.mod_eq_of_lt (by omega)] at htwo
    omega
  -- the list stays as it is, and so does its first node
  rw [h.deallocate_remainder ha hlive hget hmore hle hlt s.arenas.env] at hrun
  obtain ⟨m', hlink, heq⟩ := Option.map_eq_some_iff.mp hrun
  obtain ⟨-, rfl⟩ := Prod.mk.inj heq
  obtain ⟨nodes, hring, hblock, hold, hfree⟩ := hfreed.linked
  have hset := record_set_self (h.geometry.lt_capacity hi) (s.arenas.pool.record i).returned
  have hhead := hring.head
  dsimp only at hhead
  rw [hset] at hhead
  by_cases hlist : (s.arenas.pool.record i).freeNodeList = 0
  · have hempty : nodes = [] := List.head?_eq_none_iff.mp
      (hhead.trans (if_pos hlist))
    rw [hempty] at hblock
    exact List.not_mem_nil hblock
  · obtain ⟨hnext, hprevious, hne, hfar⟩ := h.list_links hi hself ha hlist htwo
    have hmem := hold hlist
    have hnode : (pointer - block).toNat + 24 ≤ (s.arenas.pool.record i).freeNodeList.toNat := by
      have hsized := (h.regular self a ha).sized
      rw [UInt64.toNat_sub_of_le _ _ hle]
      omega
    have hsame : ∀ x, (s.arenas.pool.record i).freeNodeList.toNat ≤ x →
        x < (s.arenas.pool.record i).freeNodeList.toNat + 24 → m' x = s.arenas.memory x :=
      fun x hx _ => PoolAllocator.linkNode_outside hlink (.inr (by omega))
    -- so the two live blocks that it is linked to are on the list
    have hlive' : ∀ node ∈ nodes, s.live node = some self → node = block := fun node hin hsome =>
      (hfree node hin).resolve_right fun hnone => absurd (hsome.symm.trans hnone)
        (Option.some_ne_none self)
    have h₁ := hlive' _ (List.next_mem nodes _ hmem)
    have h₂ := hlive' _ (List.prev_mem nodes _ hmem)
    rw [← hring.next _ hmem, nodeNext_congr hsame] at h₁
    rw [← hring.previous _ hmem, nodePrevious_congr hsame] at h₂
    exact hne ((h₁ hnext).trans (h₂ hprevious).symm)

/-- **In no state of a run whose calls are safe** does `deallocate` free a block, whatever pointer
in it it has, if the block is not the only live one of its arena. -/
theorem never_frees (hplaced : Placed p arenaSizeHint arenaCountHint env)
    (hsizes : ∀ self size, sizes self = some size → self ≠ 0 ∧ size ≠ 0) (m : Memory)
    (calls : List PoolCall) (outputs : List UInt64)
    (hlegal : Along (step p) Legal (start p arenaSizeHint arenaCountHint sizes m env) calls)
    (hsound : Along (step p) (Sound p) (start p arenaSizeHint arenaCountHint sizes m env) calls)
    (hrun : exec (step p) (start p arenaSizeHint arenaCountHint sizes m env) calls =
      some (outputs, s))
    (hlive : s.live block = some self) (ha : s.allocators self = some a)
    (hget : s.arenas.pool.getArena block = some i) (hle : block ≤ pointer)
    (hlt : pointer.toNat < block.toNat + a.objectSize.toNat)
    (hother : ∃ other ∈ s.liveIn self i, other ≠ block) : ¬ s.Frees p self block pointer := by
  have h : s.Inv := exec_invariant Inv
    (fun _ _ _ _ h hcall hstep => (safe_step h hcall.1 hcall.2).2 _ _ hstep)
    (inv_start hplaced hsizes m) (hlegal.and hsound) hrun
  exact h.frees_nothing hlive ha hget hle hlt hother

/-- Two blocks of an arena are live, and neither is freed, by its own address or by another. -/
theorem never_frees_two_blocks :
    ∃ outputs s, exec (step Platform.granting) (start Platform.granting 256 2
        (Function.update (fun _ => none) 1 (some 64)) (fun _ => 0) ())
          [.allocate 1 64, .allocate 1 64] = some (outputs, s) ∧
      s.live 0x20000 = some 1 ∧ s.live 0x20040 = some 1 ∧
      ¬ s.Frees Platform.granting 1 0x20000 0x20000 ∧
        ¬ s.Frees Platform.granting 1 0x20040 0x20048 := by
  have hlast : (exec (step Platform.granting) (start Platform.granting 256 2
      (Function.update (fun _ => none) 1 (some 64)) (fun _ => 0) ())
        [.allocate 1 64, .allocate 1 64]).map (fun r => decide (r.2.live 0x20000 = some 1 ∧
          r.2.live 0x20040 = some 1 ∧ r.2.arenas.pool.getArena 0x20000 = some 0 ∧
            r.2.arenas.pool.getArena 0x20040 = some 0 ∧ sizesOf r.2.allocators 1 = some (64, 4))) =
      some true := by decide
  obtain ⟨⟨outputs, s⟩, hrun, heq⟩ := Option.map_eq_some_iff.mp hlast
  obtain ⟨hlive, hlive', hget, hget', hsizes⟩ := of_decide_eq_true heq
  obtain ⟨a, ha, -⟩ := Option.map_eq_some_iff.mp hsizes
  have hsize := (Prod.mk.inj (Option.some.inj ((sizesOf_eq ha).symm.trans hsizes))).1
  have hone : ∀ self size : UInt64,
      Function.update (fun _ => none) 1 (some (64 : UInt64)) self = some size →
        self ≠ 0 ∧ size ≠ 0 := fun self size => ne_zero_of_sole (by decide) (by decide)
  refine ⟨outputs, s, hrun, hlive, hlive', ?_, ?_⟩
  · exact never_frees ⟨by decide, by decide, by decide, by decide⟩ hone _ _ _ (by decide)
      (by decide) hrun hlive ha hget (by decide) (by rw [hsize]; decide)
      ⟨0x20040, ⟨hlive', hget'⟩, by decide⟩
  · exact never_frees ⟨by decide, by decide, by decide, by decide⟩ hone _ _ _ (by decide)
      (by decide) hrun hlive' ha hget' (by decide) (by rw [hsize]; decide)
      ⟨0x20000, ⟨hlive, hget⟩, by decide⟩

/-- **A block is not freed**: the first of two in an arena, by its own address. -/
theorem not_frees : ¬ ∀ (calls : List PoolCall) (outputs : List UInt64) (s : PoolSystem Unit)
    (self block pointer : UInt64) (a : PoolAllocator) (i : Nat),
    Along (step Platform.granting) Legal (start Platform.granting 256 2
      (Function.update (fun _ => none) 1 (some 64)) (fun _ => 0) ()) calls →
    exec (step Platform.granting) (start Platform.granting 256 2
      (Function.update (fun _ => none) 1 (some 64)) (fun _ => 0) ()) calls = some (outputs, s) →
    s.live block = some self → s.allocators self = some a →
    s.arenas.pool.getArena block = some i → block ≤ pointer →
    pointer.toNat < block.toNat + a.objectSize.toNat →
    (∃ other ∈ s.liveIn self i, other ≠ block) → s.Frees Platform.granting self block pointer := by
  intro hall
  have hlast : (exec (step Platform.granting) (start Platform.granting 256 2
      (Function.update (fun _ => none) 1 (some 64)) (fun _ => 0) ())
        [.allocate 1 64, .allocate 1 64]).map (fun r => decide (r.2.live 0x20000 = some 1 ∧
          r.2.live 0x20040 = some 1 ∧ r.2.arenas.pool.getArena 0x20000 = some 0 ∧
            r.2.arenas.pool.getArena 0x20040 = some 0 ∧ sizesOf r.2.allocators 1 = some (64, 4) ∧
              ((r.2.allocators 1).bind fun a =>
                a.deallocate 1 0x20000 r.2.arenas).isSome = false)) = some true := by decide
  obtain ⟨⟨outputs, s⟩, hrun, heq⟩ := Option.map_eq_some_iff.mp hlast
  obtain ⟨hlive, hlive', hget, hget', hsizes, hnone⟩ := of_decide_eq_true heq
  obtain ⟨a, ha, -⟩ := Option.map_eq_some_iff.mp hsizes
  have hsize := (Prod.mk.inj (Option.some.inj ((sizesOf_eq ha).symm.trans hsizes))).1
  obtain ⟨a', arenas, hdefined, -⟩ := hall [.allocate 1 64, .allocate 1 64] outputs s 1 0x20000
    0x20000 a 0 (by decide) hrun hlive ha hget (by decide) (by rw [hsize]; decide)
    ⟨0x20040, ⟨hlive', hget'⟩, by decide⟩ a 0 ha hget
  rw [ha, Option.bind_some, hdefined, Option.isSome_some] at hnone
  exact Bool.noConfusion hnone

end PoolSystem

end Hologine.Memory
