import Hologine.Memory.ArenaGeometry
import Hologine.Memory.PoolSafety

/-!
# Filling a pool

An arena pool that is new and has one pool allocator, which is asked for blocks until the arenas are
all full, while clients write in the blocks they have.

* `MemoryArenaPool.Ready.takeArena`: a pool of which no arena is free, and whose region has room for
  all of them, returns the next arena, or nothing and stays as it is.
* `Filled` is what lasts: of the arenas that are taken all but the last are full, so there is one
  place where the next block can be, and neither what clients write nor the order in which the
  arenas are searched has a say in it.
* `PoolSystem.fills`: the blocks come in the order of the arenas and of the places in them, and when
  the last arena is full there is no other.
-/

namespace Hologine.Memory

open Hologine.Library Hologine.Library.Run MemoryArenaPool

variable {π : Type} {p : Platform π}

/-! ## Taking the next arena -/

namespace MemoryArenaPool

variable {pool : MemoryArenaPool}

/-- **No arena is free**, and the region has room for those that are not allocated yet. -/
structure Ready (pool : MemoryArenaPool) : Prop where
  memory : pool.memoryRegion.memory ≠ 0
  maxSize : pool.memoryRegion.maxSize.toNat =
    (recordSize pool.arenaReserved).toNat + pool.arenaReserved.toNat * pool.arenaSize.toNat
  currentSize : pool.memoryRegion.currentSize.toNat =
    (recordSize pool.arenaReserved).toNat + pool.arenaCount.toNat * pool.arenaSize.toNat
  empty : pool.nextFreeArena = none

/-- The pool after the next arena is allocated and taken. -/
def tookNext (pool : MemoryArenaPool) : MemoryArenaPool :=
  { pool.withArena pool.grownRegion with nextFreeArena := none }

/-- The region has room for another arena. -/
theorem Ready.room (h : pool.Ready) (hlt : pool.arenaCount.toNat < pool.arenaReserved.toNat) :
    pool.arenaSize.toNat + pool.memoryRegion.currentSize.toNat ≤
      pool.memoryRegion.maxSize.toNat := by
  have hle : (pool.arenaCount.toNat + 1) * pool.arenaSize.toNat ≤
      pool.arenaReserved.toNat * pool.arenaSize.toNat := Nat.mul_le_mul_right _ hlt
  rw [Nat.succ_mul] at hle
  rw [h.maxSize, h.currentSize]
  omega

/-- `allocate_arena` has another arena, if there is one. -/
theorem Ready.allocateArena (h : pool.Ready) (hg : pool.Geometry) (hcommits : p.Commits)
    (hlt : pool.arenaCount.toNat < pool.arenaReserved.toNat) (env : π) : ∃ env',
      pool.allocateArena p env = some (true, pool.withArena pool.grownRegion, env') := by
  obtain ⟨env', hgrow⟩ := MemoryRegion.grow_of_commits hcommits h.memory (h.room hlt) env
  have hgrow : pool.memoryRegion.grow p pool.arenaSize env =
      (pool.memoryRegion.memory, pool.grownRegion, env') := hgrow
  have hcapacity : pool.arenaCount.toNat <
      ({ pool with memoryRegion := pool.grownRegion } : MemoryArenaPool).capacity :=
    Nat.lt_of_lt_of_le hlt hg.tabled
  refine ⟨env', ?_⟩
  unfold MemoryArenaPool.allocateArena
  rw [if_pos (UInt64.lt_iff_toNat_lt.mpr hlt), hgrow]
  dsimp only
  rw [if_pos h.memory, modifyRecord_eq hcapacity]
  rfl

/-- The arena that is allocated is unlinked. -/
theorem Ready.unlinkArena (h : pool.Ready) (hg : pool.Geometry)
    (hlt : pool.arenaCount.toNat < pool.arenaReserved.toNat) :
    (pool.withArena pool.grownRegion).unlinkArena =
      some (pool.arenaCount.toNat, pool.tookNext) := by
  have hcapacity := hg.lt_capacity_withArena hlt pool.grownRegion
  have hlink : ((pool.withArena pool.grownRegion).record pool.arenaCount.toNat).next = none := by
    rw [hg.record_withArena hlt pool.grownRegion, Function.update_self]
    exact h.empty
  have hnext : (pool.withArena pool.grownRegion).nextFreeArena = some pool.arenaCount.toNat := rfl
  rw [MemoryArenaPool.unlinkArena, hnext, Option.bind_eq_bind, Option.bind_some,
    getRecord_eq hcapacity, Option.bind_eq_bind, Option.bind_some, hlink]
  rfl

/-- **`take_arena`** returns the next arena, or null if there is no other. -/
theorem Ready.takeArena (h : pool.Ready) (hg : pool.Geometry) (hcommits : p.Commits) (env : π) :
    (pool.arenaCount.toNat = pool.arenaReserved.toNat ∧
        pool.takeArena p env = some (none, pool, env)) ∨
      (pool.arenaCount.toNat < pool.arenaReserved.toNat ∧ ∃ env',
        pool.takeArena p env = some (some pool.arenaCount.toNat, pool.tookNext, env')) := by
  unfold MemoryArenaPool.takeArena
  rw [if_pos h.empty]
  by_cases hlt : pool.arenaCount.toNat < pool.arenaReserved.toNat
  · obtain ⟨env', halloc⟩ := h.allocateArena hg hcommits hlt env
    refine .inr ⟨hlt, env', ?_⟩
    rw [halloc, Option.bind_eq_bind, Option.bind_some]
    dsimp only
    rw [if_pos rfl, h.unlinkArena hg hlt]
    rfl
  · refine .inl ⟨Nat.le_antisymm hg.count_le (Nat.le_of_not_lt hlt), ?_⟩
    rw [MemoryArenaPool.allocateArena, if_neg (hlt ∘ UInt64.lt_iff_toNat_lt.mp)]
    rfl

/-! ## How full the arenas are -/

variable {self list : UInt64} {count n i : Nat}

/-- **The first `n` blocks are taken**, each arena being full before the next has any. -/
structure FilledTo (pool : MemoryArenaPool) (allocator : UInt64) (count n : Nat) : Prop where
  ready : pool.Ready
  covered : n ≤ pool.arenaCount.toNat * count
  owned : ∀ i < pool.arenaCount.toNat, (pool.record i).allocator = allocator
  counted : ∀ i < pool.arenaCount.toNat,
    (pool.record i).freeNodeCount.toNat + min count (n - i * count) = count
  first : pool.arenaCount.toNat = 1 → (pool.record 0).previous = none

/-- **The next block is taken** of the arena that it is in. -/
theorem FilledTo.taken (h : pool.FilledTo self count n) (hi : i < pool.arenaCount.toNat)
    (hcapacity : i < pool.capacity) (hle : i * count ≤ n) (hlt : n < i * count + count)
    (list : UInt64) : (pool.taken i list).FilledTo self count (n + 1) := by
  have hend : (i + 1) * count ≤ pool.arenaCount.toNat * count := Nat.mul_le_mul_right _ hi
  rw [Nat.succ_mul] at hend
  refine ⟨⟨h.ready.memory, h.ready.maxSize, h.ready.currentSize, h.ready.empty⟩,
    Nat.le_trans hlt hend, fun j hj => ?_, fun j hj => ?_, fun hone => ?_⟩
  · rw [record_taken hcapacity]
    by_cases heq : j = i
    · rw [heq, Function.update_self]
      exact h.owned i hi
    · rw [Function.update_of_ne heq]
      exact h.owned j hj
  · have hcounted := h.counted j hj
    rw [record_taken hcapacity]
    rcases Nat.lt_trichotomy j i with hbefore | rfl | hafter
    · -- an arena before it is full
      have hfull : (j + 1) * count ≤ i * count := Nat.mul_le_mul_right _ hbefore
      rw [Nat.succ_mul] at hfull
      rw [Function.update_of_ne (Nat.ne_of_lt hbefore)]
      omega
    · have hless : (pool.record j).counted.freeNodeCount.toNat =
          (pool.record j).freeNodeCount.toNat - 1 := Bits.toNat_sub_one (by omega)
      rw [Function.update_self]
      show (pool.record j).counted.freeNodeCount.toNat + _ = count
      omega
    · -- an arena after it has none yet
      have hnone : (i + 1) * count ≤ j * count := Nat.mul_le_mul_right _ hafter
      rw [Nat.succ_mul] at hnone
      rw [Function.update_of_ne (Nat.ne_of_gt hafter)]
      omega
  · have hfirst := h.first hone
    rw [record_taken hcapacity]
    by_cases heq : 0 = i
    · rw [← heq, Function.update_self]
      exact hfirst
    · rw [Function.update_of_ne heq]
      exact hfirst

/-- The next arena is in the pool after it is taken. -/
theorem Ready.ready_tookNext (h : pool.Ready)
    (hlt : pool.arenaCount.toNat < pool.arenaReserved.toNat) : pool.tookNext.Ready := by
  have hcount : pool.tookNext.arenaCount.toNat = pool.arenaCount.toNat + 1 :=
    toNat_arenaCount_withArena hlt pool.grownRegion
  refine ⟨h.memory, h.maxSize, ?_, rfl⟩
  rw [hcount, Nat.succ_mul]
  show (pool.arenaSize + pool.memoryRegion.currentSize).toNat = _
  rw [UInt64.toNat_add, Nat.mod_eq_of_lt (Nat.lt_of_le_of_lt (h.room hlt)
    pool.memoryRegion.maxSize.toNat_lt), h.currentSize]
  show _ = (recordSize pool.arenaReserved).toNat +
    (pool.arenaCount.toNat * pool.arenaSize.toNat + pool.arenaSize.toNat)
  omega

/-- **What `request_empty_arena` does**: it gets the next arena, if there is one. -/
theorem Ready.requests {a a' : PoolAllocator} {arena : Option Nat} {pool' : MemoryArenaPool}
    {env env' : π} (h : pool.Ready) (hg : pool.Geometry) (hcommits : p.Commits)
    (hrequest : a.Requests p self pool env arena a' pool' env') :
    (arena = none ∧ pool.arenaCount.toNat = pool.arenaReserved.toNat ∧ a' = a ∧ pool' = pool ∧
        env' = env) ∨
      (arena = some pool.arenaCount.toNat ∧ pool.arenaCount.toNat < pool.arenaReserved.toNat ∧
        Relinked ((pool.withArena pool.grownRegion).requested pool.arenaCount.toNat self
          a.objectCount) pool' ∧
        (a.arenaListTail = none → pool' = (pool.withArena pool.grownRegion).requested
          pool.arenaCount.toNat self a.objectCount)) := by
  rcases h.takeArena hg hcommits env with ⟨hall, htook⟩ | ⟨hlt, env₁, htook⟩
  · cases hrequest with
    | none _ htake =>
      obtain ⟨hpool, henv⟩ : pool = pool' ∧ env = env' := by simpa using htook.symm.trans htake
      exact .inl ⟨rfl, hall, rfl, hpool.symm, henv.symm⟩
    | arena _ _ htake => exact nomatch htook.symm.trans htake
  · cases hrequest with
    | none _ htake => exact nomatch htook.symm.trans htake
    | @arena i _ pool₁ _ _ _ hnext htake hrelinked hfirst =>
      obtain ⟨rfl, hpool, -⟩ : pool.arenaCount.toNat = i ∧
          pool.tookNext = { pool₁ with nextFreeArena := pool₁.link i } ∧ _ := by
        simpa using htook.symm.trans htake
      -- the two pools had the arena at the head of the free list
      have hsame : pool₁ = pool.withArena pool.grownRegion := by
        have hfree := congrArg (fun pool' : MemoryArenaPool =>
          { pool' with nextFreeArena := some pool.arenaCount.toNat }) hpool
        dsimp only at hfree
        rw [← hnext] at hfree
        exact (hfree.symm.trans (by rw [hnext]; rfl))
      subst hsame
      exact .inr ⟨rfl, hlt, hrelinked, hfirst⟩

/-- The records when the next arena is requested. -/
theorem record_requestedNext {objectCount : UInt64} (hg : pool.Geometry)
    (hlt : pool.arenaCount.toNat < pool.arenaReserved.toNat) :
    ((pool.withArena pool.grownRegion).requested pool.arenaCount.toNat self objectCount).record =
      Function.update pool.record pool.arenaCount.toNat
        ((pool.withArena pool.grownRegion).requestedRecord pool.arenaCount.toNat self
          objectCount) := by
  have hcapacity := hg.lt_capacity_withArena hlt pool.grownRegion
  rw [record_requested hcapacity, hg.record_withArena hlt, Function.update_idem]

/-- The pool is ready again when the next arena is requested and linked to the others. -/
theorem Ready.relinked {pool' : MemoryArenaPool} {objectCount : UInt64} (h : pool.Ready)
    (hg : pool.Geometry) (hlt : pool.arenaCount.toNat < pool.arenaReserved.toNat)
    (hrelinked : Relinked ((pool.withArena pool.grownRegion).requested pool.arenaCount.toNat self
      objectCount) pool') : pool'.Ready := by
  have hnext := h.ready_tookNext hlt
  have hfree : (pool.withArena pool.grownRegion).link pool.arenaCount.toNat = none := by
    rw [link, hg.record_withArena hlt, Function.update_self]
    exact h.empty
  rw [hrelinked.records]
  exact ⟨hnext.memory, hnext.maxSize, hnext.currentSize, hfree⟩

/-- **The next arena is taken** when the others are full, and has all of its nodes free. -/
theorem FilledTo.requested {pool' : MemoryArenaPool} {objectCount : UInt64}
    (h : pool.FilledTo self objectCount.toNat n) (hg : pool.Geometry)
    (hlt : pool.arenaCount.toNat < pool.arenaReserved.toNat)
    (hn : n = pool.arenaCount.toNat * objectCount.toNat)
    (hrelinked : Relinked ((pool.withArena pool.grownRegion).requested pool.arenaCount.toNat self
      objectCount) pool')
    (hfirst : pool.arenaCount.toNat = 0 → pool' = (pool.withArena pool.grownRegion).requested
      pool.arenaCount.toNat self objectCount) :
    pool'.FilledTo self objectCount.toNat n ∧
      pool'.arenaCount.toNat = pool.arenaCount.toNat + 1 ∧ SamePlaces pool pool' ∧
        pool'.arenaReserved = pool.arenaReserved ∧
          (pool'.record pool.arenaCount.toNat).freeNodeList.toNat =
            pool.arenaBase pool.arenaCount.toNat := by
  have hgrown : Grown pool (pool.withArena pool.grownRegion) := .arena _ hlt
  have hg₁ := hg.grown hgrown
  have hcount₁ := toNat_arenaCount_withArena hlt pool.grownRegion
  have hnew : pool.arenaCount.toNat < (pool.withArena pool.grownRegion).arenaCount.toNat := by
    omega
  have hcount : pool'.arenaCount.toNat = pool.arenaCount.toNat + 1 :=
    (congrArg UInt64.toNat hrelinked.arenaCount).trans hcount₁
  refine ⟨⟨h.ready.relinked hg hlt hrelinked, ?_, fun j hj => ?_, fun j hj => ?_, fun hone => ?_⟩,
    hcount, ?_, ?_, ?_⟩
  · rw [hcount, Nat.succ_mul, hn]
    exact Nat.le_add_right _ _
  · rw [hrelinked.allocator, record_requestedNext hg hlt]
    by_cases heq : j = pool.arenaCount.toNat
    · rw [heq, Function.update_self]
      rfl
    · rw [Function.update_of_ne heq]
      exact h.owned j (by omega)
  · rw [hrelinked.freeNodeCount, record_requestedNext hg hlt]
    by_cases heq : j = pool.arenaCount.toNat
    · rw [heq, Function.update_self, hn, Nat.sub_self, Nat.min_zero]
      rfl
    · rw [Function.update_of_ne heq]
      exact h.counted j (by omega)
  · have hzero : pool.arenaCount.toNat = 0 := by omega
    have hrecord := hg.record_withArena hlt pool.grownRegion
    rw [hzero] at hrecord
    rw [hfirst hzero, record_requestedNext hg hlt, hzero, Function.update_self]
    show ((pool.withArena pool.grownRegion).record 0).previous = none
    rw [hrecord, Function.update_self]
    show (pool.record 0).previous = none
    rw [hg.zero 0 (Nat.le_of_eq hzero)]
    rfl
  · rw [hrelinked.records]
    exact ⟨rfl, rfl⟩
  · rw [hrelinked.records]
    rfl
  · rw [hrelinked.freeNodeList, record_requestedNext hg hlt, Function.update_self]
    exact hg₁.base _ hnew

end MemoryArenaPool

/-! ## How the pool is filled -/

/-- **An allocator has `n` blocks of a pool**, of a size of which so many fit each arena. -/
structure Filled (pool : MemoryArenaPool) (allocator : UInt64) (size count n : Nat)
    (s : PoolSystem π) : Prop where
  inv : s.Inv
  filled : s.arenas.pool.FilledTo allocator count n
  needed : s.arenas.pool.arenaCount.toNat * count < n + count
  sizes : sizesOf s.allocators allocator = some (size, count)
  places : SamePlaces pool s.arenas.pool
  reserved : s.arenas.pool.arenaReserved = pool.arenaReserved

/-- Where the block is that is obtained after so many others. -/
def MemoryArenaPool.place (pool : MemoryArenaPool) (size count j : Nat) : Nat :=
  pool.arenaBase (j / count) + j % count * size

namespace Filled

variable {pool : MemoryArenaPool} {self : UInt64} {size count n i : Nat} {s : PoolSystem π}

/-- The first blocks of an arena are live, as many as there are in it. -/
theorem arenaState (h : Filled pool self size count n s)
    (hi : i < s.arenas.pool.arenaCount.toNat) :
    ArenaState s.arenas.pool s.arenas.memory size count i (min count (n - i * count)) := by
  have hself := h.filled.owned i hi
  obtain ⟨a, ha, hsizes⟩ := Option.map_eq_some_iff.mp h.sizes
  obtain ⟨rfl, rfl⟩ := Prod.mk.inj hsizes
  obtain ⟨k, hstate, -⟩ := h.inv.arenaState hi hself ha
  have hcounted := h.filled.counted i hi
  have hk := hstate.counted
  obtain rfl : k = min a.objectCount.toNat (n - i * a.objectCount.toNat) := by omega
  exact hstate

/-- An arena that has a free node is the one that the next block is in, and the node is there. -/
theorem next_of_free (h : Filled pool self size count n s)
    (hi : i < s.arenas.pool.arenaCount.toNat) (hlist : (s.arenas.pool.record i).freeNodeList ≠ 0) :
    i * count ≤ n ∧ n < i * count + count ∧
      (s.arenas.pool.record i).freeNodeList.toNat = pool.place size count n := by
  have hstate := h.arenaState hi
  have hneeded := h.needed
  have hend : (i + 1) * count ≤ s.arenas.pool.arenaCount.toNat * count :=
    Nat.mul_le_mul_right _ hi
  rw [Nat.succ_mul] at hend
  have hlt : min count (n - i * count) < count :=
    Nat.lt_of_le_of_ne (Nat.min_le_left _ _) fun heq => hlist (hstate.full heq)
  have hle : i * count ≤ n := by omega
  have hlt' : n < i * count + count := by omega
  refine ⟨hle, hlt', ?_⟩
  have hdiv : n / count = i := Nat.div_eq_of_lt_le hle (by rwa [Nat.succ_mul])
  have hmod : n % count = min count (n - i * count) := by
    have hsum := Nat.div_add_mod n count
    rw [hdiv, Nat.mul_comm] at hsum
    omega
  rw [hstate.list hlt, place, hdiv, hmod, h.places.arenaBase_eq]

/-- If no arena has a free node, they are all full. -/
theorem eq_of_full (h : Filled pool self size count n s)
    (hpositive : 0 < s.arenas.pool.arenaPool.toNat)
    (hfull : ∀ i < s.arenas.pool.arenaCount.toNat, (s.arenas.pool.record i).freeNodeList = 0) :
    n = s.arenas.pool.arenaCount.toNat * count := by
  have hcovered := h.filled.covered
  have hneeded := h.needed
  refine Nat.le_antisymm hcovered ?_
  rcases Nat.eq_zero_or_pos s.arenas.pool.arenaCount.toNat with hzero | hpos
  · rw [hzero, Nat.zero_mul]
    exact Nat.zero_le n
  · -- the last of them
    obtain ⟨i, hi⟩ := Nat.exists_eq_succ_of_ne_zero (Nat.ne_of_gt hpos)
    have hlt : i < s.arenas.pool.arenaCount.toNat := by omega
    have hstate := h.arenaState hlt
    by_contra hmore
    rw [hi, Nat.succ_mul] at hmore
    have hlist := hstate.list (by omega)
    rw [hfull i hlt, UInt64.toNat_zero, arenaBase] at hlist
    omega

/-- **The next block can be allocated.** -/
theorem canAllocate (h : Filled pool self size count n s)
    (hfits : count * size ≤ pool.arenaSize.toNat) (hcount : 0 < count) {a : PoolAllocator}
    (ha : s.allocators self = some a) :
    a.CanAllocate p self s.arenas := by
  have hsizes := h.sizes
  rw [sizesOf_eq ha] at hsizes
  obtain ⟨rfl, rfl⟩ := Prod.mk.inj (Option.some.inj hsizes)
  rw [← h.places.2] at hfits
  refine ⟨fun i hi hself hlist => h.inv.hasRoom hi hself ha hlist hfits,
    fun _ i _ => ⟨?_, fun htwo => ?_, fun _ => ?_, ?_⟩⟩
  · exact Nat.le_trans (Nat.le_mul_of_pos_left _ hcount) hfits
  · exact Nat.le_trans (Nat.mul_le_mul_right _ htwo) hfits
  · rw [h.filled.ready.empty]
    rfl
  · -- a tail without a next arena is the only arena, and has never had another before it
    intro t ht hlast q hq
    obtain ⟨l, hchain, hmem⟩ := h.inv.lists.chain self a.arenaListHead (h.inv.heads_eq ha)
    rw [← (h.inv.regular self a ha).tail, ht] at hchain
    obtain ⟨l', rfl, hrest⟩ := Chain.some_iff.mp hchain
    rw [hlast] at hrest
    obtain rfl := Chain.none_iff.mp hrest
    have honly : ∀ i < s.arenas.pool.arenaCount.toNat, i = t := fun i hi =>
      List.mem_singleton.mp ((hmem i).mpr (owner_eq_some.mpr ⟨hi, h.filled.owned i hi⟩))
    have htlt := (owner_eq_some.mp (h.inv.owner_tail ha ht)).1
    have hzero := honly 0 (Nat.zero_lt_of_lt htlt)
    have hone : s.arenas.pool.arenaCount.toNat = 1 := by
      by_contra hne
      have htwo := honly 1 (by omega)
      omega
    rw [← hzero, h.filled.first hone] at hq
    exact absurd hq (Option.not_mem_none q)

/-- The tail of a list without an arena is null. -/
theorem tail_eq_none (h : Filled pool self size count n s)
    (hzero : s.arenas.pool.arenaCount.toNat = 0) {a : PoolAllocator}
    (ha : s.allocators self = some a) : a.arenaListTail = none := by
  cases ht : a.arenaListTail with
  | none => rfl
  | some t =>
    have htlt := (owner_eq_some.mp (h.inv.owner_tail ha ht)).1
    omega

/-- **The next block is handed out**, if there is room for it, and nothing is done if there is
not. -/
theorem allocate (h : Filled pool self size count n s) (hcommits : p.Commits)
    (hfits : count * size ≤ pool.arenaSize.toNat) (hcount : 0 < count) {a : PoolAllocator}
    (ha : s.allocators self = some a) {request : UInt64} (hrequest : request ≤ a.objectSize) :
    (∃ block s', s.step p (.allocate self request) = some (block, s') ∧ block ≠ 0 ∧
      block.toNat = pool.place size count n ∧ Filled pool self size count (n + 1) s') ∨
    (n = pool.arenaReserved.toNat * count ∧ s.step p (.allocate self request) = some (0, s)) := by
  have hg := h.inv.geometry
  have hsizes := h.sizes
  rw [sizesOf_eq ha] at hsizes
  obtain ⟨rfl, rfl⟩ := Prod.mk.inj (Option.some.inj hsizes)
  obtain ⟨block, a', pool', m', env', hrun, hallocates, hm, hsizes', hinv, -⟩ :=
    h.inv.allocate_of_le ha hrequest (h.canAllocate hfits hcount ha)
  have hstep := PoolSystem.step_allocate ha hrun
  have hupdated := (congrFun (sizesOf_update ha hsizes') self).trans h.sizes
  cases hallocates with
  | @node i list hi hself hlist =>
    obtain ⟨hle, hlt, hplace⟩ := h.next_of_free hi hlist
    have hend : (i + 1) * a.objectCount.toNat ≤
        s.arenas.pool.arenaCount.toNat * a.objectCount.toNat := Nat.mul_le_mul_right _ hi
    have hneeded : s.arenas.pool.arenaCount.toNat * a.objectCount.toNat <
        n + 1 + a.objectCount.toNat := by
      have := h.needed
      omega
    exact .inl ⟨_, _, hstep, hlist, hplace, hinv,
      h.filled.taken hi (hg.lt_capacity hi) hle hlt list, hneeded, hupdated, h.places, h.reserved⟩
  | none hfull hrequested =>
    have hn := h.eq_of_full hg.positive fun i hi => hfull i hi (h.filled.owned i hi)
    rcases h.filled.ready.requests hg hcommits hrequested with
      ⟨-, hall, rfl, rfl, rfl⟩ | ⟨hsome, -⟩
    · refine .inr ⟨by rw [hn, hall, h.reserved], ?_⟩
      rw [hstep, hm rfl, if_pos rfl, ← ha, Function.update_eq_self]
    · exact nomatch hsome
  | @arena i _ pool' _ list hfull hrequested =>
    have hn := h.eq_of_full hg.positive fun i hi => hfull i hi (h.filled.owned i hi)
    rcases h.filled.ready.requests hg hcommits hrequested with
      ⟨hnone, -⟩ | ⟨hsome, hlt, hrelinked, hfirst⟩
    · exact nomatch hnone
    obtain rfl := Option.some.inj hsome
    obtain ⟨hfilled, hcount', hplaces, hreserved, hlist⟩ := h.filled.requested hg hlt hn hrelinked
      fun hzero => hfirst (h.tail_eq_none hzero ha)
    have hcapacity : s.arenas.pool.arenaCount.toNat < pool'.capacity := by
      rw [hrelinked.capacity, capacity_requested]
      exact hg.lt_capacity_withArena hlt _
    have hplace : pool.place a.objectSize.toNat a.objectCount.toNat n =
        s.arenas.pool.arenaBase s.arenas.pool.arenaCount.toNat := by
      rw [place, hn, Nat.mul_div_cancel _ hcount, Nat.mul_mod_left, Nat.zero_mul, Nat.add_zero,
        h.places.arenaBase_eq]
    have hne : (pool'.record s.arenas.pool.arenaCount.toNat).freeNodeList ≠ 0 := by
      intro hnull
      have hpositive := hg.positive
      rw [hnull, UInt64.toNat_zero, arenaBase] at hlist
      omega
    refine .inl ⟨_, _, hstep, hne, hlist.trans hplace.symm, hinv,
      hfilled.taken (by omega) hcapacity (by omega) (by omega) list, ?_, hupdated, ?_, ?_⟩
    · show pool'.arenaCount.toNat * _ < _
      rw [hcount', Nat.succ_mul]
      omega
    · exact ⟨hplaces.1.trans h.places.1, hplaces.2.trans h.places.2⟩
    · exact hreserved.trans h.reserved

/-- **A write in a live block** takes no block. -/
theorem write (h : Filled pool self size count n s) {block : UInt64} {offset : Nat}
    {bytes : List UInt8} (hlegal : s.Legal (.write block offset bytes)) :
    ∃ s', s.step p (.write block offset bytes) = some (0, s') ∧
      Filled pool self size count n s' := by
  obtain ⟨a, ha, hroom⟩ := hlegal
  obtain ⟨allocator, hlive, ha⟩ := Option.bind_eq_some_iff.mp ha
  exact ⟨_, rfl, h.inv.write hlive ha hroom, h.filled, h.needed, h.sizes, h.places, h.reserved⟩

end Filled

/-! ## Runs -/

/-- A call for a block of a size that the allocator has, or a write of a client. -/
def PoolCall.Fills (self objectSize : UInt64) : PoolCall → Prop
  | .allocate allocator size => allocator = self ∧ size ≤ objectSize
  | .write _ _ _ => True
  | _ => False

instance (self objectSize : UInt64) (call : PoolCall) : Decidable (call.Fills self objectSize) :=
  match call with
  | .allocate allocator size => inferInstanceAs (Decidable (allocator = self ∧ size ≤ objectSize))
  | .write _ _ _ => isTrue trivial
  | .reserve _ => isFalse id
  | .deallocate _ _ => isFalse id

/-- Whether a call asks for a block. -/
def PoolCall.isAllocate : PoolCall → Bool
  | .allocate _ _ => true
  | _ => false

/-- What the calls that ask for blocks returned. -/
def obtained : List PoolCall → List UInt64 → List UInt64
  | call :: calls, output :: outputs =>
    if call.isAllocate then output :: obtained calls outputs else obtained calls outputs
  | _, _ => []

namespace PoolSystem

/-- **The arenas are filled in order**: the blocks are one behind the other in each, each arena is
full before the next has any, and no more arenas are taken than have blocks. -/
structure InOrder (s : PoolSystem π) (allocator objectSize : UInt64) (count : Nat)
    (blocks : List UInt64) : Prop where
  succeeded : ∀ block ∈ blocks, block ≠ 0
  placed : ∀ j block, blocks[j]? = some block → block.toNat =
    (s.arenas.pool.record (j / count)).base.toNat + j % count * objectSize.toNat
  apart : blocks.Pairwise fun block block' => block.toNat + objectSize.toNat ≤ block'.toNat
  taken : ∀ i, s.arenas.pool.owner i = some allocator ↔ i < (blocks.length + count - 1) / count

end PoolSystem

/-- A block ends before the next one. -/
theorem MemoryArenaPool.place_add_le {pool : MemoryArenaPool} {size count j j' : Nat}
    (hfits : count * size ≤ pool.arenaSize.toNat) (hcount : 0 < count) (hlt : j < j') :
    pool.place size count j + size ≤ pool.place size count j' := by
  have hle : j / count ≤ j' / count := Nat.div_le_div_right (Nat.le_of_lt hlt)
  have hmod : (j % count + 1) * size ≤ count * size :=
    Nat.mul_le_mul_right _ (Nat.mod_lt j hcount)
  have hsum := Nat.div_add_mod j count
  have hsum' := Nat.div_add_mod j' count
  rw [Nat.succ_mul] at hmod
  unfold place
  rcases Nat.eq_or_lt_of_le hle with heq | hbefore
  · -- in one arena
    rw [heq] at hsum ⊢
    have hmod' : (j % count + 1) * size ≤ j' % count * size := Nat.mul_le_mul_right _ (by omega)
    rw [Nat.succ_mul] at hmod'
    omega
  · have hbase := arenaBase_le pool (Nat.succ_le_of_lt hbefore)
    rw [arenaBase_succ] at hbase
    omega

namespace Filled

variable {pool : MemoryArenaPool} {self objectSize : UInt64} {size count n : Nat}
  {s : PoolSystem π}

/-- **What a run of such calls obtains**, as long as there is room for it. -/
theorem run (hcommits : p.Commits) (hfits : count * objectSize.toNat ≤ pool.arenaSize.toNat)
    (hcount : 0 < count) (calls : List PoolCall)
    (hcalls : ∀ call ∈ calls, call.Fills self objectSize)
    (h : Filled pool self objectSize.toNat count n s)
    (hlegal : Along (PoolSystem.step p) PoolSystem.Legal s calls)
    (hn : n + calls.countP PoolCall.isAllocate ≤ pool.arenaReserved.toNat * count) :
    ∃ outputs s', exec (PoolSystem.step p) s calls = some (outputs, s') ∧
      (∀ block ∈ obtained calls outputs, block ≠ 0) ∧
      (obtained calls outputs).map UInt64.toNat =
        (List.range' n (calls.countP PoolCall.isAllocate)).map
          (pool.place objectSize.toNat count) ∧
      Filled pool self objectSize.toNat count (n + calls.countP PoolCall.isAllocate) s' := by
  induction calls generalizing n s with
  | nil => exact ⟨[], s, rfl, nofun, rfl, h⟩
  | cons call calls ih =>
    have hcalls' := fun call' hmem => hcalls call' (List.mem_cons_of_mem call hmem)
    have hcall := hcalls call List.mem_cons_self
    obtain ⟨hcallLegal, hrest⟩ := hlegal
    cases call with
    | reserve count => exact hcall.elim
    | deallocate allocator block => exact hcall.elim
    | write block offset bytes =>
      obtain ⟨s₁, hstep, h₁⟩ := h.write (p := p) hcallLegal
      obtain ⟨outputs, s', hrun, hne, hplaced, h'⟩ := ih hcalls' h₁ (hrest _ _ hstep) hn
      exact ⟨_, s', exec_cons_eq_some.mpr ⟨_, _, s₁, hstep, hrun, rfl⟩, hne, hplaced, h'⟩
    | allocate allocator request =>
      obtain ⟨rfl, hrequest⟩ := hcall
      obtain ⟨a, ha, hsize⟩ := Option.map_eq_some_iff.mp h.sizes
      obtain rfl : a.objectSize = objectSize := UInt64.toNat_inj.mp (Prod.mk.inj hsize).1
      rw [List.countP_cons_of_pos (by rfl)] at hn ⊢
      rcases h.allocate hcommits hfits hcount ha hrequest with
        ⟨block, s₁, hstep, hblock, hplace, h₁⟩ | ⟨hall, -⟩
      · obtain ⟨outputs, s', hrun, hne, hplaced, h'⟩ := ih hcalls' h₁ (hrest _ _ hstep) (by omega)
        refine ⟨block :: outputs, s', exec_cons_eq_some.mpr ⟨_, _, s₁, hstep, hrun, rfl⟩,
          List.forall_mem_cons.mpr ⟨hblock, hne⟩, ?_, ?_⟩
        · rw [List.range'_succ, List.map_cons, ← hplaced, ← hplace]
          rfl
        · rw [Nat.add_comm _ 1, ← Nat.add_assoc]
          exact h'
      · omega

/-- **The blocks are in order** that are where the first `n` places are. -/
theorem inOrder (h : Filled pool self objectSize.toNat count n s)
    (hfits : count * objectSize.toNat ≤ pool.arenaSize.toNat) (hcount : 0 < count)
    {blocks : List UInt64} (hne : ∀ block ∈ blocks, block ≠ 0)
    (hplaced : blocks.map UInt64.toNat =
      (List.range' 0 n).map (pool.place objectSize.toNat count)) :
    s.InOrder self objectSize count blocks := by
  have hlength : blocks.length = n := by
    have := congrArg List.length hplaced
    simpa using this
  have hcovered := h.filled.covered
  have hneeded := h.needed
  -- how many arenas are taken
  have htaken : s.arenas.pool.arenaCount.toNat = (n + count - 1) / count := by
    refine (Nat.div_eq_of_lt_le (by omega) ?_).symm
    rw [Nat.succ_mul]
    omega
  refine ⟨hne, fun j block hj => ?_, ?_, fun i => ?_⟩
  · have hlt := (List.getElem?_eq_some_iff.mp hj).1
    have hplace := congrArg (fun places : List Nat => places[j]?) hplaced
    simp only [List.getElem?_map, hj, Option.map_some] at hplace
    rw [List.getElem?_range' (by omega), Option.map_some, Option.some.injEq] at hplace
    have harena : j / count < s.arenas.pool.arenaCount.toNat :=
      Nat.div_lt_of_lt_mul (by rw [Nat.mul_comm]; omega)
    have hbase := (h.inv.geometry.base _ harena).trans (h.places.arenaBase_eq _)
    rw [hplace, hbase, place]
    simp only [Nat.zero_add, Nat.one_mul]
  · have hapart : (blocks.map UInt64.toNat).Pairwise fun x y => x + objectSize.toNat ≤ y := by
      rw [hplaced, List.pairwise_map]
      exact (List.pairwise_lt_range' (s := 0)).imp fun hlt => place_add_le hfits hcount hlt
    exact List.pairwise_map.mp hapart
  · rw [owner_eq_some, hlength, ← htaken]
    exact ⟨And.left, fun hi => ⟨hi, h.filled.owned i hi⟩⟩

/-- **When the last arena is full** a call returns null and changes nothing. -/
theorem exhausted (h : Filled pool self objectSize.toNat count n s) (hcommits : p.Commits)
    (hfits : count * objectSize.toNat ≤ pool.arenaSize.toNat) (hcount : 0 < count)
    (hall : n = pool.arenaReserved.toNat * count) {request : UInt64}
    (hrequest : request ≤ objectSize) : s.step p (.allocate self request) = some (0, s) := by
  obtain ⟨a, ha, hsizes⟩ := Option.map_eq_some_iff.mp h.sizes
  obtain rfl : a.objectSize = objectSize := UInt64.toNat_inj.mp (Prod.mk.inj hsizes).1
  rcases h.allocate hcommits hfits hcount ha hrequest with
    ⟨block, s', -, -, -, h'⟩ | ⟨-, hstep⟩
  · -- there is no room for another block
    have hmore := h'.filled.covered
    have hle := Nat.mul_le_mul_right count h'.inv.geometry.count_le
    rw [h'.reserved] at hle
    omega
  · exact hstep

end Filled

namespace PoolSystem

variable {arenaSizeHint arenaCountHint self objectSize : UInt64} {env : π}

/-- The sizes of one allocator. -/
def soleSize (self objectSize : UInt64) : UInt64 → Option UInt64 :=
  Function.update (fun _ => none) self (some objectSize)

/-- A new allocator on a pool. -/
def newOn (pool : MemoryArenaPool) (self objectSize : UInt64) (m : Memory) (env : π) :
    PoolSystem π where
  arenas := ⟨pool, m, env⟩
  allocators other := (soleSize self objectSize other).map (PoolAllocator.create pool)
  live _ := none

/-- A new allocator of a pool for objects that are no smaller than a free node. -/
theorem sizesOf_soleSize (pool : MemoryArenaPool) (hsize : 24 ≤ objectSize.toNat) :
    sizesOf (fun other => (soleSize self objectSize other).map (PoolAllocator.create pool)) self =
      some (objectSize.toNat, (pool.arenaSize / objectSize).toNat) := by
  have hmax : (max objectSize freeNodeSize).toNat = objectSize.toNat := by
    rw [Bits.toNat_max]
    exact Nat.max_eq_left hsize
  rw [sizesOf, soleSize, Function.update_self, Option.map_some, Option.map_some,
    PoolAllocator.sizes, PoolAllocator.create, hmax]

/-- A new pool is ready. -/
theorem ready_create
    (hbuilt : (create p arenaSizeHint arenaCountHint env).1.records.isSome)
    (hspace : (create p arenaSizeHint arenaCountHint env).1.memoryRegion.memory.toNat +
      (recordSize arenaCountHint).toNat + arenaCountHint.toNat * arenaSizeHint.toNat < 2 ^ 64) :
    (create p arenaSizeHint arenaCountHint env).1.Ready := by
  obtain ⟨memory, hmemory, heq⟩ := create_eq hbuilt
  rw [heq] at hspace ⊢
  dsimp only at hspace
  refine ⟨hmemory, ?_, ?_, rfl⟩
  · show (recordSize arenaCountHint + arenaSizeHint * arenaCountHint).toNat = _
    rw [UInt64.toNat_add, UInt64.toNat_mul, Nat.add_mod_mod, Nat.mul_comm,
      Nat.mod_eq_of_lt (by omega)]
  · show (recordSize arenaCountHint).toNat = _ + (0 : UInt64).toNat * _
    rw [UInt64.toNat_zero, Nat.zero_mul, Nat.add_zero]

/-- **A new allocator on a pool without an arena** has no block. -/
theorem filled_new {pool : MemoryArenaPool} (hg : pool.Geometry) (hready : pool.Ready)
    (hempty : pool.arenaCount = 0) (hself : self ≠ 0) (hsize : 24 ≤ objectSize.toNat)
    (hle : objectSize ≤ pool.arenaSize) (m : Memory) (env : π) :
    Filled pool self objectSize.toNat (pool.arenaSize / objectSize).toNat 0
      (newOn pool self objectSize m env) := by
  have hpos : 0 < objectSize.toNat := Nat.lt_of_lt_of_le (by decide) hsize
  have hzero : pool.arenaCount.toNat = 0 := by
    rw [hempty, UInt64.toNat_zero]
  have hnone : ∀ i, ¬ i < pool.arenaCount.toNat := by
    intro i
    rw [hzero]
    exact Nat.not_lt_zero i
  have hnull : objectSize ≠ 0 := by
    rintro rfl
    exact Nat.lt_irrefl 0 hpos
  refine ⟨inv_new hg hempty hready.empty (fun _ _ => ne_zero_of_sole hself hnull) m,
    ⟨hready, Nat.zero_le _, fun i hi => absurd hi (hnone i), fun i hi => absurd hi (hnone i),
      fun hone => absurd (hzero.symm.trans hone) Nat.zero_ne_one⟩, ?_,
    sizesOf_soleSize pool hsize, ⟨rfl, rfl⟩, rfl⟩
  show pool.arenaCount.toNat * _ < _
  rw [hzero, Nat.zero_mul, Nat.zero_add, UInt64.toNat_div]
  exact Nat.div_pos (UInt64.le_iff_toNat_le.mp hle) hpos

/-- **A pool without an arena is filled in order** by the blocks of a new allocator. -/
theorem fills_new {pool : MemoryArenaPool} (hg : pool.Geometry) (hready : pool.Ready)
    (hempty : pool.arenaCount = 0) (hself : self ≠ 0) (hsize : 24 ≤ objectSize.toNat)
    (hle : objectSize ≤ pool.arenaSize) (hcommits : p.Commits) (m : Memory) (env : π)
    (calls : List PoolCall) (hcalls : ∀ call ∈ calls, call.Fills self objectSize)
    (hlegal : Along (step p) Legal (newOn pool self objectSize m env) calls)
    (hn : calls.countP PoolCall.isAllocate ≤
      pool.arenaReserved.toNat * (pool.arenaSize / objectSize).toNat) :
    ∃ outputs s, exec (step p) (newOn pool self objectSize m env) calls = some (outputs, s) ∧
      (obtained calls outputs).length = calls.countP PoolCall.isAllocate ∧
      s.InOrder self objectSize (pool.arenaSize / objectSize).toNat (obtained calls outputs) ∧
      (calls.countP PoolCall.isAllocate =
          pool.arenaReserved.toNat * (pool.arenaSize / objectSize).toNat →
        ∀ size ≤ objectSize, s.step p (.allocate self size) = some (0, s)) := by
  have hpos : 0 < objectSize.toNat := Nat.lt_of_lt_of_le (by decide) hsize
  have h := filled_new hg hready hempty hself hsize hle m env
  have hdiv : 0 < (pool.arenaSize / objectSize).toNat := by
    rw [UInt64.toNat_div]
    exact Nat.div_pos (UInt64.le_iff_toNat_le.mp hle) hpos
  have hfits : (pool.arenaSize / objectSize).toNat * objectSize.toNat ≤
      pool.arenaSize.toNat := by
    rw [UInt64.toNat_div]
    exact Nat.div_mul_le_self _ _
  obtain ⟨outputs, s, hrun, hne, hplaced, hfilled⟩ := h.run hcommits hfits hdiv calls hcalls hlegal
    (by rw [Nat.zero_add]; exact hn)
  rw [Nat.zero_add] at hfilled
  have hlength : (obtained calls outputs).length = calls.countP PoolCall.isAllocate := by
    have := congrArg List.length hplaced
    simpa using this
  exact ⟨outputs, s, hrun, hlength, hfilled.inOrder hfits hdiv hne hplaced,
    fun hall _ => hfilled.exhausted hcommits hfits hdiv hall⟩

/-- **The first calls fill the arenas in order**, whatever is written in the blocks, and when all of
them are full another call returns null and changes nothing. -/
theorem fills (hself : self ≠ 0) (hsize : freeNodeSize ≤ objectSize)
    (hle : objectSize ≤ arenaSizeHint)
    (hbuilt : (create p arenaSizeHint arenaCountHint env).1.records.isSome)
    (hcount : arenaCountHint.toNat * arenaRecordSize.toNat < 2 ^ 64)
    (hspace : (create p arenaSizeHint arenaCountHint env).1.memoryRegion.memory.toNat +
      (recordSize arenaCountHint).toNat + arenaCountHint.toNat * arenaSizeHint.toNat < 2 ^ 64)
    (hcommits : p.Commits) (m : Memory) (calls : List PoolCall)
    (hcalls : ∀ call ∈ calls, call.Fills self objectSize)
    (hlegal : Along (step p) Legal
      (start p arenaSizeHint arenaCountHint (soleSize self objectSize) m env) calls)
    (hn : calls.countP PoolCall.isAllocate ≤
      arenaCountHint.toNat * (arenaSizeHint / objectSize).toNat) :
    ∃ outputs s, exec (step p)
        (start p arenaSizeHint arenaCountHint (soleSize self objectSize) m env) calls =
          some (outputs, s) ∧
      (obtained calls outputs).length = calls.countP PoolCall.isAllocate ∧
      s.InOrder self objectSize (arenaSizeHint / objectSize).toNat (obtained calls outputs) ∧
      (calls.countP PoolCall.isAllocate =
          arenaCountHint.toNat * (arenaSizeHint / objectSize).toNat →
        ∀ size ≤ objectSize, s.step p (.allocate self size) = some (0, s)) := by
  have hgeometry := (laid_create hbuilt hcount hspace).geometry
  have hready := ready_create hbuilt hspace
  have hempty := (empty_create (p := p) arenaSizeHint arenaCountHint env).1
  have hhints := hints_create (p := p) arenaSizeHint arenaCountHint env
  unfold start at hlegal ⊢
  clear hbuilt hspace
  generalize create p arenaSizeHint arenaCountHint env = created at *
  obtain ⟨pool, env'⟩ := created
  obtain ⟨rfl, rfl⟩ := hhints
  exact fills_new hgeometry hready hempty hself (UInt64.le_iff_toNat_le.mp hsize) hle hcommits m
    env' calls hcalls hlegal hn

/-- Two arenas of two blocks are filled, while what the blocks were as free nodes is overwritten. -/
theorem fills_overwritten :
    let calls : List PoolCall := [.allocate 1 64, .write 0x20000 0 [1, 2, 3, 4, 5, 6, 7, 8, 9],
      .allocate 1 10, .allocate 1 64, .write 0x20080 8 [0xff, 0xff, 0xff], .allocate 1 0]
    ∃ outputs s, exec (step Platform.granting)
        (start Platform.granting 128 2 (soleSize 1 64) (fun _ => 0) ()) calls = some (outputs, s) ∧
      (obtained calls outputs).length = calls.countP PoolCall.isAllocate ∧
      s.InOrder 1 64 (128 / 64 : UInt64).toNat (obtained calls outputs) ∧
      (calls.countP PoolCall.isAllocate = (2 : UInt64).toNat * (128 / 64 : UInt64).toNat →
        ∀ size ≤ 64, s.step Platform.granting (.allocate 1 size) = some (0, s)) :=
  fills (by decide) (by decide) (by decide) rfl (by decide) (by decide)
    (fun _ _ _ _ => rfl) _ _ (by decide) (by decide) (by decide)

end PoolSystem

end Hologine.Memory
