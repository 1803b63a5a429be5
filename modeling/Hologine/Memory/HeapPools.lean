import Hologine.Memory.HeapAllocator
import Hologine.Memory.PoolLists
import Mathlib.Data.List.Perm.Subperm

/-!
# The pools of a heap allocator

Which pool `heap_allocator::allocate` selects for a size, and what the constructor and the
destructor make of the pools (`core/memory/heap_allocator.cpp:17-98`), with `~pool_allocator`
(`core/memory/pool_allocator.cpp:32-46`).

* The size is left out of the selection, so every size is asked of the smallest pool, unless the
  alignment asks for a larger one.
* The destructor counts the pools as the difference of the logarithms, where the constructor
  includes both of them, so it leaves the largest pool out.

Results:
* `selects_iff`: the sizes that are served are those that the smallest pool has room for.
* `keepsPools_iff`: the constructor builds its pools if the largest is of less than `2 ^ 31` bytes.
* `destroyed_eq`, `record_destroy`: the largest pool is not destroyed, and keeps its arenas.
* `never_destroysPools`: the two agree for no bounds.
-/

namespace Hologine.Memory

open Hologine.Library Hologine.Library.Bits Hologine.Math MemoryArenaPool

/-! ## The destructors -/

namespace PoolAllocator

/-- The loop of `~pool_allocator`, in so many steps. -/
def giveArenas : Nat → Option Nat → MemoryArenaPool → Option MemoryArenaPool
  | 0, _, _ => none
  | _, none, pool => some pool
  | steps + 1, some current, pool => do
    let record ← pool.getRecord current
    let next := record.next
    let pool ← pool.giveArena current
    giveArenas steps next pool

/-- `~pool_allocator`. -/
def destroy (a : PoolAllocator) (pool : MemoryArenaPool) : Option MemoryArenaPool :=
  giveArenas (steps pool) a.arenaListHead pool

end PoolAllocator

namespace HeapAllocator

/-- `maximum_pool_count`: how many pools the static buffer has room for. -/
def maximumPoolCount : Nat := 32

/-- The loop of `~heap_allocator`: the places of the pools it destroys, so many from one on. -/
def destroyPools : Nat → Nat → List Nat
  | 0, _ => []
  | count + 1, currentPoolIndex => currentPoolIndex :: destroyPools count (currentPoolIndex + 1)

/-- The places of the pools that `~heap_allocator` destroys. -/
def destroyed (h : HeapAllocator) : List Nat :=
  let poolCount := h.maximumPoolSize - h.minimumPoolSize
  destroyPools poolCount.toNat 0

/-- What `~heap_allocator` does to its arena pool before that is destroyed. -/
def destroy (h : HeapAllocator) (pools : List PoolAllocator) (pool : MemoryArenaPool) :
    Option MemoryArenaPool :=
  h.destroyed.foldlM (fun pool index => do
    let a ← pools[index]?
    a.destroy pool) pool

/-! ## What is asked of the pools -/

variable (h : HeapAllocator)

/-- **A size is served**: the pool selected has room for it, a block that this has is returned, and
nothing is out of memory. -/
structure Selects (size alignment : UInt64) : Prop where
  chosen : ∃ objectSize,
    h.objectSizes[(h.poolIndex alignment - h.minimumPoolSize).toNat]? = some objectSize ∧
      size ≤ objectSize ∧ ∀ obtained : UInt64, obtained ≠ 0 →
        obtained.toNat + objectSize.toNat ≤ 2 ^ 64 →
          ∃ pointer, pointer ≠ 0 ∧ h.allocate obtained size alignment = some ⟨[], pointer⟩
  noneRefused : ∀ obtained, h.allocate obtained size alignment ≠ some ⟨[.outOfMemory], 0⟩

/-- **There is a pool for every power of two** from the smallest to the largest, in the buffer. -/
structure KeepsPools (poolStart poolEnd : UInt64) : Prop where
  count : h.objectSizes.length = Nat.log2 poolEnd.toNat + 1 - Nat.log2 poolStart.toNat
  sized : ∀ k, Nat.log2 poolStart.toNat ≤ k → k ≤ Nat.log2 poolEnd.toNat → ∃ size,
    h.objectSizes[k - Nat.log2 poolStart.toNat]? = some size ∧ 2 ^ k ≤ size.toNat
  buffered : h.objectSizes.length ≤ maximumPoolCount

/-- The lists of arenas that pools have: they end, and no arena is on two of them. -/
structure Listed (pools : List PoolAllocator) (pool : MemoryArenaPool) (lists : Nat → List Nat) :
    Prop where
  chain : ∀ i a, pools[i]? = some a → Chain pool.link a.arenaListHead (lists i) ∧
    ∀ j ∈ lists i, j < pool.capacity
  disjoint : ∀ i i', i ≠ i' → (lists i).Disjoint (lists i')

/-- **All pools are destroyed**, each once, and then no arena of any is left with an allocator. -/
structure DestroysPools : Prop where
  each : h.destroyed.Perm (List.range h.objectSizes.length)
  given : ∀ pools pool lists, pools.length = h.objectSizes.length → Listed pools pool lists →
    ∃ pool', h.destroy pools pool = some pool' ∧
      ∀ i < pools.length, ∀ j ∈ lists i, (pool'.record j).allocator = 0

variable {h} {poolStart poolEnd size alignment : UInt64}

/-! ## Selecting a pool -/

/-- A larger number has no smaller logarithm. -/
theorem log2_le_log2 {m n : Nat} (hpos : 0 < m) (hle : m ≤ n) : Nat.log2 m ≤ Nat.log2 n :=
  (Nat.le_log2 (by omega)).mpr ((Nat.log2_self_le (by omega)).trans hle)

/-- The smallest pool is selected for every alignment that is at most the default one. -/
theorem selected_of_le (poolStart : UInt64) (halign : alignment ≤ defaultAlignment) :
    selected poolStart alignment = Nat.log2 poolStart.toNat := by
  have hle := UInt64.le_iff_toNat_le.mp halign
  have hsixteen : defaultAlignment.toNat = 16 := rfl
  have hzero : alignment.toNat - 17 = 0 := by omega
  rw [selected, hzero, Nat.log2_zero]
  exact Nat.zero_max _

/-- **What `allocate` does for an alignment that is at most the default one**: it asks the smallest
pool, whatever the size. -/
theorem allocate_smallest (hcreate : create poolStart poolEnd = some h)
    (halign : alignment ≤ defaultAlignment) :
    ∃ objectSize,
      h.objectSizes[(h.poolIndex alignment - h.minimumPoolSize).toNat]? = some objectSize ∧
      objectSize.toNat = Memory.objectSize (Nat.log2 poolStart.toNat) ∧
        ∀ size obtained, h.allocate obtained size alignment =
          some (if size > objectSize then ⟨[.invalidArgument], 0⟩
            else ⟨[], if obtained = 0 then 0 else alignPointer obtained alignment⟩) := by
  obtain ⟨⟨hstart, hle, -⟩, -⟩ := create_eq_some.mp hcreate
  have hselected := selected_of_le poolStart halign
  have hindex := toNat_poolIndex hcreate alignment
  have hmax : h.maximumPoolSize.toNat = Nat.log2 poolEnd.toNat := by
    obtain ⟨-, rfl⟩ := create_eq_some.mp hcreate
    exact toNat_bitLog2 poolEnd
  have hlog := log2_le_log2 (UInt64.lt_iff_toNat_lt.mp hstart) (UInt64.le_iff_toNat_le.mp hle)
  have hroom : ¬ h.poolIndex alignment > h.maximumPoolSize := by
    rw [gt_iff_lt, UInt64.lt_iff_toNat_lt, hindex, hmax, hselected]
    omega
  obtain ⟨objectSize, hget, hsize⟩ := getElem_objectSizes hcreate (hselected ▸ hlog)
  rw [hselected] at hsize
  refine ⟨objectSize, hget, hsize, fun size obtained => ?_⟩
  unfold allocate
  simp only [if_neg hroom, hget, Option.bind_eq_bind, Option.bind_some, poolAllocate]
  by_cases hbig : size > objectSize
  · simp [hbig]
  · by_cases hnull : obtained = 0
    · simp [hbig, hnull]
    · simp [hbig, hnull]

/-- A pointer is not aligned to null if there is room above it. -/
theorem alignPointer_ne_zero {pointer : UInt64} (hpointer : pointer ≠ 0) (halign : alignment ≠ 0)
    (hroom : pointer.toNat + alignment.toNat ≤ 2 ^ 64) : alignPointer pointer alignment ≠ 0 := by
  have hpos := toNat_pos hpointer
  have hone := toNat_pos halign
  have hoffset := toNat_sub_one hone
  intro hnull
  have hle := UInt64.le_iff_toNat_le.mp (le_of_and_not_eq_zero hnull)
  rw [UInt64.toNat_add, hoffset, Nat.mod_eq_of_lt (by omega)] at hle
  omega

/-- **A size is served iff the smallest pool has room for it**, and the alignment is not zero. -/
theorem selects_iff (hcreate : create poolStart poolEnd = some h) {a : Nat}
    (hpower : poolStart.toNat = 2 ^ a) (halign : alignment ≤ defaultAlignment) :
    h.Selects size alignment ↔ size.toNat ≤ max poolStart.toNat 24 ∧ alignment ≠ 0 := by
  obtain ⟨objectSize, hget, hobject, hrun⟩ := allocate_smallest hcreate halign
  rw [hpower, Nat.log2_two_pow, Memory.objectSize, ← hpower] at hobject
  rw [← hobject, ← UInt64.le_iff_toNat_le]
  have hlog := log2_poolEnd_lt hcreate
  have hle := UInt64.le_iff_toNat_le.mp halign
  have hsixteen : defaultAlignment.toNat = 16 := rfl
  constructor
  · intro hselects
    obtain ⟨objectSize', hget', hfits, hserved⟩ := hselects.chosen
    obtain rfl : objectSize = objectSize' := Option.some.inj (hget.symm.trans hget')
    refine ⟨hfits, ?_⟩
    rintro rfl
    -- on an alignment of zero every block is moved to null
    obtain ⟨⟨hpos, hstart, -⟩, -⟩ := create_eq_some.mp hcreate
    have hpos := UInt64.lt_iff_toNat_lt.mp hpos
    have hstart := UInt64.le_iff_toNat_le.mp hstart
    have hend : poolEnd.toNat < 2 ^ 31 := (Nat.log2_lt (by omega)).mp hlog
    have hblock : (16 : UInt64).toNat = 16 := rfl
    obtain ⟨pointer, hpointer, hrun'⟩ := hserved 16 (by decide) (by omega)
    rw [hrun, if_neg (UInt64.not_lt.mpr hfits), if_neg (by decide)] at hrun'
    refine hpointer ?_
    rw [← (Outcome.mk.inj (Option.some.inj hrun')).2]
    decide
  · rintro ⟨hfits, hne⟩
    have hrun' := fun obtained => (hrun size obtained).trans
      (congrArg some (if_neg (UInt64.not_lt.mpr hfits)))
    refine ⟨⟨objectSize, hget, hfits, fun obtained hob hroom => ?_⟩, fun obtained hrefused => ?_⟩
    · refine ⟨alignPointer obtained alignment, alignPointer_ne_zero hob hne (by omega), ?_⟩
      rw [hrun', if_neg hob]
    · have hpushed := (Outcome.mk.inj (Option.some.inj ((hrun' obtained).symm.trans hrefused))).1
      exact absurd hpushed (by simp)

/-- Twenty bytes, of the default pools. -/
theorem selects_iff_small : ∃ h, create 0x20 0x10000 = some h ∧ h.Selects 20 16 := by
  obtain ⟨h, hcreate⟩ : ∃ h, create 0x20 0x10000 = some h := ⟨_, rfl⟩
  exact ⟨h, hcreate, (selects_iff hcreate (a := 5) rfl (by decide)).mpr ⟨by decide, by decide⟩⟩

/-- **A size between two pools is not served**: 100 bytes, which the default pools include. -/
theorem not_selects : ¬ ∀ (poolStart poolEnd : UInt64) (h : HeapAllocator)
    (size alignment : UInt64),
    create poolStart poolEnd = some h → (∃ a, poolStart.toNat = 2 ^ a) →
      (∃ b, poolEnd.toNat = 2 ^ b) → alignment ≤ defaultAlignment → size ≤ poolEnd →
        h.Selects size alignment := by
  intro hall
  obtain ⟨h, hcreate⟩ : ∃ h, create 0x20 0x10000 = some h := ⟨_, rfl⟩
  obtain ⟨objectSize, hget, hobject, -⟩ := allocate_smallest hcreate
    (show (16 : UInt64) ≤ defaultAlignment by decide)
  obtain ⟨objectSize', hget', hfits, -⟩ :=
    (hall _ _ h 100 16 hcreate ⟨5, rfl⟩ ⟨16, rfl⟩ (by decide) (by decide)).chosen
  obtain rfl : objectSize = objectSize' := Option.some.inj (hget.symm.trans hget')
  have hle := UInt64.le_iff_toNat_le.mp hfits
  rw [hobject] at hle
  revert hle
  decide

/-! ## The constructor's pools -/

theorem length_constructPools (start count : Nat) :
    (constructPools start count).length = count := by
  induction count generalizing start with
  | zero => rfl
  | succ count ih => rw [constructPools, List.length_cons, ih]

/-- **The constructor builds its pools iff the largest is of less than `2 ^ 31` bytes.** -/
theorem keepsPools_iff (hpos : 0 < poolStart) (hle : poolStart ≤ poolEnd) :
    (∃ h, create poolStart poolEnd = some h ∧ h.KeepsPools poolStart poolEnd) ↔
      poolEnd.toNat < 2 ^ 31 := by
  have hpos' := UInt64.lt_iff_toNat_lt.mp hpos
  have hle' := UInt64.le_iff_toNat_le.mp hle
  rw [UInt64.toNat_zero] at hpos'
  have hlog : bitLog2 poolEnd < 31 ↔ poolEnd.toNat < 2 ^ 31 := by
    rw [UInt64.lt_iff_toNat_lt, toNat_bitLog2]
    exact Nat.log2_lt (by omega)
  constructor
  · rintro ⟨h, hcreate, -⟩
    exact hlog.mp (create_eq_some.mp hcreate).1.2.2
  · intro hend
    have hcreate := create_eq_some.mpr ⟨⟨hpos, hle, hlog.mpr hend⟩, rfl⟩
    have hlast := log2_poolEnd_lt hcreate
    refine ⟨_, hcreate, length_constructPools _ _, fun k hstart hk => ?_, ?_⟩
    · have hget := getElem_constructPools (Nat.log2 poolEnd.toNat + 1 - Nat.log2 poolStart.toNat)
        (Nat.log2 poolStart.toNat) (k - Nat.log2 poolStart.toNat) (by omega)
      rw [Nat.add_sub_cancel' hstart] at hget
      refine ⟨_, hget, ?_⟩
      rw [toNat_objectSize (by omega)]
      exact Nat.le_max_left _ _
    · rw [length_constructPools]
      show _ ≤ 32
      omega

/-! ## The destructor's pools -/

theorem destroyPools_eq (count index : Nat) :
    destroyPools count index = List.range' index count := by
  induction count generalizing index with
  | zero => rfl
  | succ count ih => rw [destroyPools, ih, List.range'_succ]

/-- **The destructor leaves one pool out**, the last. -/
theorem destroyed_eq (hcreate : create poolStart poolEnd = some h) :
    ∃ n, h.objectSizes.length = n + 1 ∧ h.destroyed = List.range n := by
  obtain ⟨⟨hpos, hle, -⟩, rfl⟩ := create_eq_some.mp hcreate
  have hlog := log2_le_log2 (UInt64.lt_iff_toNat_lt.mp hpos) (UInt64.le_iff_toNat_le.mp hle)
  refine ⟨Nat.log2 poolEnd.toNat - Nat.log2 poolStart.toNat, ?_, ?_⟩
  · rw [length_constructPools]
    omega
  · have hsub : (bitLog2 poolEnd - bitLog2 poolStart).toNat =
        Nat.log2 poolEnd.toNat - Nat.log2 poolStart.toNat := by
      rw [UInt64.toNat_sub_of_le, toNat_bitLog2, toNat_bitLog2]
      rw [UInt64.le_iff_toNat_le, toNat_bitLog2, toNat_bitLog2]
      exact hlog
    rw [destroyed, hsub, destroyPools_eq, List.range_eq_range']

/-- **`~pool_allocator`** ends and assigns only the records on the list of the allocator. -/
theorem giveArenas_eq {pool : MemoryArenaPool} {head : Option Nat} {l : List Nat}
    (hchain : Chain pool.link head l) (hl : ∀ i ∈ l, i < pool.capacity) {steps : Nat}
    (hsteps : l.length < steps) :
    ∃ pool', PoolAllocator.giveArenas steps head pool = some pool' ∧
      pool'.capacity = pool.capacity ∧ ∀ j, j ∉ l → pool'.record j = pool.record j := by
  induction l generalizing pool head steps with
  | nil =>
    obtain ⟨steps, rfl⟩ := Nat.exists_eq_succ_of_ne_zero (Nat.ne_of_gt hsteps)
    cases hchain
    exact ⟨pool, rfl, rfl, fun _ _ => rfl⟩
  | cons i l ih =>
    obtain ⟨steps, rfl⟩ := Nat.exists_eq_succ_of_ne_zero (Nat.ne_of_gt (Nat.zero_lt_of_lt hsteps))
    have hnodup := hchain.nodup
    have hi := hl i List.mem_cons_self
    cases hchain with
    | cons hrest =>
      obtain ⟨hnot, -⟩ := List.nodup_cons.mp hnodup
      have hgive := giveArena_eq hi
      generalize hpool₁ : ({ pool.set i _ with nextFreeArena := some i } : MemoryArenaPool) = pool₁
        at hgive
      have hcapacity : pool₁.capacity = pool.capacity := by
        rw [← hpool₁]
        exact capacity_set
      have hrecord : ∀ j, j ≠ i → pool₁.record j = pool.record j := by
        intro j hj
        rw [← hpool₁]
        exact (congrFun (record_set hi) j).trans (Function.update_of_ne hj _ _)
      -- the rest of the list is as it was
      have hrest₁ : Chain pool₁.link (pool.link i) l := hrest.congr fun j hj => by
        rw [link, link, hrecord j (ne_of_mem_of_not_mem hj hnot)]
      obtain ⟨pool', hrun, hcapacity', hsame⟩ := ih hrest₁
        (fun j hj => hcapacity ▸ hl j (List.mem_cons_of_mem i hj)) (Nat.lt_of_succ_lt_succ hsteps)
      refine ⟨pool', ?_, hcapacity'.trans hcapacity, fun j hj => ?_⟩
      · rw [PoolAllocator.giveArenas, getRecord_eq hi]
        simp only [Option.bind_eq_bind, Option.bind_some, hgive]
        exact hrun
      · obtain ⟨hne, hj'⟩ := List.ne_and_not_mem_of_not_mem_cons hj
        rw [hsame j hj', hrecord j hne]

/-- A list of arenas is shorter than the walk that `~pool_allocator` takes. -/
theorem length_lt_steps {pool : MemoryArenaPool} {head : Option Nat} {l : List Nat}
    (hchain : Chain pool.link head l) (hl : ∀ i ∈ l, i < pool.capacity) :
    l.length < PoolAllocator.steps pool := by
  have hsubset : l ⊆ List.range pool.capacity := fun i hi => List.mem_range.mpr (hl i hi)
  have hlength := (List.Nodup.subperm hchain.nodup hsubset).length_le
  rw [List.length_range] at hlength
  exact Nat.lt_succ_of_le hlength

/-- **The loop of the destructor** is defined, and assigns only records of the pools it destroys. -/
theorem foldlM_destroy {pools : List PoolAllocator} {lists : Nat → List Nat}
    (hdisjoint : ∀ i i', i ≠ i' → (lists i).Disjoint (lists i')) {count index : Nat}
    {pool : MemoryArenaPool} (hlength : index + count ≤ pools.length)
    (hlists : ∀ i a, index ≤ i → pools[i]? = some a → Chain pool.link a.arenaListHead (lists i) ∧
      ∀ j ∈ lists i, j < pool.capacity) :
    ∃ pool', (destroyPools count index).foldlM (fun pool index => do
        let a ← pools[index]?
        a.destroy pool) pool = some pool' ∧
      ∀ j, (∀ i, index ≤ i → i < index + count → j ∉ lists i) →
        pool'.record j = pool.record j := by
  induction count generalizing index pool with
  | zero => exact ⟨pool, rfl, fun _ _ => rfl⟩
  | succ count ih =>
    have hindex : index < pools.length := by omega
    obtain ⟨hchain, hcapacity⟩ :=
      hlists index (pools.get ⟨index, hindex⟩) (Nat.le_refl _) (List.getElem?_eq_getElem hindex)
    obtain ⟨pool₁, hdestroy, hcapacity₁, hsame⟩ :=
      giveArenas_eq hchain hcapacity (length_lt_steps hchain hcapacity)
    -- the lists of the pools that come next are as they were
    have hlists₁ : ∀ i a, index + 1 ≤ i → pools[i]? = some a →
        Chain pool₁.link a.arenaListHead (lists i) ∧ ∀ j ∈ lists i, j < pool₁.capacity := by
      intro i a hi ha
      obtain ⟨hchain', hcapacity'⟩ := hlists i a (by omega) ha
      refine ⟨hchain'.congr fun j hj => ?_, fun j hj => hcapacity₁ ▸ hcapacity' j hj⟩
      rw [link, link, hsame j fun hj' => hdisjoint index i (by omega) hj' hj]
    obtain ⟨pool', hrun, hsame'⟩ := ih (by omega) hlists₁
    refine ⟨pool', ?_, fun j hj => ?_⟩
    · have hget : pools[index]? = some (pools.get ⟨index, hindex⟩) :=
        List.getElem?_eq_getElem hindex
      rw [destroyPools, List.foldlM_cons, hget]
      simp only [Option.bind_eq_bind, Option.bind_some]
      rw [PoolAllocator.destroy, hdestroy]
      exact hrun
    · rw [hsame' j fun i hi hi' => hj i (by omega) (by omega),
        hsame j (hj index (Nat.le_refl _) (by omega))]

/-- **The last pool keeps its arenas.** -/
theorem record_destroy (hcreate : create poolStart poolEnd = some h) {pools : List PoolAllocator}
    {pool : MemoryArenaPool} {lists : Nat → List Nat}
    (hlength : pools.length = h.objectSizes.length) (hlisted : Listed pools pool lists) :
    ∃ pool', h.destroy pools pool = some pool' ∧
      ∀ j ∈ lists (h.objectSizes.length - 1), pool'.record j = pool.record j := by
  obtain ⟨n, hcount, hdestroyed⟩ := destroyed_eq hcreate
  have heq : h.destroyed = destroyPools n 0 := by
    rw [hdestroyed, destroyPools_eq, List.range_eq_range']
  have hall : 0 + n ≤ pools.length := by omega
  obtain ⟨pool', hrun, hsame⟩ := foldlM_destroy hlisted.disjoint hall
    fun i a _ ha => hlisted.chain i a ha
  refine ⟨pool', ?_, fun j hj => hsame j fun i _ hi hj' => ?_⟩
  · rw [destroy, heq]
    exact hrun
  · exact hlisted.disjoint i _ (by omega) hj' hj

/-- **The pools are not all destroyed**, whatever the bounds: they are built iff the largest is of
less than `2 ^ 31` bytes, and then it keeps its arenas. -/
theorem never_destroysPools (poolStart poolEnd : UInt64) (hpos : 0 < poolStart)
    (hle : poolStart ≤ poolEnd) :
    ((∃ h, create poolStart poolEnd = some h ∧ h.KeepsPools poolStart poolEnd) ↔
        poolEnd.toNat < 2 ^ 31) ∧
      ∀ h, create poolStart poolEnd = some h → ¬ h.DestroysPools ∧
        ∀ pools pool lists, pools.length = h.objectSizes.length → Listed pools pool lists →
          ∃ pool', h.destroy pools pool = some pool' ∧
            ∀ j ∈ lists (h.objectSizes.length - 1), pool'.record j = pool.record j := by
  refine ⟨keepsPools_iff hpos hle, fun h hcreate => ⟨fun hdestroys => ?_, ?_⟩⟩
  · obtain ⟨n, hcount, hdestroyed⟩ := destroyed_eq hcreate
    have hlength := hdestroys.each.length_eq
    rw [hdestroyed, hcount, List.length_range, List.length_range] at hlength
    omega
  · exact fun _ _ _ hlength hlisted => record_destroy hcreate hlength hlisted

/-- The default pools. -/
theorem never_destroysPools_default :
    ∃ h, create 0x20 0x10000 = some h ∧ ¬ h.DestroysPools := by
  obtain ⟨h, hcreate⟩ : ∃ h, create 0x20 0x10000 = some h := ⟨_, rfl⟩
  exact ⟨h, hcreate, ((never_destroysPools 0x20 0x10000 (by decide) (by decide)).2 h hcreate).1⟩

/-- **The largest of the default pools is not destroyed**: of twelve, eleven are. -/
theorem not_destroysPools : ¬ ∀ poolStart poolEnd : UInt64, 0 < poolStart → poolStart ≤ poolEnd →
    ∃ h, create poolStart poolEnd = some h ∧ h.KeepsPools poolStart poolEnd ∧
      h.DestroysPools := by
  intro hall
  obtain ⟨h, hcreate, -, hdestroys⟩ := hall 0x20 0x10000 (by decide) (by decide)
  obtain ⟨n, hcount, hdestroyed⟩ := destroyed_eq hcreate
  have hlength := hdestroys.each.length_eq
  rw [hdestroyed, hcount, List.length_range, List.length_range] at hlength
  omega

end HeapAllocator

end Hologine.Memory
