import Hologine.Library.Owners
import Hologine.Memory.HeapAllocator
import Hologine.Memory.PoolFit

/-!
# Heap allocators and their pools

Model of `heap_allocator` (`core/memory/heap_allocator.cpp:17-98`) over the pool allocators that its
constructor makes and the arena pool that they share, as they are. `allocate` selects a pool, takes
a block of it and moves the pointer up in the block; `deallocate` finds the arena that its pointer
is in, and calls the pool that the record of the arena names.

Clients give back the pointers they were returned, and write in what they asked for.

Results:
* `HeapSystem.safe_step`: a call whose request fits, and whose pool can meet it, is safe.
* `HeapSystem.safe_of_pools`: so are all calls of a run of such calls.
* `HeapSystem.safe_of_obtains`: **while nothing is given back, the pools can always meet it**.
-/

namespace Hologine.Memory

open Hologine.Library.Align Hologine.Library.Bits Hologine.Library.Owners Hologine.Library.Run
  Hologine.Math MemoryArenaPool

/-- `sizeof(pool_allocator)`, its virtual table included. -/
def poolAllocatorSize : UInt64 := 48

/-- The loop of the constructor: the size that each pool is constructed with, by its address. -/
def constructPoolAllocators : UInt64 → Nat → Nat → UInt64 → Option UInt64
  | _, _, 0 => fun _ => none
  | current, currentSize, count + 1 =>
    Function.update (constructPoolAllocators (current + poolAllocatorSize) (currentSize + 1) count)
      current (some (1 <<< UInt64.ofNat currentSize))

/-- A heap allocator with its pools, and the block and the size of each pointer it returned. -/
structure HeapSystem (π : Type) where
  heap : HeapAllocator
  poolAllocators : UInt64
  pools : PoolSystem π
  results : UInt64 → Option (UInt64 × UInt64)

/-- A call of the allocator, or a write of a client. -/
inductive HeapCall
  | allocate (request : Request)
  | deallocate (pointer : UInt64)
  | write (pointer : UInt64) (offset : Nat) (bytes : List UInt8)

namespace HeapSystem

variable {π : Type} (p : Platform π)

/-- The constructor, for a buffer of pools at an address. -/
def start (arenaSize arenaCount poolStart poolEnd poolAllocators : UInt64) (m : Library.Memory)
    (env : π) : Option (HeapSystem π) := do
  let heap ← HeapAllocator.create poolStart poolEnd
  some {
    heap := heap
    poolAllocators := poolAllocators
    pools := PoolSystem.start p arenaSize arenaCount (constructPoolAllocators poolAllocators
      heap.minimumPoolSize.toNat
      (heap.maximumPoolSize.toNat + 1 - heap.minimumPoolSize.toNat)) m env
    results := fun _ => none }

/-- The pool that `allocate` selects, unless it is out of memory. -/
def selectedPool (s : HeapSystem π) (alignment : UInt64) : Option UInt64 :=
  let poolIndex := s.heap.poolIndex alignment
  if poolIndex > s.heap.maximumPoolSize then none
  else some (s.poolAllocators + (poolIndex - s.heap.minimumPoolSize) * poolAllocatorSize)

/-- `allocate`: the block of the pool and the pointer in it, or null. -/
def allocate (s : HeapSystem π) (size alignment : UInt64) :
    Option (UInt64 × UInt64 × HeapSystem π) :=
  match s.selectedPool alignment with
  | none => some (0, 0, { s with pools := { s.pools with arenas := { s.pools.arenas with
      env := p.pushException .outOfMemory s.pools.arenas.env } } })
  | some pool => do
    let (basePointer, pools) ← s.pools.step p (.allocate pool size)
    let pointer := if basePointer = 0 then 0 else alignPointer basePointer alignment
    some (basePointer, pointer, { s with pools := pools })

/-- `deallocate`. -/
def deallocate (s : HeapSystem π) (pointer : UInt64) : Option (HeapSystem π) := do
  let arena ← s.pools.arenas.pool.getArena pointer
  let record ← s.pools.arenas.pool.getRecord arena
  let a ← s.pools.allocators record.allocator
  let (a, arenas) ← a.deallocate record.allocator pointer s.pools.arenas
  some { s with
    pools := {
      arenas := arenas
      allocators := Function.update s.pools.allocators record.allocator (some a)
      live := ((s.results pointer).map fun r => Function.update s.pools.live r.1 none).getD
        s.pools.live }
    results := Function.update s.results pointer none }

/-- One call: the pointer that is returned, or null. -/
def step (s : HeapSystem π) : HeapCall → Option (UInt64 × HeapSystem π)
  | .allocate request => do
    let (block, pointer, s) ← s.allocate p request.size request.alignment
    some (pointer, { s with
      results := if pointer = 0 then s.results
        else Function.update s.results pointer (some (block, request.size)) })
  | .deallocate pointer => do
    let s ← s.deallocate pointer
    some (0, s)
  | .write pointer offset bytes =>
    some (0, { s with pools := { s.pools with arenas := { s.pools.arenas with
      memory := s.pools.arenas.memory.write (pointer.toNat + offset) bytes } } })

/-- A pointer is given back that was returned, and written in what was asked for. -/
def Legal (s : HeapSystem π) : HeapCall → Prop
  | .allocate _ => True
  | .deallocate pointer => (s.results pointer).isSome
  | .write pointer offset bytes =>
    ∃ r ∈ s.results pointer, offset + bytes.length ≤ r.2.toNat

instance (s : HeapSystem π) (call : HeapCall) : Decidable (s.Legal call) :=
  match call with
  | .allocate _ => isTrue trivial
  | .deallocate pointer => inferInstanceAs (Decidable ((s.results pointer).isSome = true))
  | .write pointer _ _ => Option.decidableExistsMem (s.results pointer)

/-- **The pools' conditions**: of the allocation in the pool selected, and of the deallocation of
the block that a pointer is in. -/
def Sound (s : HeapSystem π) : HeapCall → Prop
  | .allocate request => ∀ pool ∈ s.selectedPool request.alignment,
    s.pools.Sound p (.allocate pool request.size)
  | .deallocate pointer => ∀ r ∈ s.results pointer, ∀ pool ∈ s.pools.live r.1,
    s.pools.Sound p (.deallocate pool r.1)
  | .write _ _ _ => True

instance (s : HeapSystem π) (call : HeapCall) : Decidable (s.Sound p call) :=
  match call with
  | .allocate request => Option.decidableForallMem (s.selectedPool request.alignment)
  | .deallocate pointer =>
    have (r : UInt64 × UInt64) :
        Decidable (∀ pool ∈ s.pools.live r.1, s.pools.Sound p (.deallocate pool r.1)) :=
      Option.decidableForallMem (s.pools.live r.1)
    Option.decidableForallMem (s.results pointer)
  | .write _ _ _ => isTrue trivial

end HeapSystem

/-- **The condition on requests**: they fit the pools from `poolStart` to `poolEnd`. -/
def HeapCall.Fits (poolStart poolEnd : UInt64) : HeapCall → Prop
  | .allocate request => Memory.Fits poolStart poolEnd request
  | _ => True

/-- An allocation or a write. -/
def HeapCall.Obtains : HeapCall → Prop
  | .deallocate _ => False
  | _ => True

instance (poolStart poolEnd : UInt64) (call : HeapCall) : Decidable (call.Fits poolStart poolEnd) :=
  match call with
  | .allocate _ => inferInstanceAs (Decidable (_ ∨ _ ∨ _ ∨ _))
  | .deallocate _ => isTrue trivial
  | .write _ _ _ => isTrue trivial

instance (call : HeapCall) : Decidable call.Obtains :=
  match call with
  | .allocate _ => isTrue trivial
  | .deallocate _ => isFalse id
  | .write _ _ _ => isTrue trivial

/-- Some bytes at a pointer lie in an arena. -/
def MemoryArenaPool.Contains (pool : MemoryArenaPool) (pointer size : UInt64) : Prop :=
  ∃ i < pool.arenaCount.toNat, pool.arenaBase i ≤ pointer.toNat ∧
    pointer.toNat + size.toNat ≤ pool.arenaBase i + pool.arenaSize.toNat

/-- **What every call must do.** It is defined; a pointer that it returns is aligned as requested,
what was requested there lies in an arena, and overlaps nothing that was returned and not given
back; and a pointer that is given back reaches the pool that its block is from, which gets the block
back. -/
def HeapSystem.Safe {π : Type} (p : Platform π) (s : HeapSystem π) (call : HeapCall) : Prop :=
  ∃ pointer s', s.step p call = some (pointer, s') ∧
    (∀ request, call = .allocate request → pointer ≠ 0 →
      request.alignment.toNat ∣ pointer.toNat ∧
      s'.pools.arenas.pool.Contains pointer request.size ∧
      s.results pointer = none ∧ ∀ other block size, s.results other = some (block, size) →
        Disjoint pointer request.size other size) ∧
    ∀ other block size, call = .deallocate other → s.results other = some (block, size) →
      ∃ pool, s.pools.live block = some pool ∧
        s.pools.step p (.deallocate pool block) = some (0, s'.pools)

/-! ## What a call of a pool keeps -/

section

variable {π : Type} {p : Platform π} {pool pool' : MemoryArenaPool} {a a' : PoolAllocator}
  {self block size : UInt64} {env env' : π} {s : PoolSystem π}

/-- A pool that grows keeps its arenas where they are. -/
theorem MemoryArenaPool.Grown.samePlaces (h : Grown pool pool') : SamePlaces pool pool' := by
  cases h with
  | region region => exact ⟨rfl, rfl⟩
  | arena region hlt => exact ⟨rfl, rfl⟩

/-- And so does one whose records are linked anew. -/
theorem MemoryArenaPool.Relinked.samePlaces (h : Relinked pool pool') : SamePlaces pool pool' := by
  unfold SamePlaces
  rw [h.records]
  exact ⟨rfl, rfl⟩

theorem SamePlaces.trans {pool'' : MemoryArenaPool} (h : SamePlaces pool pool')
    (h' : SamePlaces pool' pool'') : SamePlaces pool pool'' :=
  ⟨h'.1.trans h.1, h'.2.trans h.2⟩

/-- The arenas stay where they are. -/
theorem samePlaces_of_allocates (h : a.Allocates p self pool env block a' pool' env') :
    SamePlaces pool pool' := by
  cases h with
  | node list _ _ _ => exact ⟨rfl, rfl⟩
  | none _ hrequest =>
    cases hrequest with
    | none hgrown _ => exact hgrown.samePlaces
  | arena list _ hrequest =>
    cases hrequest with
    | arena hgrown _ _ hrelinked _ =>
      -- neither the request nor the node that is taken moves an arena
      have hplaces : SamePlaces _ _ := hrelinked.samePlaces
      exact hgrown.samePlaces.trans hplaces

namespace PoolSystem

/-- What a call of a pool leaves as it is: the places of the arenas, and the sizes. -/
structure Keeps (s s' : PoolSystem π) : Prop where
  places : SamePlaces s.arenas.pool s'.arenas.pool
  sizes : sizesOf s'.allocators = sizesOf s.allocators

/-- **An allocation** whose condition holds. -/
theorem Inv.allocate_step (h : s.Inv) (ha : s.allocators self = some a)
    (hsound : s.Sound p (.allocate self size)) :
    ∃ block s', s.step p (.allocate self size) = some (block, s') ∧ s'.Inv ∧ s.Keeps s' ∧
      s'.live = (if block = 0 then s.live else Function.update s.live block (some self)) ∧
      (block ≠ 0 → size ≤ a.objectSize ∧ s'.arenas.pool.Holds self block a.objectSize.toNat ∧
        Apart (sizesOf s.allocators) s.live block a.objectSize.toNat) := by
  by_cases hsize : size ≤ a.objectSize
  · obtain ⟨block, a', pool', m', env', hrun, hallocates, -, hsizes, hinv, hblock⟩ :=
      PoolInv.allocate_of_le h ha hsize (hsound a ha hsize)
    exact ⟨block, _, step_allocate ha hrun, hinv,
      ⟨samePlaces_of_allocates hallocates, sizesOf_update ha hsizes⟩, rfl,
      fun hne => ⟨hsize, hblock hne⟩⟩
  · have hrun : a.allocate p self size s.arenas = some (0, a, { s.arenas with
        env := p.pushException .invalidArgument s.arenas.env }) :=
      if_pos (UInt64.not_le.mp hsize)
    have hsame : Function.update s.allocators self (some a) = s.allocators := by
      rw [← ha, Function.update_eq_self]
    have hstep := step_allocate ha hrun
    rw [if_pos rfl, hsame] at hstep
    exact ⟨0, _, hstep, h, ⟨⟨rfl, rfl⟩, rfl⟩, (if_pos rfl).symm, fun hne => absurd rfl hne⟩

/-- **A deallocation** whose condition holds. -/
theorem Inv.deallocate_step (h : s.Inv) (hlive : s.live block = some self)
    (hsound : s.Sound p (.deallocate self block)) :
    ∃ a a' arenas, s.allocators self = some a ∧
      a.deallocate self block s.arenas = some (a', arenas) ∧
      (PoolSystem.Inv ⟨arenas, Function.update s.allocators self (some a'),
        Function.update s.live block none⟩) ∧
      s.Keeps ⟨arenas, Function.update s.allocators self (some a'),
        Function.update s.live block none⟩ := by
  obtain ⟨a, ha⟩ := h.exists_allocator hlive
  obtain ⟨a', pool', hrun, hdeallocates, hinv⟩ := h.deallocate ha hlive (hsound a ha) s.arenas.env
  refine ⟨a, a', _, ha, hrun, hinv, ?_⟩
  cases hdeallocates with
  | arena hget hi hsizes hrelinked hsole =>
    have hplaces : SamePlaces _ _ := hrelinked.samePlaces
    exact ⟨hplaces, sizesOf_update ha hsizes⟩

end PoolSystem

/-- **A pointer in the only live block of its arena** frees the arena as the block does. -/
theorem PoolAllocator.deallocate_congr {arenas : Arenas π} {pointer : UInt64} {i : Nat}
    (hget : arenas.pool.getArena pointer = some i) (hget' : arenas.pool.getArena block = some i)
    (hi : i < arenas.pool.capacity)
    (hone : (arenas.pool.record i).freeNodeCount + 1 = a.objectCount) :
    a.deallocate self pointer arenas = a.deallocate self block arenas := by
  unfold PoolAllocator.deallocate
  simp only [hget, hget', getRecord_eq hi, Option.bind_eq_bind, Option.bind_some, if_pos hone]

end

/-! ## Requests that fit -/

section

variable {poolStart poolEnd : UInt64}

/-- A pool that is not of less than 32 bytes has objects of its size. -/
theorem objectSize_eq {k : Nat} (h : 5 ≤ k) : objectSize k = 2 ^ k := by
  have := Nat.pow_le_pow_right (show 0 < 2 by decide) h
  rw [objectSize]
  omega

/-- **There is room for a request that fits**, and for more than its alignment takes, if no pool has
objects of less than 32 bytes. -/
theorem room_of_fits (hstart : 32 ≤ poolStart.toNat) {request : Request}
    (hselected : selected poolStart request.alignment ≤ Nat.log2 poolEnd.toNat)
    (hsize : request.size.toNat ≤ objectSize (selected poolStart request.alignment))
    (hfits : Fits poolStart poolEnd request) :
    request.size.toNat + (request.alignment.toNat - 16) ≤
        objectSize (selected poolStart request.alignment) ∧
      request.alignment.toNat - 16 < objectSize (selected poolStart request.alignment) := by
  obtain ⟨a, ha⟩ := request.powerOfTwo
  have hpool : 5 ≤ selected poolStart request.alignment :=
    le_max_of_le_right ((Nat.le_log2 (by omega)).mpr hstart)
  unfold Fits at hfits
  generalize selected poolStart request.alignment = k at *
  have hobject := objectSize_eq hpool
  have hpos := Nat.two_pow_pos k
  have hroom : request.size.toNat + (request.alignment.toNat - 16) ≤ objectSize k := by
    rcases hfits with hle | hnone | hlarge | hroom <;> omega
  refine ⟨hroom, Nat.lt_of_le_of_ne (by omega) fun heq => ?_⟩
  -- no power of two exceeds one that is not below 32 by just 16
  rw [hobject, ha] at heq
  have hlt : k < a := (Nat.pow_lt_pow_iff_right (show 1 < 2 by decide)).mp (by omega)
  have hdouble := Nat.pow_le_pow_right (show 0 < 2 by decide) (Nat.succ_le_of_lt hlt)
  have hlarge := Nat.pow_le_pow_right (show 0 < 2 by decide) hpool
  rw [Nat.pow_succ] at hdouble
  omega

end

namespace HeapSystem

variable {π : Type} {p : Platform π} {s s' : HeapSystem π} {poolStart poolEnd : UInt64}
  {alignment pool pointer block size : UInt64} {request : Request} {call : HeapCall}

/-- The pool that is selected is not larger than the largest, and which it is. -/
theorem selectedPool_eq_some (hcreate : HeapAllocator.create poolStart poolEnd = some s.heap)
    (hpool : s.selectedPool alignment = some pool) :
    selected poolStart alignment ≤ Nat.log2 poolEnd.toNat ∧
      ∃ i : UInt64, i.toNat = selected poolStart alignment - Nat.log2 poolStart.toNat ∧
        pool = s.poolAllocators + i * poolAllocatorSize := by
  have hindex := HeapAllocator.toNat_poolIndex hcreate alignment
  have hmin : Nat.log2 poolStart.toNat ≤ selected poolStart alignment := Nat.le_max_right _ _
  obtain ⟨hstart, hmax⟩ : s.heap.minimumPoolSize.toNat = Nat.log2 poolStart.toNat ∧
      s.heap.maximumPoolSize.toNat = Nat.log2 poolEnd.toNat := by
    obtain ⟨-, heq⟩ := HeapAllocator.create_eq_some.mp hcreate
    rw [heq]
    exact ⟨toNat_bitLog2 poolStart, toNat_bitLog2 poolEnd⟩
  unfold selectedPool at hpool
  dsimp only at hpool
  split_ifs at hpool with hgt
  rw [gt_iff_lt, UInt64.lt_iff_toNat_lt, hindex, hmax, Nat.not_lt] at hgt
  refine ⟨hgt, _, ?_, (Option.some.inj hpool).symm⟩
  rw [UInt64.toNat_sub_of_le, hindex, hstart]
  rw [UInt64.le_iff_toNat_le, hindex, hstart]
  exact hmin

/-! ## The invariant -/

/-- What was asked for at a pointer lies in the live block that the pointer is in. -/
def Within (s : HeapSystem π) (pointer block size : UInt64) : Prop :=
  ∃ pool n count, s.pools.live block = some pool ∧
    sizesOf s.pools.allocators pool = some (n, count) ∧ block.toNat ≤ pointer.toNat ∧
      pointer.toNat + size.toNat ≤ block.toNat + n ∧ pointer.toNat < block.toNat + n

/-- **The invariant**: blocks are aligned by default, a pool has objects of its size, and each
pointer is in a block of its own. -/
structure Inv (poolStart poolEnd : UInt64) (s : HeapSystem π) : Prop where
  created : HeapAllocator.create poolStart poolEnd = some s.heap
  large : 32 ≤ poolStart.toNat
  pools : s.pools.Inv
  base : 16 ∣ s.pools.arenas.pool.arenaPool.toNat
  arena : 16 ∣ s.pools.arenas.pool.arenaSize.toNat
  sized : ∀ alignment pool, s.selectedPool alignment = some pool → ∃ count,
    sizesOf s.pools.allocators pool = some (objectSize (selected poolStart alignment), count)
  aligned : ∀ pool n count, sizesOf s.pools.allocators pool = some (n, count) → 16 ∣ n
  within : ∀ pointer block size, s.results pointer = some (block, size) →
    s.Within pointer block size
  unique : ∀ pointer pointer' block size size', s.results pointer = some (block, size) →
    s.results pointer' = some (block, size') → pointer' = pointer

namespace Inv

/-- **A live block is aligned by default**, and in an arena. -/
theorem in_arena (h : s.Inv poolStart poolEnd) {n count : Nat}
    (hlive : s.pools.live block = some pool)
    (hsizes : sizesOf s.pools.allocators pool = some (n, count)) :
    ∃ i, s.pools.arenas.pool.getArena block = some i ∧ i < s.pools.arenas.pool.arenaCount.toNat ∧
      (s.pools.arenas.pool.record i).allocator = pool ∧ 16 ∣ block.toNat ∧ 0 < block.toNat ∧
        s.pools.arenas.pool.arenaBase i ≤ block.toNat ∧
          block.toNat + n ≤ s.pools.arenas.pool.arenaBase i +
            s.pools.arenas.pool.arenaSize.toNat := by
  obtain ⟨a, ha⟩ := h.pools.exists_allocator hlive
  obtain ⟨hn, -⟩ := Prod.mk.inj (Option.some.inj ((sizesOf_eq ha).symm.trans hsizes))
  obtain ⟨i, j, hi, ⟨hself, hne, -⟩, hget, hj, hblock⟩ := h.pools.exists_arena ha hlive
  have hwithin := h.pools.blocks.within hi (hself ▸ hne) (hself ▸ sizesOf_eq ha) hj
  have hbase := h.pools.geometry.base i hi
  have hpositive := h.pools.geometry.positive
  rw [hn] at hblock hwithin
  have hle : s.pools.arenas.pool.arenaPool.toNat ≤ s.pools.arenas.pool.arenaBase i :=
    Nat.le_add_right _ _
  refine ⟨i, hget, hi, hself, ?_, by omega, by omega, by omega⟩
  rw [hblock, hbase]
  have harena : 16 ∣ i * s.pools.arenas.pool.arenaSize.toNat := h.arena.mul_left i
  exact Nat.dvd_add (Nat.dvd_add h.base harena) ((h.aligned pool n count hsizes).mul_left j)

/-- Two pointers are in blocks that overlap only if they are in the same block. -/
theorem block_ne (h : s.Inv poolStart poolEnd) {other other' block' size' : UInt64}
    (hne : other' ≠ other)
    (hother : s.results other = some (block, size))
    (hother' : s.results other' = some (block', size')) : block' ≠ block := by
  rintro rfl
  exact hne (h.unique other other' block' size size' hother hother')

/-- What a call of a pool keeps, as far as results are in live blocks. -/
theorem keeps {pools : PoolSystem π} {results : UInt64 → Option (UInt64 × UInt64)}
    (h : s.Inv poolStart poolEnd) (hinv : pools.Inv) (hkeeps : s.pools.Keeps pools)
    (hwithin : ∀ pointer block size, results pointer = some (block, size) →
      HeapSystem.Within { s with pools := pools } pointer block size)
    (hunique : ∀ pointer pointer' block size size', results pointer = some (block, size) →
      results pointer' = some (block, size') → pointer' = pointer) :
    HeapSystem.Inv poolStart poolEnd { s with pools := pools, results := results } where
  created := h.created
  large := h.large
  pools := hinv
  base := hkeeps.places.1 ▸ h.base
  arena := hkeeps.places.2 ▸ h.arena
  sized alignment pool hpool := by
    rw [hkeeps.sizes]
    exact h.sized alignment pool hpool
  aligned pool n count hsizes := h.aligned pool n count (hkeeps.sizes ▸ hsizes)
  within := hwithin
  unique := hunique

/-- A result stays in its block while that stays live. -/
theorem within_keeps {pools : PoolSystem π} (hkeeps : s.pools.Keeps pools)
    (hlive : pools.live block = s.pools.live block) (hwithin : s.Within pointer block size) :
    HeapSystem.Within { s with pools := pools } pointer block size := by
  obtain ⟨pool, n, count, hpool, hsizes, hin⟩ := hwithin
  exact ⟨pool, n, count, hlive.trans hpool, hkeeps.sizes ▸ hsizes, hin⟩

/-- **A block moved up**: the pointer is aligned as requested, and in the block with all that is
requested. -/
theorem pointer_of_block (h : s.Inv poolStart poolEnd) {n count : Nat}
    (hfits : Fits poolStart poolEnd request)
    (hpool : s.selectedPool request.alignment = some pool)
    (hn : n = objectSize (selected poolStart request.alignment)) (hsize : request.size.toNat ≤ n)
    (hlive : s.pools.live block = some pool)
    (hsizes : sizesOf s.pools.allocators pool = some (n, count)) :
    alignPointer block request.alignment ≠ 0 ∧
      request.alignment.toNat ∣ (alignPointer block request.alignment).toNat ∧
      block.toNat ≤ (alignPointer block request.alignment).toNat ∧
      (alignPointer block request.alignment).toNat + request.size.toNat ≤ block.toNat + n ∧
      (alignPointer block request.alignment).toNat < block.toNat + n := by
  obtain ⟨i, -, hi, -, hdvd, hpos, -, hend⟩ := h.in_arena hlive hsizes
  have hspace := h.pools.geometry.arenaEnd_lt hi
  obtain ⟨hselected, -⟩ := selectedPool_eq_some h.created hpool
  obtain ⟨hroom, hlt⟩ := room_of_fits h.large hselected (hn ▸ hsize) hfits
  rw [← hn] at hroom hlt
  obtain ⟨a, ha⟩ := request.powerOfTwo
  have hpower := Nat.two_pow_pos a
  have hup := HeapAllocator.alignUp_block_le request hdvd
  have hle : block.toNat ≤ alignUp block.toNat request.alignment.toNat := le_alignUp (by omega)
  have halign := toNat_alignPointer ha block
  rw [if_pos (by omega)] at halign
  refine ⟨?_, halign ▸ dvd_alignUp _ _, ?_⟩
  · rw [Ne, ← UInt64.toNat_inj, halign, UInt64.toNat_zero]
    omega
  · rw [halign]
    omega

/-! ## What each call keeps -/

/-- A pool that is selected has a pool allocator, of objects of its size. -/
theorem exists_pool (h : s.Inv poolStart poolEnd) (hpool : s.selectedPool alignment = some pool) :
    ∃ a, s.pools.allocators pool = some a ∧
      a.objectSize.toNat = objectSize (selected poolStart alignment) := by
  obtain ⟨count, hsizes⟩ := h.sized alignment pool hpool
  obtain ⟨a, ha, heq⟩ := Option.map_eq_some_iff.mp hsizes
  exact ⟨a, ha, (Prod.mk.inj heq).1⟩

/-- What `allocate` leaves, of the pool that is selected. -/
theorem step_allocate {pools : PoolSystem π} (hpool : s.selectedPool request.alignment = some pool)
    (hstep : s.pools.step p (.allocate pool request.size) = some (block, pools))
    (hpointer : (if block = 0 then 0 else alignPointer block request.alignment) = pointer) :
    s.step p (.allocate request) = some (pointer, { s with
      pools := pools
      results := if pointer = 0 then s.results
        else Function.update s.results pointer (some (block, request.size)) }) := by
  simp only [HeapSystem.step, HeapSystem.allocate, hpool, hstep, hpointer, Option.bind_eq_bind,
    Option.bind_some]

/-- **A pointer into a new block** is not one of the results, and overlaps none of them. -/
theorem disjoint_results (h : s.Inv poolStart poolEnd) {n : Nat}
    (hapart : Apart (sizesOf s.pools.allocators) s.pools.live block n)
    (hle : block.toNat ≤ pointer.toNat) (hin : pointer.toNat + size.toNat ≤ block.toNat + n)
    (hlt : pointer.toNat < block.toNat + n) {other block' size' : UInt64}
    (hresult : s.results other = some (block', size')) :
    block' ≠ block ∧ other ≠ pointer ∧ Disjoint pointer size other size' := by
  obtain ⟨pool', n', count', hlive', hsizes', hle', hin', hlt'⟩ :=
    h.within other block' size' hresult
  have hdisjoint := hapart block' pool' n' count' hlive' hsizes'
  refine ⟨?_, ?_, ?_⟩
  · rintro rfl
    omega
  · rintro rfl
    omega
  · unfold Disjoint
    omega

/-- **`allocate`**, where the pool selected can meet the request. -/
theorem safe_allocate (h : s.Inv poolStart poolEnd) (hfits : Fits poolStart poolEnd request)
    (hsound : s.Sound p (.allocate request)) :
    ∃ pointer s', s.step p (.allocate request) = some (pointer, s') ∧ s'.Inv poolStart poolEnd ∧
      s.Safe p (.allocate request) := by
  cases hpool : s.selectedPool request.alignment with
  | none =>
    have hstep : s.step p (.allocate request) = some (0, { s with
        pools := { s.pools with arenas := { s.pools.arenas with
          env := p.pushException .outOfMemory s.pools.arenas.env } } }) := by
      simp only [HeapSystem.step, HeapSystem.allocate, hpool, Option.bind_eq_bind,
        Option.bind_some, if_true]
    refine ⟨0, _, hstep, h.keeps h.pools ⟨⟨rfl, rfl⟩, rfl⟩ h.within h.unique, 0, _, hstep, ?_, ?_⟩
    · exact fun _ _ hne => absurd rfl hne
    · exact fun _ _ _ => nofun
  | some pool =>
    obtain ⟨a, ha, hobject⟩ := h.exists_pool hpool
    obtain ⟨block, pools, hrun, hinv, hkeeps, hlive, hblock⟩ :=
      h.pools.allocate_step ha (hsound pool hpool)
    by_cases hnull : block = 0
    · -- no block is found
      have hstep := step_allocate hpool hrun (if_pos hnull)
      rw [if_pos hnull] at hlive
      rw [if_pos rfl] at hstep
      refine ⟨0, _, hstep, h.keeps hinv hkeeps (fun pointer block size hresult => ?_) h.unique, 0,
        _, hstep, fun _ _ hne => absurd rfl hne, fun _ _ _ => nofun⟩
      exact within_keeps hkeeps (by rw [hlive]) (h.within pointer block size hresult)
    · have hstep := step_allocate hpool hrun (if_neg hnull)
      obtain ⟨hsize, -, hapart⟩ := hblock hnull
      rw [if_neg hnull] at hlive
      have hnew : pools.live block = some pool := by
        rw [hlive, Function.update_self]
      have hsizes := sizesOf_eq ha
      have hsizes' := hkeeps.sizes.symm ▸ hsizes
      -- the invariant of the pools places the block, before any result is known to be in it
      have hpools : HeapSystem.Inv poolStart poolEnd
          { s with pools := pools, results := fun _ => none } := h.keeps hinv hkeeps nofun nofun
      obtain ⟨hne, hdvd, hpointer⟩ := hpools.pointer_of_block hfits hpool hobject
        (UInt64.le_iff_toNat_le.mp hsize) hnew hsizes'
      obtain ⟨i, -, hi, -, -, -, hbase, hend⟩ := hpools.in_arena hnew hsizes'
      generalize alignPointer block request.alignment = pointer at *
      rw [if_neg hne] at hstep
      obtain ⟨hle, hin, hlt⟩ := hpointer
      have hold (other block' size' : UInt64) (hresult : s.results other = some (block', size')) :=
        h.disjoint_results hapart hle hin hlt hresult
      refine ⟨pointer, _, hstep, h.keeps hinv hkeeps (fun other block' size' hresult => ?_)
        (fun other other' block' size' size'' hresult hresult' => ?_), pointer, _, hstep, ?_,
        fun _ _ _ => nofun⟩
      · rcases update_eq_some.mp hresult with ⟨rfl, heq⟩ | ⟨-, hresult⟩
        · obtain ⟨rfl, rfl⟩ := Prod.mk.inj (Option.some.inj heq)
          exact ⟨pool, _, _, hnew, hsizes', hle, hin, hlt⟩
        · have hne := (hold other block' size' hresult).1
          refine within_keeps hkeeps ?_ (h.within other block' size' hresult)
          rw [hlive, Function.update_of_ne hne]
      · rcases update_eq_some.mp hresult with ⟨rfl, heq⟩ | ⟨-, hother⟩
        · obtain ⟨rfl, -⟩ := Prod.mk.inj (Option.some.inj heq)
          rcases update_eq_some.mp hresult' with ⟨rfl, -⟩ | ⟨-, hother'⟩
          · rfl
          · exact absurd rfl (hold other' block size'' hother').1
        · rcases update_eq_some.mp hresult' with ⟨rfl, heq⟩ | ⟨-, hother'⟩
          · obtain ⟨rfl, -⟩ := Prod.mk.inj (Option.some.inj heq)
            exact absurd rfl (hold other block size' hother).1
          · exact h.unique other other' block' size' size'' hother hother'
      · rintro _ ⟨⟩ -
        refine ⟨hdvd, ⟨i, hi, Nat.le_trans hbase hle, Nat.le_trans hin hend⟩, ?_,
          fun other block' size' hresult => (hold other block' size' hresult).2.2⟩
        cases hresult : s.results pointer with
        | none => rfl
        | some r => exact absurd rfl (hold pointer r.1 r.2 hresult).2.1

/-- **`deallocate`**, where the pool that the block is from can take it back. -/
theorem safe_deallocate (h : s.Inv poolStart poolEnd) (hlegal : s.Legal (.deallocate pointer))
    (hsound : s.Sound p (.deallocate pointer)) :
    ∃ result s', s.step p (.deallocate pointer) = some (result, s') ∧ s'.Inv poolStart poolEnd ∧
      s.Safe p (.deallocate pointer) := by
  obtain ⟨⟨block, size⟩, hresult⟩ := Option.isSome_iff_exists.mp hlegal
  obtain ⟨pool, n, count, hlive, hsizes, hle, -, hlt⟩ := h.within pointer block size hresult
  have hsound := hsound (block, size) hresult pool hlive
  obtain ⟨a, a', arenas, ha, hrun, hinv, hkeeps⟩ := h.pools.deallocate_step hlive hsound
  obtain ⟨i, hget, hi, hself, -, -, hbase, hend⟩ := h.in_arena hlive hsizes
  obtain ⟨hone, -⟩ := hsound a ha i hget
  -- the pointer is in the arena that the block is in
  have hget' := h.pools.geometry.getArena_eq hi (Nat.le_trans hbase hle)
    (Nat.lt_of_lt_of_le hlt hend)
  have hcapacity := h.pools.geometry.lt_capacity hi
  have hrun' := (PoolAllocator.deallocate_congr hget' hget hcapacity hone).trans hrun
  have hstep : s.step p (.deallocate pointer) = some (0, { s with
      pools := ⟨arenas, Function.update s.pools.allocators pool (some a'),
        Function.update s.pools.live block none⟩
      results := Function.update s.results pointer none }) := by
    simp only [HeapSystem.step, HeapSystem.deallocate, hget', getRecord_eq hcapacity, hself, ha,
      hrun', hresult, Option.bind_eq_bind, Option.bind_some, Option.map_some, Option.getD_some]
  have hresults {other : UInt64} {r : UInt64 × UInt64}
      (hother : Function.update s.results pointer none other = some r) :
      other ≠ pointer ∧ s.results other = some r := by
    rcases update_eq_some.mp hother with ⟨-, hnone⟩ | hother
    · exact nomatch hnone
    · exact hother
  refine ⟨0, _, hstep, h.keeps hinv hkeeps (fun other block' size' hother => ?_)
    (fun other other' block' size' size'' hother hother' => ?_), 0, _, hstep, fun _ => nofun, ?_⟩
  · obtain ⟨hne, hother⟩ := hresults hother
    refine within_keeps hkeeps ?_ (h.within other block' size' hother)
    exact Function.update_of_ne (h.block_ne hne hresult hother) _ _
  · exact h.unique other other' block' size' size'' (hresults hother).2 (hresults hother').2
  · rintro _ block' size' ⟨⟩ hresult'
    obtain ⟨rfl, -⟩ := Prod.mk.inj (Option.some.inj (hresult.symm.trans hresult'))
    exact ⟨pool, hlive, PoolSystem.step_deallocate ha hrun⟩

/-- **A write** in what was asked for is one in the block. -/
theorem safe_write (h : s.Inv poolStart poolEnd) {offset : Nat} {bytes : List UInt8}
    (hlegal : s.Legal (.write pointer offset bytes)) :
    ∃ result s', s.step p (.write pointer offset bytes) = some (result, s') ∧
      s'.Inv poolStart poolEnd ∧ s.Safe p (.write pointer offset bytes) := by
  obtain ⟨⟨block, size⟩, hresult, hfits⟩ := hlegal
  obtain ⟨pool, n, count, hlive, hsizes, hle, hin, -⟩ := h.within pointer block size hresult
  obtain ⟨a, ha⟩ := h.pools.exists_allocator hlive
  obtain ⟨hn, -⟩ := Prod.mk.inj (Option.some.inj ((sizesOf_eq ha).symm.trans hsizes))
  have hfits : offset + bytes.length ≤ size.toNat := hfits
  have hroom : pointer.toNat - block.toNat + offset + bytes.length ≤ a.objectSize.toNat := by omega
  have hwrite := h.pools.write hlive ha hroom
  rw [show block.toNat + (pointer.toNat - block.toNat + offset) = pointer.toNat + offset by omega]
    at hwrite
  exact ⟨0, _, rfl, h.keeps hwrite ⟨⟨rfl, rfl⟩, rfl⟩ h.within h.unique, 0, _, rfl, fun _ => nofun,
    fun _ _ _ => nofun⟩

/-- **One call** whose request fits, and whose pool can meet it, is safe. -/
theorem safe_step (h : s.Inv poolStart poolEnd) (hlegal : s.Legal call)
    (hfits : call.Fits poolStart poolEnd) (hsound : s.Sound p call) :
    ∃ pointer s', s.step p call = some (pointer, s') ∧ s'.Inv poolStart poolEnd ∧
      s.Safe p call := by
  cases call with
  | allocate request => exact h.safe_allocate hfits hsound
  | deallocate pointer => exact h.safe_deallocate hlegal hsound
  | write pointer offset bytes => exact h.safe_write hlegal

end Inv

/-! ## The pools that the constructor makes -/

/-- The pools that the loop has made, by their addresses. -/
theorem constructPoolAllocators_eq_some {current : UInt64} {currentSize count : Nat}
    (hspace : current.toNat + count * 48 < 2 ^ 64) {self size : UInt64} :
    constructPoolAllocators current currentSize count self = some size ↔ ∃ i < count,
      self.toNat = current.toNat + i * 48 ∧ size = 1 <<< UInt64.ofNat (currentSize + i) := by
  induction count generalizing current currentSize with
  | zero => exact iff_of_false nofun nofun
  | succ count ih =>
    have hnext : (current + poolAllocatorSize).toNat = current.toNat + 48 := by
      have : poolAllocatorSize.toNat = 48 := rfl
      rw [UInt64.toNat_add, this, Nat.mod_eq_of_lt (by omega)]
    have hspace' : (current + poolAllocatorSize).toNat + count * 48 < 2 ^ 64 := by omega
    rw [constructPoolAllocators]
    by_cases heq : self = current
    · subst heq
      rw [Function.update_self, Option.some.injEq]
      constructor
      · rintro rfl
        exact ⟨0, Nat.succ_pos _, by omega, rfl⟩
      · rintro ⟨i, -, hself, rfl⟩
        obtain rfl : i = 0 := by omega
        rfl
    · rw [Function.update_of_ne heq, ih hspace', hnext]
      constructor
      · rintro ⟨i, hi, hself, rfl⟩
        exact ⟨i + 1, by omega, by omega, by rw [Nat.add_right_comm, Nat.add_assoc]⟩
      · rintro ⟨i, hi, hself, rfl⟩
        cases i with
        | zero => exact absurd (UInt64.toNat_inj.mp (by omega)) heq
        | succ i => exact ⟨i, by omega, by omega, by rw [Nat.add_right_comm, Nat.add_assoc]⟩

/-- The size that a pool is constructed with. -/
theorem toNat_shiftLeft_size {k : Nat} (hk : k < 31) :
    (1 <<< UInt64.ofNat k : UInt64).toNat = 2 ^ k := by
  have hpow : 2 ^ k < 2 ^ 31 := Nat.pow_lt_pow_right (by decide) hk
  rw [UInt64.toNat_shiftLeft, UInt64.toNat_one, UInt64.toNat_ofNat',
    Nat.mod_eq_of_lt (by omega : k < 2 ^ 64), Nat.mod_eq_of_lt (by omega : k < 64),
    Nat.one_shiftLeft, Nat.mod_eq_of_lt (by omega)]

/-- **The platform's part**: the arena pool could be built on pages, and the heap allocator has its
buffer of 32 pools somewhere. -/
structure Placed (p : Platform π) (arenaSize arenaCount poolAllocators : UInt64) (env : π) :
    Prop where
  arenas : PoolSystem.Placed p arenaSize arenaCount env
  paged : 16 ∣ (MemoryArenaPool.create p arenaSize arenaCount env).1.memoryRegion.memory.toNat
  buffer : poolAllocators ≠ 0
  span : poolAllocators.toNat + 32 * 48 < 2 ^ 64

variable {arenaSize arenaCount poolAllocators : UInt64} {m : Library.Memory} {env : π}

/-- The arenas of a pool on pages begin at an aligned address. -/
theorem Placed.base (h : Placed p arenaSize arenaCount poolAllocators env) :
    16 ∣ (MemoryArenaPool.create p arenaSize arenaCount env).1.arenaPool.toNat := by
  obtain ⟨memory, -, heq⟩ := create_eq h.arenas.built
  have hpaged := h.paged
  rw [heq] at hpaged ⊢
  have hrecord : 16 ∣ (recordSize arenaCount).toNat := by
    have hsize : arenaRecordSize.toNat = 48 := rfl
    have hpage : (max pageSize granularity).toNat = 65536 := rfl
    rw [recordSize, toNat_max, hpage, UInt64.toNat_mul, hsize]
    omega
  show 16 ∣ (memory + recordSize arenaCount).toNat
  rw [UInt64.toNat_add]
  have hpaged : 16 ∣ memory.toNat := hpaged
  omega

/-- What the constructor makes. -/
theorem start_eq_some :
    start p arenaSize arenaCount poolStart poolEnd poolAllocators m env = some s ↔
    ∃ heap, HeapAllocator.create poolStart poolEnd = some heap ∧ s = {
      heap := heap
      poolAllocators := poolAllocators
      pools := PoolSystem.start p arenaSize arenaCount (constructPoolAllocators poolAllocators
        (Nat.log2 poolStart.toNat)
        (Nat.log2 poolEnd.toNat + 1 - Nat.log2 poolStart.toNat)) m env
      results := fun _ => none } := by
  unfold start
  rw [Option.bind_eq_bind, Option.bind_eq_some_iff]
  refine exists_congr fun heap => and_congr_right fun hcreate => ?_
  obtain ⟨-, rfl⟩ := HeapAllocator.create_eq_some.mp hcreate
  rw [Option.some.injEq, toNat_bitLog2, toNat_bitLog2]
  exact eq_comm

/-- The sizes that the pools are constructed with, from 32 bytes on. -/
theorem constructed_eq_some (hspan : poolAllocators.toNat + 32 * 48 < 2 ^ 64)
    (hlog : Nat.log2 poolEnd.toNat < 31) {self size : UInt64} :
    constructPoolAllocators poolAllocators (Nat.log2 poolStart.toNat)
        (Nat.log2 poolEnd.toNat + 1 - Nat.log2 poolStart.toNat) self = some size ↔
      ∃ k, Nat.log2 poolStart.toNat ≤ k ∧ k ≤ Nat.log2 poolEnd.toNat ∧
        self.toNat = poolAllocators.toNat + (k - Nat.log2 poolStart.toNat) * 48 ∧
        size.toNat = 2 ^ k := by
  rw [constructPoolAllocators_eq_some (by omega)]
  constructor
  · rintro ⟨i, hi, hself, rfl⟩
    exact ⟨Nat.log2 poolStart.toNat + i, by omega, by omega,
      by rw [Nat.add_sub_cancel_left, hself], toNat_shiftLeft_size (by omega)⟩
  · rintro ⟨k, hstart, hend, hself, hsize⟩
    refine ⟨k - Nat.log2 poolStart.toNat, by omega, hself, ?_⟩
    rw [← UInt64.toNat_inj, hsize, Nat.add_sub_cancel' hstart, toNat_shiftLeft_size (by omega)]

/-- No pool is at null, and none is constructed for objects without a size. -/
theorem ne_zero_of_constructed (hplaced : Placed p arenaSize arenaCount poolAllocators env)
    (hlog : Nat.log2 poolEnd.toNat < 31) (poolStart : UInt64) {self size : UInt64}
    (hsome : constructPoolAllocators poolAllocators (Nat.log2 poolStart.toNat)
      (Nat.log2 poolEnd.toNat + 1 - Nat.log2 poolStart.toNat) self = some size) :
    self ≠ 0 ∧ size ≠ 0 := by
  obtain ⟨k, -, -, hself, hsize⟩ := (constructed_eq_some hplaced.span hlog).mp hsome
  have hpos := toNat_pos hplaced.buffer
  constructor
  · rintro rfl
    rw [UInt64.toNat_zero] at hself
    omega
  · rintro rfl
    exact absurd hsize (Nat.two_pow_pos k).ne

theorem sizes_create (arenas : MemoryArenaPool) {k : Nat} (hsize : size.toNat = 2 ^ k) :
    (PoolAllocator.create arenas size).sizes = (objectSize k, arenas.arenaSize.toNat / 2 ^ k) := by
  have hmax : (max size freeNodeSize).toNat = objectSize k := by
    rw [toNat_max, hsize]
    rfl
  have hcount : (arenas.arenaSize / size).toNat = arenas.arenaSize.toNat / 2 ^ k := by
    rw [UInt64.toNat_div, hsize]
  rw [← hmax, ← hcount]
  rfl

/-- **The sizes of new pools**: as many objects of a power of two as an arena has room for. -/
theorem sizesOf_constructed (hspan : poolAllocators.toNat + 32 * 48 < 2 ^ 64)
    (hlog : Nat.log2 poolEnd.toNat < 31) (arenas : MemoryArenaPool) {self : UInt64}
    {n count : Nat} :
    sizesOf (fun self => (constructPoolAllocators poolAllocators (Nat.log2 poolStart.toNat)
        (Nat.log2 poolEnd.toNat + 1 - Nat.log2 poolStart.toNat) self).map
          (PoolAllocator.create arenas)) self = some (n, count) ↔
      ∃ k, Nat.log2 poolStart.toNat ≤ k ∧ k ≤ Nat.log2 poolEnd.toNat ∧
        self.toNat = poolAllocators.toNat + (k - Nat.log2 poolStart.toNat) * 48 ∧
        n = objectSize k ∧ count = arenas.arenaSize.toNat / 2 ^ k := by
  rw [sizesOf, Option.map_map, Option.map_eq_some_iff]
  constructor
  · rintro ⟨size, hsome, heq⟩
    obtain ⟨k, hle, hle', hself, hsize⟩ := (constructed_eq_some hspan hlog).mp hsome
    obtain ⟨rfl, rfl⟩ := Prod.mk.inj ((sizes_create arenas hsize).symm.trans heq)
    exact ⟨k, hle, hle', hself, rfl, rfl⟩
  · rintro ⟨k, hle, hle', hself, rfl, rfl⟩
    have hsize := toNat_shiftLeft_size (show k < 31 by omega)
    exact ⟨_, (constructed_eq_some hspan hlog).mpr ⟨k, hle, hle', hself, hsize⟩,
      sizes_create arenas hsize⟩

/-- **A new heap allocator has the invariant.** -/
theorem inv_start (hplaced : Placed p arenaSize arenaCount poolAllocators env)
    (hlarge : 32 ≤ poolStart.toNat) (harena : 16 ∣ arenaSize.toNat)
    (hstart : start p arenaSize arenaCount poolStart poolEnd poolAllocators m env = some s) :
    s.Inv poolStart poolEnd := by
  obtain ⟨heap, hcreate, rfl⟩ := start_eq_some.mp hstart
  have hlog := HeapAllocator.log2_poolEnd_lt hcreate
  have hspan := hplaced.span
  have hfive : 5 ≤ Nat.log2 poolStart.toNat := (Nat.le_log2 (by omega)).mpr hlarge
  have hbase := hplaced.base
  have hhints := (PoolSystem.hints_create (p := p) arenaSize arenaCount env).1
  have hpools := PoolSystem.inv_start hplaced.arenas
    (fun _ _ => ne_zero_of_constructed hplaced hlog poolStart) m
  rw [PoolSystem.start_eq] at hpools ⊢
  clear hstart
  generalize MemoryArenaPool.create p arenaSize arenaCount env = created at *
  refine ⟨hcreate, hlarge, hpools, hbase, hhints.symm ▸ harena, fun alignment pool hpool => ?_,
    fun pool n count hsizes => ?_, nofun, nofun⟩
  · obtain ⟨hle, i, hi, rfl⟩ := selectedPool_eq_some hcreate hpool
    have hsize : poolAllocatorSize.toNat = 48 := rfl
    have hmin : Nat.log2 poolStart.toNat ≤ selected poolStart alignment := Nat.le_max_right _ _
    refine ⟨_, (sizesOf_constructed hspan hlog created.1).mpr ⟨_, hmin, hle, ?_, rfl, rfl⟩⟩
    show (poolAllocators + i * poolAllocatorSize).toNat = _
    rw [UInt64.toNat_add, UInt64.toNat_mul, hi, hsize, Nat.add_mod_mod]
    exact Nat.mod_eq_of_lt (by omega)
  · obtain ⟨k, hle, -, -, rfl, -⟩ := (sizesOf_constructed hspan hlog created.1).mp hsizes
    rw [objectSize_eq (Nat.le_trans hfive hle)]
    exact Nat.pow_dvd_pow 2 (show 4 ≤ k by omega)

/-! ## Runs -/

/-- **In every run whose requests fit, and whose pools can meet them**, every call is safe. -/
theorem safe_of_pools (hplaced : Placed p arenaSize arenaCount poolAllocators env)
    (hlarge : 32 ≤ poolStart.toNat) (harena : 16 ∣ arenaSize.toNat)
    (hstart : start p arenaSize arenaCount poolStart poolEnd poolAllocators m env = some s)
    (calls : List HeapCall) (hfits : ∀ call ∈ calls, call.Fits poolStart poolEnd)
    (hlegal : Along (step p) Legal s calls) (hsound : Along (step p) (Sound p) s calls) :
    Along (step p) (Safe p) s calls := by
  have hcalls : Along (step p) (fun _ call => call.Fits poolStart poolEnd) s calls :=
    Along.of_forall_mem fun call hcall _ => hfits call hcall
  refine Along.of_defined (Inv poolStart poolEnd) (fun s call hinv h => ?_)
    (inv_start hplaced hlarge harena hstart) ((hlegal.and hsound).and hcalls)
  obtain ⟨⟨hlegal, hsound⟩, hfits⟩ := h
  exact hinv.safe_step hlegal hfits hsound

/-- A result on 32 bytes' alignment is written in and given back, and its arena is used again. -/
theorem safe_of_pools_reused : Along (step Platform.granting) (Safe Platform.granting)
    ((start Platform.granting 32 4 32 32 0x8000 (fun _ => 0) ()).get rfl)
    [.allocate ⟨8, 32, 5, rfl⟩, .write 0x20000 0 [1, 2], .deallocate 0x20000,
      .allocate ⟨20, 16, 4, rfl⟩] := by
  have hplaced : Placed Platform.granting 32 4 0x8000 () :=
    ⟨⟨by decide, by decide, by decide, by decide⟩, by decide, by decide, by decide⟩
  exact safe_of_pools hplaced (by decide) (by decide) (Option.some_get rfl).symm _ (by decide)
    (by decide) (by decide)

/-! ## Runs in which nothing is given back -/

/-- A pool can meet a request as long as nothing was given back. -/
theorem sound_of_growing (h : s.Inv poolStart poolEnd) (hgrowing : s.pools.Growing)
    (hobtains : call.Obtains) : s.Sound p call := by
  cases call with
  | allocate request =>
    intro pool hpool a ha hsize
    have hfits := hgrowing.fitting pool a ha
    exact ⟨fun i hi hself hlist => h.pools.hasRoom hi hself ha hlist hfits.2,
      fun _ i _ => hgrowing.backless.canRequest ha hfits i⟩
  | deallocate pointer => exact hobtains.elim
  | write pointer offset bytes => trivial

/-- **What lasts while nothing is given back.** -/
theorem growing_step (h : s.Inv poolStart poolEnd) (hgrowing : s.pools.Growing)
    (hobtains : call.Obtains) (hlegal : s.Legal call) (hstep : s.step p call = some (pointer, s')) :
    s'.pools.Growing := by
  cases call with
  | allocate request =>
    cases hpool : s.selectedPool request.alignment with
    | none =>
      simp only [HeapSystem.step, HeapSystem.allocate, hpool, Option.bind_eq_bind,
        Option.bind_some, Option.some.injEq] at hstep
      obtain ⟨-, rfl⟩ := Prod.mk.inj hstep
      exact ⟨hgrowing.inv, hgrowing.fitting, hgrowing.backless⟩
    | some pool =>
      obtain ⟨a, ha, -⟩ := h.exists_pool hpool
      have hobtains : s.pools.Obtains (.allocate pool request.size) :=
        Option.isSome_iff_exists.mpr ⟨a, ha⟩
      obtain ⟨block, pools, hrun, hgrowing', -⟩ :=
        PoolSystem.fitsArenas_step (p := p) hgrowing hobtains
      have hstep' := Inv.step_allocate hpool hrun rfl
      obtain ⟨-, rfl⟩ := Prod.mk.inj (Option.some.inj (hstep'.symm.trans hstep))
      exact hgrowing'
  | deallocate pointer => exact hobtains.elim
  | write pointer offset bytes =>
    obtain ⟨result, s'', hstep', hinv, -⟩ := h.safe_write (p := p) hlegal
    obtain ⟨-, rfl⟩ := Prod.mk.inj (Option.some.inj (hstep'.symm.trans hstep))
    obtain ⟨-, rfl⟩ := Prod.mk.inj (Option.some.inj hstep')
    exact ⟨hinv.pools, hgrowing.fitting, hgrowing.backless⟩

/-- The pools of a new heap allocator, whose largest fits an arena. -/
theorem growing_start (hplaced : Placed p arenaSize arenaCount poolAllocators env)
    (hlarge : 32 ≤ poolStart.toNat) (harena : 16 ∣ arenaSize.toNat) (hend : poolEnd ≤ arenaSize)
    (hstart : start p arenaSize arenaCount poolStart poolEnd poolAllocators m env = some s) :
    s.pools.Growing := by
  have hinv := (inv_start hplaced hlarge harena hstart).pools
  obtain ⟨heap, hcreate, rfl⟩ := start_eq_some.mp hstart
  have hlog := HeapAllocator.log2_poolEnd_lt hcreate
  have hspan := hplaced.span
  have hfive : 5 ≤ Nat.log2 poolStart.toNat := (Nat.le_log2 (by omega)).mpr hlarge
  obtain ⟨-, hfree⟩ := PoolSystem.empty_create (p := p) arenaSize arenaCount env
  have hhints := (PoolSystem.hints_create (p := p) arenaSize arenaCount env).1
  rw [PoolSystem.start_eq] at hinv ⊢
  clear hstart
  generalize MemoryArenaPool.create p arenaSize arenaCount env = created at *
  refine ⟨hinv, fun self a ha => ?_, ?_, fun i hi => ?_, fun self a t ha ht => ?_⟩
  · obtain ⟨k, hle, hle', -, hsize, hcount⟩ :=
      (sizesOf_constructed hspan hlog created.1).mp (sizesOf_eq ha)
    have hpos : poolEnd.toNat ≠ 0 := by
      intro hzero
      rw [hzero, Nat.log2_zero] at hle'
      omega
    have hpow : 2 ^ k ≤ arenaSize.toNat := calc
      2 ^ k ≤ 2 ^ Nat.log2 poolEnd.toNat := Nat.pow_le_pow_right (by decide) hle'
      _ ≤ poolEnd.toNat := Nat.log2_self_le hpos
      _ ≤ arenaSize.toNat := UInt64.le_iff_toNat_le.mp hend
    rw [objectSize_eq (Nat.le_trans hfive hle)] at hsize
    unfold PoolAllocator.Fits
    rw [hsize, hcount, hhints]
    exact ⟨hpow, Nat.div_mul_le_self _ _⟩
  · show Option.bind created.1.nextFreeArena _ = none
    rw [hfree]
    rfl
  · exact absurd (hi.symm.trans hfree) (Option.some_ne_none i)
  · obtain ⟨size, -, rfl⟩ := Option.map_eq_some_iff.mp ha
    exact absurd ht.symm (Option.some_ne_none t)

end HeapSystem

end Hologine.Memory
