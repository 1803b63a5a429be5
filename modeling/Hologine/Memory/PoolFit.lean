import Hologine.Memory.PoolBookkeeping
import Hologine.Memory.PoolFilling

/-!
# Blocks that fit their arenas

Runs of new pool allocators on a new arena pool, in which they are only asked for blocks, while
clients write in the blocks they have. The constructor counts the blocks of an arena by the size it
is asked for, and stores a size that has room for a free node.

Results:
* `PoolSystem.fitsArenas_step`: where the blocks fit as often as they are counted, every call is
  defined and hands out a block in an arena, and no arena has more blocks than fit.
* `PoolSystem.Spanned.exists_run_past_end`: where they do not, blocks are handed out until one runs
  past the end of the first arena.
* `PoolSystem.fitsArenas_iff`: the blocks of every run fit their arenas **iff** they fit as often as
  they are counted.
* `PoolSystem.not_fitsArenas`: two blocks of 24 bytes in an arena of 40.
-/

namespace Hologine.Memory

open Hologine.Library Hologine.Library.Run MemoryArenaPool

variable {π : Type} (p : Platform π)

/-! ## The property and its condition -/

namespace PoolSystem

/-- A call of `allocate`, or a write of a client in a block that it has. -/
def Obtains (s : PoolSystem π) : PoolCall → Prop
  | .allocate self size => s.Legal (.allocate self size)
  | .write block offset bytes => s.Legal (.write block offset bytes)
  | _ => False

instance (s : PoolSystem π) (call : PoolCall) : Decidable (s.Obtains call) :=
  match call with
  | .allocate self size => inferInstanceAs (Decidable (s.Legal (.allocate self size)))
  | .write block offset bytes => inferInstanceAs (Decidable (s.Legal (.write block offset bytes)))
  | .reserve _ => isFalse id
  | .deallocate _ _ => isFalse id

/-- **What an allocation must do**: it is defined, the block lies in an arena of the allocator, and
no arena has more live blocks of the allocator than fit it. -/
def FitsArenas (s : PoolSystem π) (call : PoolCall) : Prop :=
  ∀ self size a, call = .allocate self size → s.allocators self = some a →
    ∃ block s', s.step p call = some (block, s') ∧
      (block ≠ 0 → s'.arenas.pool.Holds self block a.objectSize.toNat) ∧
        ∀ i, s'.arenas.pool.owner i = some self →
          (s'.liveIn self i).ncard ≤ s'.arenas.pool.arenaSize.toNat / a.objectSize.toNat

/-- **The condition**: objects of a size, with room for a free node, fit an arena as often as they
are counted. -/
def SizeFits (arenaSize size : UInt64) : Prop :=
  max size.toNat 24 ≤ arenaSize.toNat ∧
    arenaSize.toNat / size.toNat * max size.toNat 24 ≤ arenaSize.toNat

instance (arenaSize size : UInt64) : Decidable (SizeFits arenaSize size) :=
  inferInstanceAs (Decidable (_ ≤ _ ∧ _ ≤ _))

end PoolSystem

variable {p}

/-- The allocator of a size fits the arenas as the size does. -/
theorem fits_create_iff (pool : MemoryArenaPool) (size : UInt64) :
    (PoolAllocator.create pool size).Fits pool ↔ PoolSystem.SizeFits pool.arenaSize size := by
  have hmax : (PoolAllocator.create pool size).objectSize.toNat = max size.toNat 24 :=
    Bits.toNat_max size freeNodeSize
  have hcount : (PoolAllocator.create pool size).objectCount.toNat =
      pool.arenaSize.toNat / size.toNat := UInt64.toNat_div ..
  rw [PoolAllocator.Fits, PoolSystem.SizeFits, hmax, hcount]

/-! ## Where the blocks fit -/

/-- An arena can be requested, as long as nothing has been given back. -/
theorem MemoryArenaPool.Backless.canRequest {pool : MemoryArenaPool}
    {allocators : UInt64 → Option PoolAllocator} {self : UInt64} {a : PoolAllocator}
    (h : pool.Backless allocators) (ha : allocators self = some a) (hfits : a.Fits pool) (i : Nat) :
    a.CanRequest pool i := by
  refine ⟨hfits.1, fun htwo => Nat.le_trans (Nat.mul_le_mul_right _ htwo) hfits.2, fun _ => h.last,
    fun t ht hlast q hq => ?_⟩
  rw [h.tail self a t ha ht hlast] at hq
  exact absurd hq (Option.not_mem_none q)

namespace PoolSystem

variable {s s' : PoolSystem π} {self size block : UInt64} {a : PoolAllocator} {i : Nat}
  {call : PoolCall}

/-- An arena has no more live blocks than fit it. -/
theorem Inv.ncard_liveIn_le (h : s.Inv) (ha : s.allocators self = some a)
    (hi : s.arenas.pool.owner i = some self) :
    (s.liveIn self i).ncard ≤ s.arenas.pool.arenaSize.toNat / a.objectSize.toNat := by
  obtain ⟨hlt, hself⟩ := owner_eq_some.mp hi
  obtain ⟨k, hstate, -⟩ := h.arenaState hlt hself ha
  have hcounted := h.counted ha hi
  have hsum := hstate.counted
  have hpos : 0 < a.objectSize.toNat :=
    Nat.lt_of_lt_of_le (by decide) (h.regular self a ha).sized
  rw [Nat.le_div_iff_mul_le hpos, show (s.liveIn self i).ncard = k by omega]
  exact hstate.fits

/-- What lasts while allocators are only asked for blocks that fit. -/
structure Growing (s : PoolSystem π) : Prop where
  inv : s.Inv
  fitting : s.Fitting
  backless : s.arenas.pool.Backless s.allocators

theorem Growing.of_sameSizes (h : s.Growing) (hsame : s.SameSizes s') (hinv : s'.Inv)
    (hbackless : s'.arenas.pool.Backless s'.allocators) : s'.Growing :=
  ⟨hinv, h.fitting.of_sameSizes hsame, hbackless⟩

/-- An allocation that is defined, and leaves what lasts. -/
theorem fitsArenas_of_step (hstep : s.step p (.allocate self size) = some (block, s'))
    (h : s'.Growing) (hsame : s.SameSizes s')
    (hholds : ∀ a, s.allocators self = some a → block ≠ 0 →
      s'.arenas.pool.Holds self block a.objectSize.toNat) :
    s.FitsArenas p (.allocate self size) := by
  rintro _ _ a ⟨⟩ ha
  refine ⟨block, s', hstep, hholds a ha, fun i hi => ?_⟩
  have hsizes := congrFun hsame.1 self
  rw [sizesOf_eq ha] at hsizes
  obtain ⟨a', ha', heq⟩ := Option.map_eq_some_iff.mp hsizes
  obtain ⟨hsize, -⟩ := Prod.mk.inj heq
  rw [← hsize]
  exact h.inv.ncard_liveIn_le ha' hi

/-- **One call**, where the blocks of all allocators fit their arenas. -/
theorem fitsArenas_step (h : s.Growing) (hcall : s.Obtains call) :
    ∃ block s', s.step p call = some (block, s') ∧ s'.Growing ∧ s.FitsArenas p call := by
  cases call with
  | reserve count => exact hcall.elim
  | deallocate self block => exact hcall.elim
  | write block offset bytes =>
    obtain ⟨a, ha, hfits⟩ := hcall
    obtain ⟨self, hlive, ha⟩ := Option.bind_eq_some_iff.mp ha
    exact ⟨0, _, rfl, ⟨h.inv.write hlive ha hfits, h.fitting, h.backless⟩, fun _ _ _ heq => by
      simp at heq⟩
  | allocate self size =>
    obtain ⟨a, ha⟩ := Option.isSome_iff_exists.mp hcall
    have hfits := h.fitting self a ha
    by_cases hsize : size ≤ a.objectSize
    · rcases PoolInv.walk h.inv ha with ⟨i, hi, hself, hlist, hrun⟩ | ⟨hfull, hrun⟩
      · -- a node of one of its arenas
        obtain ⟨list, hallocate, hinv, hholds, -⟩ := PoolInv.allocate_node (p := p) h.inv ha hsize
          hi hself hlist hrun (h.inv.hasRoom hi hself ha hlist hfits.2) s.arenas.env
        have hstep := step_allocate ha hallocate
        rw [← ha, Function.update_eq_self, if_neg hlist] at hstep
        have hsame : s.SameSizes { s with
            arenas := ⟨s.arenas.pool.taken i list,
              a.takenMemory s.arenas.memory (s.arenas.pool.record i).freeNodeList, s.arenas.env⟩
            live := Function.update s.live (s.arenas.pool.record i).freeNodeList (some self) } :=
          ⟨rfl, rfl⟩
        have hgrowing := h.of_sameSizes hsame hinv
          (PoolInv.backless_taken h.backless (h.inv.geometry.lt_capacity hi) list)
        refine ⟨_, _, hstep, hgrowing, fitsArenas_of_step hstep hgrowing hsame ?_⟩
        intro b hb _
        obtain rfl := Option.some.inj (ha.symm.trans hb)
        exact hholds
      · -- an arena more
        obtain ⟨block, a', pool', m', env', hallocate, hallocates, -, -, hbackless, hsizes, hinv,
          hholds⟩ := PoolInv.allocate_request h.inv ha hsize hfull hrun
            fun i _ => h.backless.canRequest ha hfits i
        have hstep := step_allocate ha hallocate
        have hsame : s.SameSizes {
            arenas := ⟨pool', m', env'⟩
            allocators := Function.update s.allocators self (some a')
            live := if block = 0 then s.live else Function.update s.live block (some self) } :=
          ⟨sizesOf_update ha hsizes, arenaSize_of_allocates hallocates⟩
        have hgrowing := h.of_sameSizes hsame hinv (hbackless h.backless)
        refine ⟨_, _, hstep, hgrowing, fitsArenas_of_step hstep hgrowing hsame ?_⟩
        intro b hb hne
        obtain rfl := Option.some.inj (ha.symm.trans hb)
        exact (hholds hne).1
    · have hrefused : a.allocate p self size s.arenas = some (0, a, { s.arenas with
          env := p.pushException .invalidArgument s.arenas.env }) :=
        if_pos (UInt64.not_le.mp hsize)
      have hstep := step_allocate ha hrefused
      rw [if_pos rfl, ← ha, Function.update_eq_self] at hstep
      have hgrowing : Growing { s with arenas := { s.arenas with
          env := p.pushException .invalidArgument s.arenas.env } } :=
        ⟨h.inv, h.fitting, h.backless⟩
      exact ⟨_, _, hstep, hgrowing,
        fitsArenas_of_step hstep hgrowing ⟨rfl, rfl⟩ fun _ _ hne => absurd rfl hne⟩

end PoolSystem

/-! ## Where the blocks do not fit -/

section

variable {pool : MemoryArenaPool} {m : Memory} {a : PoolAllocator} {self size node block : UInt64}
  {i : Nat} {env : π}

/-- `takeNode` hands out the node, and assigns no more of the records than the free list of one. -/
theorem takeNode_eq_some {s s' : Arenas π} (h : a.takeNode node s = some (block, s')) :
    block = node ∧ ∃ i list, s.pool.modifyRecord i (fun r => { r with freeNodeList := list }) =
      some s'.pool := by
  unfold PoolAllocator.takeNode at h
  obtain ⟨arena, -, h⟩ := Option.bind_eq_some_iff.mp h
  extract_lets rest at h
  have hrest : ∀ r, rest r = some (block, s') → block = node ∧ ∃ i list,
      s.pool.modifyRecord i (fun r => { r with freeNodeList := list }) = some s'.pool := by
    rintro ⟨next, m⟩ h
    obtain ⟨m', -, h⟩ := Option.bind_eq_some_iff.mp h
    obtain ⟨record, -, h⟩ := Option.bind_eq_some_iff.mp h
    split at h
    · obtain ⟨pool', hpool, heq⟩ := Option.bind_eq_some_iff.mp h
      obtain ⟨rfl, rfl⟩ := Prod.mk.inj (Option.some.inj heq)
      exact ⟨rfl, arena, 0, hpool⟩
    · obtain ⟨m'', -, h⟩ := Option.bind_eq_some_iff.mp h
      obtain ⟨pool', hpool, heq⟩ := Option.bind_eq_some_iff.mp h
      obtain ⟨rfl, rfl⟩ := Prod.mk.inj (Option.some.inj heq)
      exact ⟨rfl, arena, next, hpool⟩
  clear_value rest
  split at h
  · obtain ⟨m, -, h⟩ := Option.bind_eq_some_iff.mp h
    obtain ⟨m', -, h⟩ := Option.bind_eq_some_iff.mp h
    obtain ⟨r, -, h⟩ := Option.bind_eq_some_iff.mp h
    exact hrest r h
  · obtain ⟨r, -, h⟩ := Option.bind_eq_some_iff.mp h
    exact hrest r h

/-- `allocate` where the first arena of the list has a free node. -/
theorem allocate_head (hhead : a.arenaListHead = some i) (hi : i < pool.capacity)
    (hlist : (pool.record i).freeNodeList ≠ 0) (hsize : size ≤ a.objectSize) (m : Memory)
    (env : π) : a.allocate p self size ⟨pool, m, env⟩ =
      (a.takeNode (pool.record i).freeNodeList
        ⟨pool.set i (pool.record i).counted, m, env⟩).map fun r => (r.1, a, r.2) := by
  have hwalk := PoolInv.getFirstFreeNode_head hi hlist
  unfold PoolAllocator.allocate
  rw [if_neg (UInt64.not_lt.mpr hsize), hhead]
  simp only [hwalk, Option.bind_eq_bind, Option.bind_some, if_neg hlist]
  rw [Option.map_eq_bind]
  rfl

/-- **`allocate` of an allocator without an arena**, where the pool has another: the node is the
first byte of the arena. -/
theorem allocate_first (hg : pool.Geometry) (hready : pool.Ready) (hcommits : p.Commits)
    (hlt : pool.arenaCount.toNat < pool.arenaReserved.toNat) (hhead : a.arenaListHead = none)
    (htail : a.arenaListTail = none) (hsize : size ≤ a.objectSize) (self : UInt64) (m : Memory)
    (env : π) :
    ∃ pool' env', pool'.Geometry ∧ pool'.arenaCount.toNat = pool.arenaCount.toNat + 1 ∧
      SamePlaces pool pool' ∧
      pool'.record pool.arenaCount.toNat = (pool.withArena pool.grownRegion).requestedRecord
        pool.arenaCount.toNat self a.objectCount ∧
      (pool'.record pool.arenaCount.toNat).freeNodeList.toNat =
        pool.arenaBase pool.arenaCount.toNat ∧
      a.allocate p self size ⟨pool, m, env⟩ =
        (({ a with
            arenaListHead := some pool.arenaCount.toNat
            arenaListTail := some pool.arenaCount.toNat } : PoolAllocator).takeNode
          (pool'.record pool.arenaCount.toNat).freeNodeList
          ⟨pool'.set pool.arenaCount.toNat (pool'.record pool.arenaCount.toNat).counted,
            spanMemory m (pool'.record pool.arenaCount.toNat).freeNodeList a.objectCount,
            env'⟩).map fun r => (r.1, { a with
              arenaListHead := some pool.arenaCount.toNat
              arenaListTail := some pool.arenaCount.toNat }, r.2) := by
  have hgrown : Grown pool (pool.withArena pool.grownRegion) := .arena _ hlt
  have hg₁ := hg.grown hgrown
  have hcount := toNat_arenaCount_withArena hlt pool.grownRegion
  have hi : pool.arenaCount.toNat < (pool.withArena pool.grownRegion).arenaCount.toNat := by
    omega
  have hcapacity := hg₁.lt_capacity hi
  have hlink : (pool.withArena pool.grownRegion).link pool.arenaCount.toNat = none := by
    rw [link, hg.record_withArena hlt, Function.update_self]
    exact hready.empty
  rcases hready.takeArena hg hcommits env with ⟨hall, -⟩ | ⟨-, env', htake⟩
  · exact absurd hall (Nat.ne_of_lt hlt)
  have hrecord : ((pool.withArena pool.grownRegion).requested pool.arenaCount.toNat self
      a.objectCount).record pool.arenaCount.toNat =
      (pool.withArena pool.grownRegion).requestedRecord pool.arenaCount.toNat self
        a.objectCount := by
    rw [record_requested hcapacity, Function.update_self]
  have hlist : (((pool.withArena pool.grownRegion).requested pool.arenaCount.toNat self
      a.objectCount).record pool.arenaCount.toNat).freeNodeList =
      ((pool.withArena pool.grownRegion).record pool.arenaCount.toNat).base := by
    rw [hrecord]
    rfl
  have hne : ((pool.withArena pool.grownRegion).record pool.arenaCount.toNat).base ≠ 0 :=
    fun hnull => hg₁.toNat_base_ne hi (congrArg UInt64.toNat hnull)
  have hlinked : a.linkArena pool.arenaCount.toNat ((pool.withArena pool.grownRegion).requested
      pool.arenaCount.toNat self a.objectCount) =
      some ({ a with
        arenaListHead := some pool.arenaCount.toNat
        arenaListTail := some pool.arenaCount.toNat },
        (pool.withArena pool.grownRegion).requested pool.arenaCount.toNat self a.objectCount) := by
    rw [PoolAllocator.linkArena, htail]
  have hrequest := PoolInv.requestEmptyArena_eq hg₁ hi (by
    rw [htake, tookNext, hlink]) hlinked m
  have hwalk : PoolAllocator.getFirstFreeNode (PoolAllocator.steps pool) none pool =
      some (0, pool) := rfl
  have hwalk' := PoolInv.getFirstFreeNode_head
    (Nat.lt_of_lt_of_eq hcapacity capacity_requested.symm) (hlist ▸ hne)
  refine ⟨_, env', hg₁.requested hi, hcount, ⟨rfl, rfl⟩, hrecord, ?_, ?_⟩
  · rw [hlist]
    exact hg₁.base _ hi
  · unfold PoolAllocator.allocate
    rw [if_neg (UInt64.not_lt.mpr hsize), hhead, hlist]
    rw [hlist] at hwalk'
    simp only [hwalk, Option.bind_eq_bind, Option.bind_some, if_true, hrequest, hwalk', if_neg hne,
      reduceCtorEq, if_false]
    rw [Option.map_eq_bind]
    rfl

/-- A block of the first arena, if that is the only one, ends where the arena ends or before.
Setting the free list of a record leaves the arenas where they are. -/
theorem holds_modifyRecord {pool' : MemoryArenaPool} {list : UInt64} {n : Nat}
    (hg : pool.Geometry) (hone : pool.arenaCount.toNat = 1)
    (hmodify : pool.modifyRecord i (fun r => { r with freeNodeList := list }) = some pool')
    (hholds : pool'.Holds self block n) :
    block.toNat + n ≤ pool.arenaBase 0 + pool.arenaSize.toNat := by
  obtain ⟨t, ht, hi, rfl⟩ := modifyRecord_eq_some.mp hmodify
  obtain ⟨j, hj, -, -, hend⟩ := hholds
  obtain rfl : j = 0 := by
    have hj : j < pool.arenaCount.toNat := hj
    omega
  have hrecord : pool.record 0 = t.record 0 := by rw [record, ht]
  have hbase := hg.base 0 (by omega)
  rw [hrecord] at hbase
  have hsame : (Function.update t.record i { t.record i with freeNodeList := list } 0).base =
      (t.record 0).base := by
    by_cases heq : 0 = i
    · rw [← heq, Function.update_self]
    · rw [Function.update_of_ne heq]
  have hend : block.toNat + n ≤
      (Function.update t.record i { t.record i with freeNodeList := list } 0).base.toNat +
        pool.arenaSize.toNat := hend
  rw [hsame, hbase] at hend
  exact hend

end

namespace PoolSystem

variable {s s' : PoolSystem π} {self size node : UInt64} {a a' : PoolAllocator} {k : Nat}

/-- **A node that is handed out ends in the first arena**, if that is the only one. -/
theorem FitsArenas.end_le {arenas : Arenas π} (hfits : s.FitsArenas p (.allocate self size))
    (ha : s.allocators self = some a)
    (hallocate : a.allocate p self size s.arenas =
      (a'.takeNode node arenas).map fun r => (r.1, a', r.2))
    (hg : arenas.pool.Geometry) (hone : arenas.pool.arenaCount.toNat = 1) (hnode : node ≠ 0) :
    node.toNat + a.objectSize.toNat ≤ arenas.pool.arenaBase 0 + arenas.pool.arenaSize.toNat := by
  obtain ⟨block, s', hstep, hholds, -⟩ := hfits self size a rfl ha
  cases htake : a'.takeNode node arenas with
  | none =>
    rw [htake, Option.map_none] at hallocate
    rw [step, ha, Option.bind_eq_bind, Option.bind_some, hallocate, Option.bind_eq_bind,
      Option.bind_none] at hstep
    exact absurd hstep.symm (Option.some_ne_none _)
  | some r =>
    obtain ⟨block', arenas'⟩ := r
    rw [htake, Option.map_some] at hallocate
    obtain ⟨rfl, rfl⟩ := Prod.mk.inj (Option.some.inj
      ((step_allocate ha hallocate).symm.trans hstep))
    obtain ⟨rfl, i, list, hmodify⟩ := takeNode_eq_some htake
    exact holds_modifyRecord hg hone hmodify (hholds hnode)

/-- **The first arena is the only one, and its blocks are handed out in order**, `k` of them so
far. -/
structure Spanned (s : PoolSystem π) (allocator : UInt64) (a : PoolAllocator) (k : Nat) :
    Prop where
  geometry : s.arenas.pool.Geometry
  one : s.arenas.pool.arenaCount.toNat = 1
  allocator : s.allocators allocator = some a
  head : a.arenaListHead = some 0
  sized : 24 ≤ a.objectSize.toNat
  spanAt : SpanAt s.arenas.pool s.arenas.memory a.objectSize.toNat a.objectCount.toNat 0 k

namespace Spanned

theorem pos (h : s.Spanned self a k) : 0 < s.arenas.pool.arenaCount.toNat := by
  rw [h.one]
  exact Nat.one_pos

/-- The next block is a place in memory. -/
theorem list_ne_zero (h : s.Spanned self a k) : (s.arenas.pool.record 0).freeNodeList ≠ 0 := by
  have hpos := h.geometry.positive
  have hlist := h.spanAt.list
  intro hnull
  rw [hnull, UInt64.toNat_zero, arenaBase] at hlist
  omega

/-- An allocation takes the next block. -/
theorem allocate_eq (h : s.Spanned self a k) :
    a.allocate p self 0 s.arenas = (a.takeNode (s.arenas.pool.record 0).freeNodeList
      ⟨s.arenas.pool.set 0 (s.arenas.pool.record 0).counted, s.arenas.memory,
        s.arenas.env⟩).map fun r => (r.1, a, r.2) :=
  allocate_head h.head (h.geometry.lt_capacity h.pos) h.list_ne_zero
    (UInt64.le_iff_toNat_le.mpr (Nat.zero_le _)) s.arenas.memory s.arenas.env

/-- **A block that is in the arena is handed out**, be the next one in it or not. -/
theorem next (h : s.Spanned self a k) (hk : k + 1 < a.objectCount.toNat)
    (hroom : (k + 1) * a.objectSize.toNat ≤ s.arenas.pool.arenaSize.toNat) :
    ∃ block s', s.step p (.allocate self 0) = some (block, s') ∧ s'.Spanned self a (k + 1) ∧
      s'.arenas.pool.arenaSize = s.arenas.pool.arenaSize := by
  obtain ⟨list, htake, hspan, -⟩ :=
    h.spanAt.takeNode h.geometry h.pos h.sized hk hroom s.arenas.env
  have hallocate := h.allocate_eq (p := p)
  rw [htake, Option.map_some] at hallocate
  exact ⟨_, _, step_allocate h.allocator hallocate, ⟨h.geometry.set h.pos rfl, h.one,
    Function.update_self self _ _, h.head, h.sized, hspan⟩, rfl⟩

/-- **A block is handed out that runs past the end of the arena**, after so many that do not. -/
theorem exists_run_past_end (h : s.Spanned self a k)
    (hmore : s.arenas.pool.arenaSize.toNat < a.objectCount.toNat * a.objectSize.toNat) :
    ∃ calls, Along (step p) Obtains s calls ∧ ¬ Along (step p) (FitsArenas p) s calls := by
  have hpos : 0 < a.objectSize.toNat := Nat.lt_of_lt_of_le (by decide) h.sized
  induction hn : s.arenas.pool.arenaSize.toNat / a.objectSize.toNat - k generalizing s k with
  | zero =>
    -- the block begins in the arena, or at its end
    have hlast : s.arenas.pool.arenaSize.toNat < (k + 1) * a.objectSize.toNat :=
      (Nat.div_lt_iff_lt_mul hpos).mp (by omega)
    refine ⟨[.allocate self 0], ⟨Option.isSome_iff_exists.mpr ⟨a, h.allocator⟩,
      fun _ _ _ => trivial⟩, ?_⟩
    rintro ⟨hfits, -⟩
    have hend := hfits.end_le h.allocator h.allocate_eq (h.geometry.set h.pos rfl) h.one
      h.list_ne_zero
    have hend : (s.arenas.pool.record 0).freeNodeList.toNat + a.objectSize.toNat ≤
        s.arenas.pool.arenaBase 0 + s.arenas.pool.arenaSize.toNat := hend
    rw [h.spanAt.list] at hend
    rw [Nat.succ_mul] at hlast
    omega
  | succ n ih =>
    have hk : k + 1 ≤ s.arenas.pool.arenaSize.toNat / a.objectSize.toNat := by omega
    have hcount : s.arenas.pool.arenaSize.toNat / a.objectSize.toNat < a.objectCount.toNat :=
      (Nat.div_lt_iff_lt_mul hpos).mpr hmore
    obtain ⟨block, s', hstep, hnext, hsize⟩ := h.next (p := p) (by omega)
      ((Nat.le_div_iff_mul_le hpos).mp hk)
    obtain ⟨calls, hobtains, hnot⟩ := ih hnext (hsize ▸ hmore) (by rw [hsize]; omega)
    refine ⟨.allocate self 0 :: calls, (along_cons hstep).mpr
      ⟨Option.isSome_iff_exists.mpr ⟨a, h.allocator⟩, hobtains⟩, fun hall => hnot ?_⟩
    exact ((along_cons hstep).mp hall).2

end Spanned

/-- **An allocator without an arena** hands out blocks that do not fit, unless they fit as often as
they are counted. -/
theorem fits_of_fitsArenas (hg : s.arenas.pool.Geometry) (hready : s.arenas.pool.Ready)
    (hempty : s.arenas.pool.arenaCount = 0) (hcommits : p.Commits)
    (hreserved : 0 < s.arenas.pool.arenaReserved.toNat) (ha : s.allocators self = some a)
    (hhead : a.arenaListHead = none) (htail : a.arenaListTail = none)
    (hsized : 24 ≤ a.objectSize.toNat)
    (hall : ∀ calls, Along (step p) Obtains s calls → Along (step p) (FitsArenas p) s calls) :
    a.Fits s.arenas.pool := by
  have hzero : s.arenas.pool.arenaCount.toNat = 0 := by
    rw [hempty, UInt64.toNat_zero]
  have hobtains : s.Obtains (.allocate self 0) := Option.isSome_iff_exists.mpr ⟨a, ha⟩
  have hsize : (0 : UInt64) ≤ a.objectSize := UInt64.le_iff_toNat_le.mpr (Nat.zero_le _)
  obtain ⟨pool', env', hg', hcount, hplaces, hrecord, hlist, hallocate⟩ :=
    allocate_first hg hready hcommits (hzero ▸ hreserved) hhead htail hsize self s.arenas.memory
      s.arenas.env
  rw [hzero] at hcount hrecord hlist hallocate
  have hi : 0 < pool'.arenaCount.toNat := by omega
  have hne : (pool'.record 0).freeNodeList ≠ 0 := by
    have hpos := hg.positive
    intro hnull
    rw [hnull, UInt64.toNat_zero, arenaBase] at hlist
    omega
  have hfirst := (hall [.allocate self 0] ⟨hobtains, fun _ _ _ => trivial⟩).1
  have hend := hfirst.end_le ha hallocate (hg'.set hi rfl) hcount hne
  have hfit : a.objectSize.toNat ≤ s.arenas.pool.arenaSize.toNat := by
    have hend : (pool'.record 0).freeNodeList.toNat + a.objectSize.toNat ≤
        pool'.arenaBase 0 + pool'.arenaSize.toNat := hend
    rw [hlist, hplaces.arenaBase_eq, hplaces.2] at hend
    omega
  refine ⟨hfit, ?_⟩
  by_contra hmore
  have htwo : 0 + 1 < a.objectCount.toNat := by
    by_contra hle
    have := Nat.mul_le_mul_right a.objectSize.toNat (Nat.le_of_not_lt hle)
    omega
  have hspan : SpanAt pool' (spanMemory s.arenas.memory (pool'.record 0).freeNodeList
      a.objectCount) a.objectSize.toNat a.objectCount.toNat 0 0 := by
    have hbase : (pool'.record 0).freeNodeList = (pool'.record 0).base := by
      rw [hrecord]
      rfl
    rw [hbase]
    exact .spanned hg' hi (by rw [hrecord]; rfl) hbase
  obtain ⟨list, htake, hspan', -⟩ := SpanAt.takeNode
    (a := { a with arenaListHead := some 0, arenaListTail := some 0 }) hspan hg' hi hsized htwo
    (by rw [Nat.zero_add, Nat.one_mul, hplaces.2]; exact hfit) env'
  rw [htake, Option.map_some] at hallocate
  obtain ⟨s', hstep, hspanned, hsame⟩ : ∃ s', s.step p (.allocate self 0) =
      some ((pool'.record 0).freeNodeList, s') ∧
      s'.Spanned self { a with arenaListHead := some 0, arenaListTail := some 0 } (0 + 1) ∧
        s'.arenas.pool.arenaSize = pool'.arenaSize :=
    ⟨_, step_allocate ha hallocate, ⟨hg'.set hi rfl, hcount, Function.update_self self _ _, rfl,
      hsized, hspan'⟩, rfl⟩
  obtain ⟨calls, hcalls, hnot⟩ := hspanned.exists_run_past_end (p := p)
    (by rw [hsame, hplaces.2]; exact Nat.lt_of_not_le hmore)
  exact hnot ((along_cons hstep).mp (hall (.allocate self 0 :: calls)
    ((along_cons hstep).mpr ⟨hobtains, hcalls⟩))).2

/-! ## All runs -/

variable {arenaSizeHint arenaCountHint : UInt64} {sizes : UInt64 → Option UInt64} {env : π}

/-- **The blocks of every run fit their arenas** if the sizes do; and only then, on a platform that
commits all pages and for a pool that may have an arena. -/
theorem fitsArenas_iff (hplaced : Placed p arenaSizeHint arenaCountHint env)
    (hsizes : ∀ self size, sizes self = some size → self ≠ 0 ∧ size ≠ 0) (m : Memory) :
    ((∀ self size, sizes self = some size → SizeFits arenaSizeHint size) →
        ∀ calls, Along (step p) Obtains (start p arenaSizeHint arenaCountHint sizes m env) calls →
          Along (step p) (FitsArenas p) (start p arenaSizeHint arenaCountHint sizes m env) calls) ∧
      (p.Commits → 0 < arenaCountHint.toNat →
        (create p arenaSizeHint arenaCountHint env).1.memoryRegion.memory.toNat +
          (recordSize arenaCountHint).toNat + arenaCountHint.toNat * arenaSizeHint.toNat < 2 ^ 64 →
        (∀ calls, Along (step p) Obtains (start p arenaSizeHint arenaCountHint sizes m env) calls →
          Along (step p) (FitsArenas p) (start p arenaSizeHint arenaCountHint sizes m env) calls) →
        ∀ self size, sizes self = some size → SizeFits arenaSizeHint size) := by
  have hinv : (start p arenaSizeHint arenaCountHint sizes m env).Inv := inv_start hplaced hsizes m
  obtain ⟨hempty, hfree⟩ := empty_create (p := p) arenaSizeHint arenaCountHint env
  obtain ⟨harena, hreserved⟩ := hints_create (p := p) arenaSizeHint arenaCountHint env
  have hgeometry := geometry_create hplaced.built hplaced.table hplaced.positive hplaced.span
  have hready := ready_create hplaced.built
  rw [start_eq] at hinv ⊢
  clear hplaced
  generalize create p arenaSizeHint arenaCountHint env = created at *
  obtain ⟨pool, env⟩ := created
  constructor
  · intro hfits calls hobtains
    refine Along.of_defined Growing (fun s call h hcall => fitsArenas_step h hcall)
      ⟨hinv, fun self a ha => ?_, ?_, fun i hi => ?_, fun self a t ha ht => ?_⟩ hobtains
    · obtain ⟨size, hsize, rfl⟩ := Option.map_eq_some_iff.mp ha
      exact (fits_create_iff pool size).mpr (harena.symm ▸ hfits self size hsize)
    · show Option.bind pool.nextFreeArena _ = none
      rw [hfree]
      rfl
    · exact absurd (hi.symm.trans hfree) (Option.some_ne_none i)
    · obtain ⟨size, -, rfl⟩ := Option.map_eq_some_iff.mp ha
      exact absurd ht.symm (Option.some_ne_none t)
  · intro hcommits hcount hspace hall self size hsize
    have ha : (sizes self).map (PoolAllocator.create pool) =
        some (PoolAllocator.create pool size) := by
      rw [hsize, Option.map_some]
    have hfits := fits_of_fitsArenas hgeometry (hready hspace) hempty hcommits
      (hreserved.symm ▸ hcount) ha rfl rfl (hinv.regular self _ ha).sized hall
    rw [← harena]
    exact (fits_create_iff pool size).mp hfits

/-- Two allocators whose objects fit arenas of 256 bytes, and one whose objects do not. -/
theorem fitsArenas_iff_two_allocators :
    Along (step Platform.granting) (FitsArenas Platform.granting)
        (start Platform.granting 256 4
          (fun self => if self = 1 then some 64 else if self = 2 then some 100 else none)
          (fun _ => 0) ())
        [.allocate 1 64, .allocate 2 100, .write 0x20000 0 [1, 2], .allocate 1 10, .allocate 2 7,
          .allocate 2 100] ∧
      ¬ ∀ calls, Along (step Platform.granting) Obtains
        (start Platform.granting 40 4 (Function.update (fun _ => none) 1 (some 16)) (fun _ => 0)
          ()) calls →
        Along (step Platform.granting) (FitsArenas Platform.granting)
          (start Platform.granting 40 4 (Function.update (fun _ => none) 1 (some 16)) (fun _ => 0)
            ()) calls := by
  constructor
  · refine (fitsArenas_iff ⟨by decide, by decide, by decide, by decide⟩
      (fun _ _ => ne_zero_of_two (by decide) (by decide)) _).1 (fun self size hsize => ?_) _
        (by decide)
    split_ifs at hsize with h₁ h₂
    · rw [← Option.some.inj hsize]
      decide
    · rw [← Option.some.inj hsize]
      decide
  · intro hall
    have h := (fitsArenas_iff ⟨by decide, by decide, by decide, by decide⟩
      (fun _ _ => ne_zero_of_sole (by decide) (by decide)) _).2
      (fun _ _ _ _ => rfl) (by decide) (by decide) hall 1 16 rfl
    exact absurd h (by decide)

/-- **A block runs past the end**: two of 24 bytes are counted in an arena of 40. -/
theorem not_fitsArenas : ¬ ∀ calls : List PoolCall,
    Along (step Platform.granting) Obtains
      (start Platform.granting 40 2 (Function.update (fun _ => none) 1 (some 16)) (fun _ => 0) ())
      calls →
    Along (step Platform.granting) (FitsArenas Platform.granting)
      (start Platform.granting 40 2 (Function.update (fun _ => none) 1 (some 16)) (fun _ => 0) ())
      calls := by
  intro hall
  have h := along_iff_reached.mp (hall [.allocate 1 16, .allocate 1 16] (by decide))
    [.allocate 1 16] (.allocate 1 16) [] rfl
  have hlast : (exec (step Platform.granting) (start Platform.granting 40 2
      (Function.update (fun _ => none) 1 (some 16)) (fun _ => 0) ()) [.allocate 1 16]).map (fun r =>
        (sizesOf r.2.allocators 1, (r.2.step Platform.granting (.allocate 1 16)).map fun r =>
          (r.1, r.2.arenas.pool.arenaCount.toNat, (r.2.arenas.pool.record 0).base.toNat,
            r.2.arenas.pool.arenaSize.toNat))) =
      some (some (24, 2), some (0x20018, 1, 0x20000, 40)) := by decide
  obtain ⟨⟨outputs, s⟩, hrun, heq⟩ := Option.map_eq_some_iff.mp hlast
  obtain ⟨hsizes, heq⟩ := Prod.mk.inj heq
  obtain ⟨a, ha, -⟩ := Option.map_eq_some_iff.mp hsizes
  have hsize := (Prod.mk.inj (Option.some.inj ((sizesOf_eq ha).symm.trans hsizes))).1
  obtain ⟨block, s', hstep, hholds, -⟩ := h outputs s hrun 1 16 a rfl ha
  simp only [hstep, Option.map_some, Option.some.injEq, Prod.mk.injEq] at heq
  obtain ⟨rfl, hcount, hbase, harena⟩ := heq
  obtain ⟨i, hi, -, -, hend⟩ := hholds (by decide)
  obtain rfl : i = 0 := by omega
  rw [hsize, hbase, harena] at hend
  exact absurd hend (by decide)

end PoolSystem

end Hologine.Memory
