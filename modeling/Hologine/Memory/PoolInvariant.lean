import Hologine.Memory.PoolBlocks
import Mathlib.Data.List.Perm.Subperm

/-!
# What the calls of pool allocators keep

The invariant of an arena pool and its allocators, and the conditions under which each call keeps
it. An arena never gets a block back unless it gets its last one back, so the blocks that are live
in an arena are always its first.

* `PoolAllocator.Requests`, `PoolAllocator.Allocates`, `PoolAllocator.Deallocates`: what the calls
  do, case by case.
* `PoolInv.takeNode`: the block handed out is in an arena of the allocator, and overlaps no live
  block.
* `PoolInv.requestEmptyArena`, `PoolInv.allocate`, `PoolInv.deallocate`, `PoolInv.write`: what each
  call keeps.
-/

namespace Hologine.Memory

open Hologine.Library Hologine.Container MemoryArenaPool

/-! ## The invariant -/

/-- An allocator as its constructor leaves it and its calls keep it: the tail of its list is the
head. -/
structure PoolAllocator.Regular (a : PoolAllocator) (arenaSize : UInt64) : Prop where
  sized : 24 ≤ a.objectSize.toNat
  counted : a.objectSize.toNat ≤ arenaSize.toNat → 0 < a.objectCount.toNat
  tail : a.arenaListTail = a.arenaListHead

/-- The sizes of the allocators. -/
def sizesOf (allocators : UInt64 → Option PoolAllocator) (self : UInt64) : Option (Nat × Nat) :=
  (allocators self).map PoolAllocator.sizes

/-- **The invariant**: the free list and the lists of the allocators are the arenas by owner, and
the first blocks of the arenas of each allocator are live. -/
structure PoolInv (pool : MemoryArenaPool) (m : Memory) (allocators : UInt64 → Option PoolAllocator)
    (live : UInt64 → Option UInt64) (fresh : Option Nat) : Prop where
  geometry : pool.Geometry
  ranged : pool.Ranged
  named : ∀ self a, allocators self = some a → self ≠ 0
  regular : ∀ self a, allocators self = some a → a.Regular pool.arenaSize
  lists : Chains pool.link (pool.heads allocators) pool.owner
  blocks : Blocks pool m (sizesOf allocators) live fresh

/-! ## The conditions -/

/-- A free node that is a span has room for the block and the next node. -/
def PoolAllocator.HasRoom (a : PoolAllocator) (pool : MemoryArenaPool) (m : Memory) (i : Nat) :
    Prop :=
  nodeSize m (pool.record i).freeNodeList > 1 →
    (pool.record i).freeNodeList.toNat + 2 * a.objectSize.toNat ≤
      (pool.record i).base.toNat + pool.arenaSize.toNat

/-- An arena that is requested has room for a block, and for the next node if there is to be one,
and `request_empty_arena` puts it and nothing else on the list: the list is empty and the arena the
last free one, or the tail has a next arena, or links back to no other. -/
def PoolAllocator.CanRequest (a : PoolAllocator) (pool : MemoryArenaPool) (i : Nat) : Prop :=
  a.objectSize.toNat ≤ pool.arenaSize.toNat ∧
    (1 < a.objectCount.toNat → 2 * a.objectSize.toNat ≤ pool.arenaSize.toNat) ∧
      (a.arenaListTail = none → pool.nextFreeArena.bind pool.link = none) ∧
        ∀ t ∈ a.arenaListTail, pool.link t = none → ∀ q ∈ (pool.record t).previous, q = i

instance (a : PoolAllocator) (pool : MemoryArenaPool) (m : Memory) (i : Nat) :
    Decidable (a.HasRoom pool m i) :=
  inferInstanceAs (Decidable (_ → _))

instance (a : PoolAllocator) (pool : MemoryArenaPool) (i : Nat) :
    Decidable (a.CanRequest pool i) :=
  inferInstanceAs (Decidable (_ ∧ (_ → _) ∧ (_ → _) ∧ ∀ t ∈ a.arenaListTail,
    pool.link t = none → ∀ q ∈ (pool.record t).previous, q = i))

/-- The arena that `take_arena` returns. -/
def nextArena {π : Type} (p : Platform π) (pool : MemoryArenaPool) (env : π) : Option Nat :=
  (pool.takeArena p env).bind Prod.fst

/-- **The condition of `allocate`**: the free node has room, or if there is none, the arena that is
requested has. -/
def PoolAllocator.CanAllocate {π : Type} (p : Platform π) (a : PoolAllocator) (self : UInt64)
    (s : Arenas π) : Prop :=
  (∀ i < s.pool.arenaCount.toNat, (s.pool.record i).allocator = self →
      (s.pool.record i).freeNodeList ≠ 0 → a.HasRoom s.pool s.memory i) ∧
    ((∀ i < s.pool.arenaCount.toNat, (s.pool.record i).allocator = self →
        (s.pool.record i).freeNodeList = 0) →
      ∀ i ∈ nextArena p s.pool s.env, a.CanRequest s.pool i)

instance {π : Type} (p : Platform π) (a : PoolAllocator) (self : UInt64) (s : Arenas π) :
    Decidable (a.CanAllocate p self s) :=
  inferInstanceAs (Decidable ((∀ i < s.pool.arenaCount.toNat, _ → _ → a.HasRoom _ _ i) ∧
    ((∀ i < s.pool.arenaCount.toNat, _ → _) → ∀ i ∈ nextArena p s.pool s.env, a.CanRequest _ i)))

/-- **The condition of `deallocate`**: the block is the only live one of its arena; the arena links
back to the one before it on the list, or is the head and links back to none or to one that has the
same next arena; and if it is to be the only free arena, it is not linked to another. -/
def PoolAllocator.CanDeallocate (a : PoolAllocator) (pool : MemoryArenaPool) (block : UInt64) :
    Prop :=
  ∀ i ∈ pool.getArena block, (pool.record i).freeNodeCount + 1 = a.objectCount ∧
    ((pool.record i).previous = none → a.arenaListHead = some i) ∧
      (∀ q ∈ (pool.record i).previous,
        pool.link q = if a.arenaListHead = some i then pool.link i else some i) ∧
        (pool.nextFreeArena = none → pool.link i = none)

instance (a : PoolAllocator) (pool : MemoryArenaPool) (block : UInt64) :
    Decidable (a.CanDeallocate pool block) :=
  inferInstanceAs (Decidable (∀ i ∈ pool.getArena block, _ ∧ (_ → _) ∧
    (∀ q ∈ (pool.record i).previous, _ = _) ∧ (_ → _)))

/-! ## What `allocate` does -/

/-- A record after a node of it is taken. -/
def ArenaRecord.taken (r : ArenaRecord) (list : UInt64) : ArenaRecord :=
  { r.counted with freeNodeList := list }

namespace MemoryArenaPool

/-- The pool after a node of an arena is taken. -/
def taken (pool : MemoryArenaPool) (i : Nat) (list : UInt64) : MemoryArenaPool :=
  pool.set i ((pool.record i).taken list)

variable {pool : MemoryArenaPool} {i : Nat} {list : UInt64}

theorem record_taken (hi : i < pool.capacity) : (pool.taken i list).record =
    Function.update pool.record i ((pool.record i).taken list) := record_set hi

theorem link_taken (hi : i < pool.capacity) : (pool.taken i list).link = pool.link :=
  link_set_same (r := (pool.record i).taken list) hi rfl

theorem owner_taken (hi : i < pool.capacity) : (pool.taken i list).owner = pool.owner :=
  owner_set_same (r := (pool.record i).taken list) hi rfl

end MemoryArenaPool

/-- **What `request_empty_arena` does**: it gets no arena, or gets the one at the head of the free
list, which has all of its nodes free then, and puts it on the list of the allocator. -/
inductive PoolAllocator.Requests {π : Type} (p : Platform π) (a : PoolAllocator) (self : UInt64)
    (pool : MemoryArenaPool) (env : π) :
    Option Nat → PoolAllocator → MemoryArenaPool → π → Prop
  | none {pool' : MemoryArenaPool} {env' : π} (hgrown : Grown pool pool')
    (htake : pool.takeArena p env = some (.none, pool', env')) :
    Requests p a self pool env .none a pool' env'
  | arena {i : Nat} {a' : PoolAllocator} {pool₁ pool' : MemoryArenaPool} {env' : π}
    (hgrown : Grown pool pool₁) (hnext : pool₁.nextFreeArena = some i)
    (htake : pool.takeArena p env =
      some (some i, { pool₁ with nextFreeArena := pool₁.link i }, env'))
    (hrelinked : Relinked (pool₁.requested i self a.objectCount) pool')
    (hfirst : a.arenaListTail = .none → pool' = pool₁.requested i self a.objectCount) :
    Requests p a self pool env (some i) a' pool' env'

/-- **What `allocate` does**, of a size that is not refused: it takes a node of an arena of the
allocator; or they have none, and it gets no arena, or gets one and takes its node. -/
inductive PoolAllocator.Allocates {π : Type} (p : Platform π) (a : PoolAllocator) (self : UInt64)
    (pool : MemoryArenaPool) (env : π) : UInt64 → PoolAllocator → MemoryArenaPool → π → Prop
  | node {i : Nat} (list : UInt64) (hi : i < pool.arenaCount.toNat)
    (hself : (pool.record i).allocator = self) (hlist : (pool.record i).freeNodeList ≠ 0) :
    Allocates p a self pool env (pool.record i).freeNodeList a (pool.taken i list) env
  | none {a' : PoolAllocator} {pool' : MemoryArenaPool} {env' : π}
    (hfull : ∀ i < pool.arenaCount.toNat, (pool.record i).allocator = self →
      (pool.record i).freeNodeList = 0)
    (hrequest : a.Requests p self pool env .none a' pool' env') :
    Allocates p a self pool env 0 a' pool' env'
  | arena {i : Nat} {a' : PoolAllocator} {pool' : MemoryArenaPool} {env' : π} (list : UInt64)
    (hfull : ∀ i < pool.arenaCount.toNat, (pool.record i).allocator = self →
      (pool.record i).freeNodeList = 0)
    (hrequest : a.Requests p self pool env (some i) a' pool' env') :
    Allocates p a self pool env (pool'.record i).freeNodeList a' (pool'.taken i list) env'

/-- **What `deallocate` does**: the arena of the block is removed from its list and given back. -/
inductive PoolAllocator.Deallocates (a : PoolAllocator) (pool : MemoryArenaPool) (block : UInt64) :
    PoolAllocator → MemoryArenaPool → Prop
  | arena {i : Nat} {a' : PoolAllocator} {pool₂ : MemoryArenaPool}
    (hget : pool.getArena block = some i) (hi : i < pool.arenaCount.toNat)
    (hsizes : a'.sizes = a.sizes)
    (hrelinked : Relinked (pool.set i (pool.record i).returned) pool₂)
    (hsole : (pool.record i).previous = none → pool.link i = none →
      pool₂ = pool.set i (pool.record i).returned) :
    Deallocates a pool block a' (pool₂.given i)

/-! ## Lists that only grow -/

/-- **Nothing has been given back**: at most one arena is free, and neither it nor a tail without a
next arena links back to another. -/
structure MemoryArenaPool.Backless (pool : MemoryArenaPool)
    (allocators : UInt64 → Option PoolAllocator) : Prop where
  last : pool.nextFreeArena.bind pool.link = none
  free : ∀ i, pool.nextFreeArena = some i → (pool.record i).previous = none
  tail : ∀ self a t, allocators self = some a → a.arenaListTail = some t → pool.link t = none →
    (pool.record t).previous = none

/-! ## What is written -/

/-- **An arena that is requested** had no allocator, and nothing is written outside it. -/
structure MemoryArenaPool.Fresh (pool pool' : MemoryArenaPool) (m m' : Memory) (i : Nat) :
    Prop where
  places : SamePlaces pool pool'
  free : i < pool.arenaCount.toNat → (pool.record i).allocator = 0
  outside : ∀ x, x < pool.arenaBase i ∨ pool.arenaBase i + pool.arenaSize.toNat ≤ x → m' x = m x

/-- No arena that has an allocator is written in. -/
def MemoryArenaPool.Spares (pool : MemoryArenaPool) (m m' : Memory) : Prop :=
  ∀ j < pool.arenaCount.toNat, (pool.record j).allocator ≠ 0 → ∀ x, pool.arenaBase j ≤ x →
    x < pool.arenaBase j + pool.arenaSize.toNat → m' x = m x

/-! ## What a block handed out is -/

/-- A block lies in an arena of the allocator. -/
def MemoryArenaPool.Holds (pool : MemoryArenaPool) (self block : UInt64) (size : Nat) : Prop :=
  ∃ i < pool.arenaCount.toNat, (pool.record i).allocator = self ∧
    (pool.record i).base.toNat ≤ block.toNat ∧
      block.toNat + size ≤ (pool.record i).base.toNat + pool.arenaSize.toNat

/-- A block overlaps no live block. -/
def Apart (sizes : UInt64 → Option (Nat × Nat)) (live : UInt64 → Option UInt64) (block : UInt64)
    (size : Nat) : Prop :=
  ∀ other self size' count', live other = some self → sizes self = some (size', count') →
    block.toNat + size ≤ other.toNat ∨ other.toNat + size' ≤ block.toNat

section

variable {π : Type} {p : Platform π} {pool pool' : MemoryArenaPool} {m m' : Memory}
  {allocators : UInt64 → Option PoolAllocator} {live : UInt64 → Option UInt64}
  {fresh : Option Nat} {a a' : PoolAllocator} {self block : UInt64} {i j : Nat} {env : π}

theorem sizesOf_eq (h : allocators self = some a) :
    sizesOf allocators self = some (a.objectSize.toNat, a.objectCount.toNat) :=
  congrArg (Option.map PoolAllocator.sizes) h

/-- Sizes do not change. -/
theorem sizesOf_update (h : allocators self = some a) (hsizes : a'.sizes = a.sizes) :
    sizesOf (Function.update allocators self (some a')) = sizesOf allocators := by
  funext other
  unfold sizesOf
  by_cases heq : other = self
  · rw [heq, Function.update_self, h, Option.map_some, hsizes, Option.map_some]
  · rw [Function.update_of_ne heq]

namespace PoolInv

theorem size_le (h : PoolInv pool m allocators live fresh) (self : UInt64) (size count : Nat)
    (hsizes : sizesOf allocators self = some (size, count)) : 24 ≤ size := by
  obtain ⟨a, ha, heq⟩ := Option.map_eq_some_iff.mp hsizes
  obtain ⟨rfl, -⟩ := Prod.mk.inj heq
  exact (h.regular self a ha).sized

/-- A live block has an allocator. -/
theorem exists_allocator (h : PoolInv pool m allocators live fresh)
    (hlive : live block = some self) : ∃ a, allocators self = some a := by
  obtain ⟨i, -, -, -, size, count, j, hsizes, -⟩ := (h.blocks.live block self).mp hlive
  obtain ⟨a, ha, -⟩ := Option.map_eq_some_iff.mp hsizes
  exact ⟨a, ha⟩

theorem named_update (h : PoolInv pool m allocators live fresh) (ha : allocators self = some a)
    (a' : PoolAllocator) (other : UInt64) (b : PoolAllocator)
    (hb : Function.update allocators self (some a') other = some b) : other ≠ 0 := by
  by_cases heq : other = self
  · rw [heq]
    exact h.named self a ha
  · rw [Function.update_of_ne heq] at hb
    exact h.named other b hb

theorem regular_update (h : PoolInv pool m allocators live fresh) (ha' : a'.Regular pool.arenaSize)
    (other : UInt64) (b : PoolAllocator)
    (hb : Function.update allocators self (some a') other = some b) :
    b.Regular pool.arenaSize := by
  by_cases heq : other = self
  · rw [heq, Function.update_self] at hb
    rw [← Option.some.inj hb]
    exact ha'
  · rw [Function.update_of_ne heq] at hb
    exact h.regular other b hb

/-- The free arenas have no allocator, and are allocated. -/
theorem free (h : PoolInv pool m allocators live fresh) (hi : pool.nextFreeArena = some i) :
    i < pool.arenaCount.toNat ∧ (pool.record i).allocator = 0 := by
  refine owner_eq_some.mp (h.lists.owner_of_head (k := 0) ?_)
  rw [heads, if_pos rfl, hi]

/-- Where the list of an allocator begins. -/
theorem heads_eq (h : PoolInv pool m allocators live fresh) (ha : allocators self = some a) :
    pool.heads allocators self = some a.arenaListHead := by
  rw [heads, if_neg (h.named self a ha), ha, Option.map_some]

/-- The tail of a list is an arena of its allocator. -/
theorem owner_tail (h : PoolInv pool m allocators live fresh) (ha : allocators self = some a)
    (hi : a.arenaListTail = some i) : pool.owner i = some self := by
  refine h.lists.owner_of_head (k := self) ?_
  rw [h.heads_eq ha, ← (h.regular self a ha).tail, hi]

/-- What an arena is linked to has the same owner. -/
theorem owner_link (h : PoolInv pool m allocators live fresh) (hi : i < pool.arenaCount.toNat)
    (hj : pool.link i = some j) :
    j < pool.arenaCount.toNat ∧ (pool.record j).allocator = (pool.record i).allocator :=
  owner_eq_some.mp (h.lists.owner_next (owner_eq_some.mpr ⟨hi, rfl⟩) hj)

/-- **The pool grows.** -/
theorem grown (h : PoolInv pool m allocators live fresh) (hgrown : Grown pool pool') :
    PoolInv pool' m allocators live fresh := by
  have hg := h.geometry.grown hgrown
  have hb := h.blocks.grown h.geometry hgrown
  cases hgrown with
  | region region => exact ⟨hg, h.ranged, h.named, h.regular, h.lists, hb⟩
  | arena region hlt =>
    have hcapacity := Nat.lt_of_lt_of_le hlt h.geometry.tabled
    have hrecord := h.geometry.record_withArena hlt region
    have hcount := toNat_arenaCount_withArena hlt region
    have hzero := h.geometry.zero _ (Nat.le_refl _)
    refine ⟨hg, fun i q hq => ?_, h.named, h.regular, ?_, hb⟩
    · rw [hcount]
      rw [hrecord] at hq
      refine Nat.lt_succ_of_lt (h.ranged i q ?_)
      by_cases heq : i = pool.arenaCount.toNat
      · rw [heq, Function.update_self] at hq
        rw [heq]
        exact hq
      · rw [Function.update_of_ne heq] at hq
        exact hq
    · -- the new arena is put on the free list
      have hnew : pool.owner pool.arenaCount.toNat = none := if_neg (Nat.lt_irrefl _)
      have hhead : pool.heads allocators 0 = some pool.nextFreeArena := if_pos rfl
      have hlists := h.lists.push hnew hhead
      have hlink : (pool.withArena region).link =
          Function.update pool.link pool.arenaCount.toNat pool.nextFreeArena := link_set hcapacity
      have howner : (pool.withArena region).owner =
          Function.update pool.owner pool.arenaCount.toNat (some 0) := by
        funext i
        rw [owner, hrecord, hcount]
        by_cases heq : i = pool.arenaCount.toNat
        · rw [heq, Function.update_self, Function.update_self, if_pos (Nat.lt_succ_self _), hzero]
          rfl
        · rw [Function.update_of_ne heq, Function.update_of_ne heq, owner]
          exact if_congr (Nat.lt_succ_iff_lt_or_eq.trans (or_iff_left heq)) rfl rfl
      rw [heads_free pool (pool.withArena region), hlink, howner]
      exact hlists

/-- The pool grows, if no arena is free. -/
theorem backless_grown (h : PoolInv pool m allocators live fresh) (hb : pool.Backless allocators)
    (hgrown : Grown pool pool') (hsame : pool.nextFreeArena ≠ none → pool' = pool) :
    pool'.Backless allocators := by
  by_cases hnone : pool.nextFreeArena = none
  · have hlast := fun i hi => h.geometry.link_grown (i := i) hgrown hsame hi hb.last
    refine ⟨?_, fun i hi => ?_, fun self a t ha ht hlink => ?_⟩
    · cases hi : pool'.nextFreeArena with
      | none => rfl
      | some i => exact hlast i hi
    · cases hgrown with
      | region region => exact hb.free i hi
      | arena region hlt =>
        obtain rfl := Option.some.inj hi
        rw [h.geometry.record_withArena hlt region, Function.update_self,
          h.geometry.zero _ (Nat.le_refl _)]
        rfl
    · have htrecord := h.geometry.record_grown hgrown (owner_eq_some.mp (h.owner_tail ha ht)).1
      rw [link, htrecord] at hlink
      rw [htrecord]
      exact hb.tail self a t ha ht hlink
  · rw [hsame hnone]
    exact hb

/-- A node is taken. -/
theorem backless_taken (hb : pool.Backless allocators) (hi : i < pool.capacity) (list : UInt64) :
    (pool.taken i list).Backless allocators := by
  have hprevious : ∀ j, ((pool.taken i list).record j).previous = (pool.record j).previous := by
    intro j
    rw [record_taken hi]
    by_cases heq : j = i
    · rw [heq, Function.update_self]
      rfl
    · rw [Function.update_of_ne heq]
  refine ⟨?_, fun j hj => ?_, fun self a t ha ht hlink => ?_⟩
  · rw [link_taken hi]
    exact hb.last
  · rw [hprevious]
    exact hb.free j hj
  · rw [link_taken hi] at hlink
    rw [hprevious]
    exact hb.tail self a t ha ht hlink

/-- Places and arenas, when one record is assigned. -/
theorem sameArena_set (hi : i < pool.capacity) (r : ArenaRecord) (hj : j ≠ i) :
    SameArena pool (pool.set i r) j := by
  unfold SameArena
  rw [record_set hi, Function.update_of_ne hj]
  exact ⟨rfl, rfl, rfl⟩

/-- The state of an arena that an allocator has. -/
theorem arenaState (h : PoolInv pool m allocators live fresh) (hi : i < pool.arenaCount.toNat)
    (hself : (pool.record i).allocator = self) (ha : allocators self = some a) :
    ∃ k, ArenaState pool m a.objectSize.toNat a.objectCount.toNat i k ∧
      (k = 0 → fresh = some i) ∧
        ((pool.record i).freeNodeList ≠ 0 → k < a.objectCount.toNat) := by
  obtain ⟨size, count, k, hsizes, hstate, hk⟩ :=
    h.blocks.arena i hi (hself ▸ h.named self a ha)
  rw [hself, sizesOf_eq ha] at hsizes
  obtain ⟨rfl, rfl⟩ := Prod.mk.inj (Option.some.inj hsizes)
  exact ⟨k, hstate, hk, fun hlist =>
    Nat.lt_of_le_of_ne (Nat.le.intro hstate.counted) fun heq => hlist (hstate.full heq)⟩

/-- The block after the one that is taken is in the arena, if there is room. -/
theorem splits_of_hasRoom {k : Nat} (hg : pool.Geometry) (hi : i < pool.arenaCount.toNat)
    (hstate : ArenaState pool m a.objectSize.toNat a.objectCount.toNat i k)
    (hroom : a.HasRoom pool m i) (hmore : k + 1 < a.objectCount.toNat) :
    (k + 2) * a.objectSize.toNat ≤ pool.arenaSize.toNat := by
  have hk : k < a.objectCount.toNat := Nat.lt_of_succ_lt hmore
  have hspan : nodeSize m (pool.record i).freeNodeList > 1 := by
    rw [gt_iff_lt, UInt64.lt_iff_toNat_lt, UInt64.toNat_one, hstate.span hk]
    omega
  have hfit := hroom hspan
  rw [hstate.list hk, hg.base i hi] at hfit
  rw [Nat.add_mul]
  omega

/-- A free node has room in an arena that all of its blocks fit. -/
theorem hasRoom (h : PoolInv pool m allocators live fresh) (hi : i < pool.arenaCount.toNat)
    (hself : (pool.record i).allocator = self) (ha : allocators self = some a)
    (hlist : (pool.record i).freeNodeList ≠ 0)
    (hfits : a.objectCount.toNat * a.objectSize.toNat ≤ pool.arenaSize.toNat) :
    a.HasRoom pool m i := by
  obtain ⟨k, hstate, -, hlt⟩ := h.arenaState hi hself ha
  have hlt := hlt hlist
  intro hspan
  rw [gt_iff_lt, UInt64.lt_iff_toNat_lt, UInt64.toNat_one, hstate.span hlt] at hspan
  have hroom : (k + 2) * a.objectSize.toNat ≤ a.objectCount.toNat * a.objectSize.toNat :=
    Nat.mul_le_mul_right _ (by omega)
  rw [Nat.add_mul] at hroom
  rw [hstate.list hlt, h.geometry.base i hi]
  omega

/-- **A free node of an arena is handed out.** -/
theorem takeNode (h : PoolInv pool m allocators live fresh) (hi : i < pool.arenaCount.toNat)
    (hself : (pool.record i).allocator = self) (ha : allocators self = some a)
    (hlist : (pool.record i).freeNodeList ≠ 0) (hroom : a.HasRoom pool m i)
    (hfresh : ∀ j, fresh = some j → j = i) (env : π) :
    ∃ list, a.takeNode (pool.record i).freeNodeList
        ⟨pool.set i (pool.record i).counted, m, env⟩ =
          some ((pool.record i).freeNodeList,
            ⟨pool.taken i list, a.takenMemory m (pool.record i).freeNodeList, env⟩) ∧
      (∀ x, x < pool.arenaBase i ∨ pool.arenaBase i + pool.arenaSize.toNat ≤ x →
        a.takenMemory m (pool.record i).freeNodeList x = m x) ∧
      PoolInv (pool.taken i list) (a.takenMemory m (pool.record i).freeNodeList) allocators
        (Function.update live (pool.record i).freeNodeList (some self)) none ∧
      (pool.taken i list).Holds self (pool.record i).freeNodeList a.objectSize.toNat ∧
        Apart (sizesOf allocators) live (pool.record i).freeNodeList a.objectSize.toNat := by
  have hne := h.named self a ha
  have hsized := (h.regular self a ha).sized
  have hcapacity := h.geometry.lt_capacity hi
  have hbase := h.geometry.base i hi
  -- the first blocks of the arena are live, but not all of them
  obtain ⟨k, hstate, -, hk⟩ := h.arenaState hi hself ha
  have hk := hk hlist
  have hnode := hstate.list hk
  obtain ⟨list, hrun, hstate', hm⟩ := hstate.takeNode h.geometry hi hsized hk
    (splits_of_hasRoom h.geometry hi hstate hroom) env
  have hset : (pool.taken i list).record i = (pool.record i).taken list := by
    rw [record_taken hcapacity, Function.update_self]
  refine ⟨list, hrun, hm, ⟨h.geometry.set hi rfl, h.ranged.set hcapacity (h.ranged i), h.named,
    h.regular, ?_, ?_⟩, ⟨i, hi, ?_, ?_, ?_⟩, ?_⟩
  · rw [link_taken hcapacity, owner_taken hcapacity]
    exact h.lists
  · exact h.blocks.occupy h.size_le hi hne ⟨rfl, rfl⟩ rfl
      (fun j hj => sameArena_set hcapacity _ hj) hm hfresh hself
      ((congrArg ArenaRecord.allocator hset).trans hself) (sizesOf_eq ha) hstate hk hstate' hnode
  · rw [hset]
    exact hself
  · rw [hset]
    show (pool.record i).base.toNat ≤ _
    omega
  · have hroom := hstate.room hk
    rw [Nat.succ_mul] at hroom
    rw [hset]
    show _ ≤ (pool.record i).base.toNat + pool.arenaSize.toNat
    omega
  · intro other self' size' count' hlive hsizes'
    exact h.blocks.apart h.size_le hself (sizesOf_eq ha) hstate hk hnode hlive hsizes'

/-! ## Requesting an arena -/

/-- **The lists after an arena is requested**, if it and nothing else is put on the list. -/
theorem lists_requested (h : PoolInv pool m allocators live none)
    (hi : pool.nextFreeArena = some i) (ha : allocators self = some a) (count : UInt64) :
    (a.arenaListTail = none → pool.link i = none →
      Chains (pool.requested i self count).link
        ((pool.requested i self count).heads (Function.update allocators self
          (some { a with arenaListHead := some i, arenaListTail := some i })))
        (pool.requested i self count).owner) ∧
    ∀ t, a.arenaListTail = some t →
      Chains (Function.update (Function.update (pool.requested i self count).link i
          ((pool.requested i self count).link t)) t (some i))
        ((pool.requested i self count).heads (Function.update allocators self (some a)))
        (pool.requested i self count).owner := by
  obtain ⟨hlt, hfree⟩ := h.free hi
  have hself := h.named self a ha
  have htail := (h.regular self a ha).tail
  have hcapacity := h.geometry.lt_capacity hlt
  have howner : (pool.requested i self count).owner =
      Function.update (Function.update pool.owner i none) i (some self) := by
    rw [Function.update_idem, owner_requested hcapacity hlt]
  have hheads : ∀ allocators, (pool.requested i self count).heads allocators =
      Function.update (pool.heads allocators) 0 (some (pool.link i)) :=
    fun allocators => heads_free pool _ allocators
  have hnone : Function.update pool.owner i none i = none := Function.update_self i _ _
  have hpop := h.lists.pop (k := 0) (a := i) (by rw [heads, if_pos rfl, hi])
  have hlist : Function.update (pool.heads allocators) 0 (some (pool.link i)) self =
      some a.arenaListHead := by
    rw [Function.update_of_ne hself, heads, if_neg hself, ha, Option.map_some]
  rw [link_requested hcapacity, howner]
  refine ⟨fun hempty hlast => ?_, fun t ht => ?_⟩
  · have hpush := hpop.push hnone (hlist.trans (by rw [← htail, hempty]))
    rw [← hlast, Function.update_eq_self] at hpush
    rw [heads_allocator hself, hheads]
    exact hpush
  · have hinsert := hpop.insertAfterHead hnone (hlist.trans (by rw [← htail, ht]))
    rw [heads_allocator hself, hheads, ← hlist, Function.update_eq_self]
    exact hinsert

/-- **An arena that is requested and linked** has no live block yet. -/
theorem requested (h : PoolInv pool m allocators live none) (hi : pool.nextFreeArena = some i)
    (ha : allocators self = some a) (hsizes : a'.sizes = a.sizes)
    (hregular : a'.Regular pool.arenaSize) (hfit : a.objectSize.toNat ≤ pool.arenaSize.toNat)
    (hrelinked : Relinked (pool.requested i self a.objectCount) pool')
    (hlists : Chains pool'.link ((pool.requested i self a.objectCount).heads
      (Function.update allocators self (some a'))) (pool.requested i self a.objectCount).owner) :
    PoolInv pool' (spanMemory m (pool.record i).base a.objectCount)
      (Function.update allocators self (some a')) live (some i) := by
  obtain ⟨hlt, hfree⟩ := h.free hi
  have hself := h.named self a ha
  have hold := h.regular self a ha
  have hcapacity := h.geometry.lt_capacity hlt
  have hbase := h.geometry.base i hlt
  have hsized := hold.sized
  have hsame : ∀ j, j ≠ i → SameArena pool (pool.requested i self a.objectCount) j :=
    fun j hj => sameArena_set hcapacity (pool.requestedRecord i self a.objectCount) hj
  have hrecord : (pool.requested i self a.objectCount).record i =
      pool.requestedRecord i self a.objectCount := by
    rw [record_requested hcapacity, Function.update_self]
  have hplaces : SamePlaces pool pool' := by
    rw [hrelinked.records]
    exact ⟨rfl, rfl⟩
  have hcount : pool'.arenaCount = pool.arenaCount := hrelinked.arenaCount
  have hgeometry := hrelinked.geometry (h.geometry.requested hlt)
  have hallocator : (pool'.record i).allocator = self := by
    rw [hrelinked.allocator, hrecord]
    rfl
  have hbase' : (pool'.record i).base = (pool.record i).base := by
    rw [hrelinked.base, hrecord]
    rfl
  have hstate : ArenaState pool' (spanMemory m (pool.record i).base a.objectCount)
      a.objectSize.toNat a.objectCount.toNat i 0 := by
    rw [← hbase']
    refine ArenaState.spanned hgeometry (hcount ▸ hlt) ?_ ?_ (hold.counted hfit) ?_
    · rw [hrelinked.freeNodeCount, hrecord]
      rfl
    · rw [hrelinked.freeNodeList, hrecord, hbase']
      rfl
    · rw [hplaces.2]
      exact hfit
  refine ⟨hgeometry, hrelinked.ranged (h.ranged.requested hcapacity), h.named_update ha a', ?_, ?_,
    ?_⟩
  · rw [hplaces.2]
    exact h.regular_update hregular
  · rw [hrelinked.heads, hrelinked.owner]
    exact hlists
  · rw [sizesOf_update ha hsizes]
    refine h.blocks.request h.size_le hlt hplaces hcount
      (fun j hj => (hsame j hj).relinked hrelinked) (fun x hx => ?_) hfree hallocator
      (sizesOf_eq ha) hstate
    exact spanMemory_of_outside (by omega)

/-- **Another arena is put on a list**: the other tails stay as they are. -/
theorem backless_linked (h : PoolInv pool m allocators live none) (hb : pool.Backless allocators)
    (hi : pool.nextFreeArena = some i) (ha : allocators self = some a)
    (hempty : pool'.nextFreeArena = none)
    (htail : ∀ t, a'.arenaListTail = some t → pool'.link t = none →
      (pool'.record t).previous = none)
    (hothers : ∀ j, j ≠ i → a.arenaListTail ≠ some j → pool'.link j = pool.link j ∧
      (pool'.record j).previous = (pool.record j).previous) :
    pool'.Backless (Function.update allocators self (some a')) := by
  refine ⟨by rw [hempty]; rfl, fun j hj => absurd (hj.symm.trans hempty) (Option.some_ne_none j),
    fun other b t hother ht hlink => ?_⟩
  by_cases heq : other = self
  · rw [heq, Function.update_self] at hother
    obtain rfl := Option.some.inj hother
    exact htail t ht hlink
  · rw [Function.update_of_ne heq] at hother
    obtain ⟨-, hself⟩ := owner_eq_some.mp (h.owner_tail hother ht)
    have hne : t ≠ i := by
      rintro rfl
      exact h.named other b hother (hself.symm.trans (h.free hi).2)
    obtain ⟨hsame, hsame'⟩ := hothers t hne fun ht' =>
      heq (hself.symm.trans (owner_eq_some.mp (h.owner_tail ha ht')).2)
    rw [hsame] at hlink
    rw [hsame']
    exact hb.tail other b t hother ht hlink

/-- **The arena is put on the list**: it is the first, or is linked in after the head. -/
theorem linkArena (h : PoolInv pool m allocators live none) (hi : pool.nextFreeArena = some i)
    (ha : allocators self = some a) (hlast : a.arenaListTail = none → pool.link i = none)
    (hback : ∀ t ∈ a.arenaListTail, pool.link t = none →
      ∀ q ∈ (pool.record t).previous, q = i) :
    ∃ a' pool', a.linkArena i (pool.requested i self a.objectCount) = some (a', pool') ∧
      a'.sizes = a.sizes ∧ a'.Regular pool.arenaSize ∧
        Relinked (pool.requested i self a.objectCount) pool' ∧
        (a.arenaListTail = none → pool' = pool.requested i self a.objectCount) ∧
        (pool.Backless allocators → pool.link i = none →
          pool'.Backless (Function.update allocators self (some a'))) ∧
          Chains pool'.link ((pool.requested i self a.objectCount).heads
            (Function.update allocators self (some a')))
            (pool.requested i self a.objectCount).owner := by
  have hregular := h.regular self a ha
  have hself := h.named self a ha
  obtain ⟨hlt, hfree⟩ := h.free hi
  have hcapacity := h.geometry.lt_capacity hlt
  obtain ⟨hempty, hinsert⟩ := h.lists_requested hi ha a.objectCount
  unfold PoolAllocator.linkArena
  have hrequested : ∀ j, j ≠ i → (pool.requested i self a.objectCount).record j =
      pool.record j := by
    intro j hj
    rw [record_requested hcapacity, Function.update_of_ne hj]
  cases ht : a.arenaListTail with
  | none =>
    refine ⟨_, _, rfl, rfl, ⟨hregular.sized, hregular.counted, rfl⟩, .refl _, fun _ => rfl,
      fun hb hnone => h.backless_linked hb hi ha hnone ?_ fun j hj _ => ⟨?_, ?_⟩,
      hempty ht (hlast ht)⟩
    · rintro t ⟨⟩ -
      rw [record_requested hcapacity, Function.update_self]
      exact hb.free i hi
    · rw [link_requested hcapacity]
    · rw [hrequested j hj]
  | some t =>
    obtain ⟨htlt, htself⟩ := owner_eq_some.mp (h.owner_tail ha ht)
    have hne : i ≠ t := by
      rintro rfl
      exact hself (htself.symm.trans hfree)
    have hback' : (pool.requested i self a.objectCount).link t = none → ∀ q,
        ((pool.requested i self a.objectCount).record t).previous = some q → q = i := by
      rw [link_requested hcapacity, record_requested hcapacity, Function.update_of_ne (Ne.symm hne)]
      exact hback t ht
    obtain ⟨pool', hinserted, hrelinked, hlink, hprevious⟩ :=
      insertAfter_eq (h.geometry.requested hlt) hlt htlt hne hback'
    refine ⟨a, pool', ?_, rfl, hregular, hrelinked, by simp,
      fun hb hnone => h.backless_linked hb hi ha (hrelinked.nextFreeArena.trans hnone)
        (fun u hu hnone => ?_) fun j hj hj' => ⟨?_, ?_⟩, ?_⟩
    · simp only [hinserted, Option.bind_eq_bind, Option.bind_some]
    · -- the tail has a next arena now
      obtain rfl := Option.some.inj (ht.symm.trans hu)
      rw [hlink, Function.update_self] at hnone
      exact nomatch hnone
    · rw [hlink, Function.update_of_ne fun heq => hj' (ht.trans (congrArg some heq.symm)),
        Function.update_of_ne hj, link_requested hcapacity]
    · rw [hprevious j hj fun heq => hj' (ht.trans (congrArg some heq.symm)), hrequested j hj]
    · rw [hlink]
      exact hinsert t ht

/-- **An arena that is requested** has room for the block that it is requested for. -/
theorem room_requested (h : PoolInv pool m allocators live none) (hi : pool.nextFreeArena = some i)
    (hsizes : a'.sizes = a.sizes)
    (hsplit : 1 < a.objectCount.toNat → 2 * a.objectSize.toNat ≤ pool.arenaSize.toNat)
    (hrelinked : Relinked (pool.requested i self a.objectCount) pool') :
    i < pool'.arenaCount.toNat ∧ (pool'.record i).allocator = self ∧
      (pool'.record i).freeNodeList ≠ 0 ∧
        a'.HasRoom pool' (spanMemory m (pool.record i).base a.objectCount) i := by
  obtain ⟨hlt, -⟩ := h.free hi
  have hcapacity := h.geometry.lt_capacity hlt
  have hrecord : (pool.requested i self a.objectCount).record i =
      pool.requestedRecord i self a.objectCount := by
    rw [record_requested hcapacity, Function.update_self]
  have hbase : (pool'.record i).base = (pool.record i).base := by
    rw [hrelinked.base, hrecord]
    rfl
  have hlist : (pool'.record i).freeNodeList = (pool.record i).base := by
    rw [hrelinked.freeNodeList, hrecord]
    rfl
  have hcount : pool'.arenaCount = pool.arenaCount := hrelinked.arenaCount
  have hsize : pool'.arenaSize = pool.arenaSize := by
    rw [hrelinked.records]
    rfl
  refine ⟨hcount ▸ hlt, ?_, ?_, fun hspan => ?_⟩
  · rw [hrelinked.allocator, hrecord]
    rfl
  · rw [hlist]
    exact fun hzero => h.geometry.toNat_base_ne hlt (by rw [hzero, UInt64.toNat_zero])
  · rw [hlist, (spanMemory_node m (pool.record i).base a.objectCount).2.2, gt_iff_lt,
      UInt64.lt_iff_toNat_lt, UInt64.toNat_one] at hspan
    rw [hlist, hbase, hsize, (Prod.mk.inj hsizes).1]
    exact Nat.add_le_add_left (hsplit hspan) _

/-- `request_empty_arena`, where it gets an arena and puts it on the list. -/
theorem requestEmptyArena_eq {pool₁ : MemoryArenaPool} {env' : π} (hg : pool₁.Geometry)
    (hi : i < pool₁.arenaCount.toNat) (htake : pool.takeArena p env =
      some (some i, { pool₁ with nextFreeArena := pool₁.link i }, env'))
    (hlinked : a.linkArena i (pool₁.requested i self a.objectCount) = some (a', pool'))
    (m : Memory) : a.requestEmptyArena p self ⟨pool, m, env⟩ =
      some (some i, a', ⟨pool', spanMemory m (pool₁.record i).base a.objectCount, env'⟩) := by
  have hcapacity := hg.lt_capacity hi
  have hnull := hg.toNat_base_ne hi
  have hmodify : ({ pool₁ with nextFreeArena := pool₁.link i } : MemoryArenaPool).modifyRecord i
      (fun r => { r with
        allocator := self, freeNodeCount := a.objectCount, freeNodeList := r.base }) =
      some (pool₁.requested i self a.objectCount) := by
    rw [modifyRecord_eq (show i < ({ pool₁ with nextFreeArena := pool₁.link i } :
      MemoryArenaPool).capacity from hcapacity)]
    rfl
  have hget : (pool₁.requested i self a.objectCount).getRecord i =
      some (pool₁.requestedRecord i self a.objectCount) := by
    rw [getRecord_eq (Nat.lt_of_lt_of_eq hcapacity capacity_requested.symm),
      record_requested hcapacity, Function.update_self]
  unfold PoolAllocator.requestEmptyArena
  rw [htake, Option.bind_eq_bind, Option.bind_some]
  dsimp only
  rw [hmodify, Option.bind_eq_bind, Option.bind_some, hget]
  simp only [Option.bind_eq_bind, Option.bind_some, requestedRecord, setNodeSize, setNodeNext,
    setNodePrevious, setNode_eq hnull, hlinked, spanMemory]

/-- **`request_empty_arena`** returns an arena of the allocator whose one node has room, or null. -/
theorem requestEmptyArena (h : PoolInv pool m allocators live none) (ha : allocators self = some a)
    (hcan : ∀ i ∈ nextArena p pool env, a.CanRequest pool i) :
    ∃ arena a' pool' m' env', a.requestEmptyArena p self ⟨pool, m, env⟩ =
        some (arena, a', ⟨pool', m', env'⟩) ∧ a.Requests p self pool env arena a' pool' env' ∧
      (arena = none → m' = m) ∧
      (pool.Backless allocators → pool'.Backless (Function.update allocators self (some a'))) ∧
      PoolInv pool' m' (Function.update allocators self (some a')) live arena ∧
        a'.sizes = a.sizes ∧ ∀ i, arena = some i → i < pool'.arenaCount.toNat ∧
          (pool'.record i).allocator = self ∧ (pool'.record i).freeNodeList ≠ 0 ∧
            a'.HasRoom pool' m' i ∧ pool.Fresh pool' m m' i := by
  obtain ⟨record, pool', env', pool₁, hrun, hgrown, hsame, hcase⟩ := h.geometry.takeArena
    (fun pool₁ i hgrown hi => (h.geometry.grown hgrown).lt_capacity ((h.grown hgrown).free hi).1)
    p env
  have hnext : nextArena p pool env = record := congrArg (Option.bind · Prod.fst) hrun
  have h₁ := h.grown hgrown
  rcases hcase with ⟨rfl, rfl⟩ | ⟨i, hi, rfl, rfl⟩
  · refine ⟨none, a, _, m, env', ?_, .none hgrown hrun, fun _ => rfl, fun hb => ?_, ?_, rfl, nofun⟩
    · rw [PoolAllocator.requestEmptyArena, hrun]
      rfl
    · rw [← ha, Function.update_eq_self]
      exact h.backless_grown hb hgrown hsame
    · rw [← ha, Function.update_eq_self]
      exact h₁
  · obtain ⟨hfit, hsplit, hlast, hback⟩ := hcan i hnext
    rw [← hgrown.arenaSize] at hfit hsplit
    have hlast₁ : a.arenaListTail = none → pool₁.link i = none :=
      fun ht => h.geometry.link_grown hgrown hsame hi (hlast ht)
    have hback₁ : ∀ t ∈ a.arenaListTail, pool₁.link t = none →
        ∀ q ∈ (pool₁.record t).previous, q = i := by
      intro t ht
      have htrecord := h.geometry.record_grown hgrown
        (owner_eq_some.mp (h.owner_tail ha ht)).1
      rw [link, htrecord]
      exact hback t ht
    obtain ⟨a', pool₂, hlinked, hsizes, hregular, hrelinked, hfirst, hbackless, hlists⟩ :=
      h₁.linkArena hi ha hlast₁ hback₁
    have hinv := h₁.requested hi ha hsizes hregular hfit hrelinked hlists
    refine ⟨some i, a', pool₂, _, env', ?_, .arena hgrown hi hrun hrelinked hfirst, by simp,
      fun hb => hbackless (h.backless_grown hb hgrown hsame)
        (h.geometry.link_grown hgrown hsame hi hb.last), hinv, hsizes, ?_⟩
    · exact requestEmptyArena_eq h₁.geometry (h₁.free hi).1 hrun hlinked m
    · rintro j ⟨⟩
      obtain ⟨hlt, hself, hlist, hroom⟩ := h₁.room_requested hi hsizes hsplit hrelinked
      obtain ⟨hi₁, hfree⟩ := h₁.free hi
      have hbase := h₁.geometry.base i hi₁
      have hsized := (h.regular self a ha).sized
      have hplaces : SamePlaces pool₁ pool₂ := by
        rw [hrelinked.records]
        exact ⟨rfl, rfl⟩
      refine ⟨hlt, hself, hlist, hroom, ⟨hplaces.1.trans hgrown.arenaPool,
        hplaces.2.trans hgrown.arenaSize⟩, fun hold => ?_, fun x hx => ?_⟩
      · rw [← h.geometry.record_grown hgrown hold]
        exact hfree
      · refine spanMemory_of_outside ?_
        rw [arenaBase, hgrown.arenaPool, hgrown.arenaSize, ← arenaBase] at hbase
        rw [hgrown.arenaSize] at hfit
        omega

/-- The walk ends at its first arena, if that has a free node. -/
theorem getFirstFreeNode_head (hcapacity : i < pool.capacity)
    (hlist : (pool.record i).freeNodeList ≠ 0) :
    PoolAllocator.getFirstFreeNode (PoolAllocator.steps pool) (some i) pool =
      some ((pool.record i).freeNodeList, pool.set i (pool.record i).counted) := by
  rw [PoolAllocator.steps, PoolAllocator.getFirstFreeNode, getRecord_eq hcapacity,
    Option.bind_eq_bind, Option.bind_some, if_pos hlist, modifyRecord_eq hcapacity]
  rfl

/-- The walk along the arenas of an allocator ends. -/
theorem lt_steps (h : PoolInv pool m allocators live fresh) (ha : allocators self = some a) :
    ∃ l, Chain pool.link a.arenaListHead l ∧ (∀ i, i ∈ l ↔ pool.owner i = some self) ∧
      l.length < PoolAllocator.steps pool := by
  obtain ⟨l, hchain, hmem⟩ := h.lists.chain self a.arenaListHead (h.heads_eq ha)
  have hsubset : l ⊆ List.range pool.capacity := fun i hi =>
    List.mem_range.mpr (h.geometry.lt_capacity (owner_eq_some.mp ((hmem i).mp hi)).1)
  have hlength := (List.Nodup.subperm hchain.nodup hsubset).length_le
  rw [List.length_range] at hlength
  exact ⟨l, hchain, hmem, Nat.lt_succ_of_le hlength⟩

/-- **The walk along the arenas of an allocator** finds a free node of one of them, or finds that
none has any. -/
theorem walk (h : PoolInv pool m allocators live fresh) (ha : allocators self = some a) :
    (∃ i < pool.arenaCount.toNat, (pool.record i).allocator = self ∧
        (pool.record i).freeNodeList ≠ 0 ∧
        PoolAllocator.getFirstFreeNode (PoolAllocator.steps pool) a.arenaListHead pool =
          some ((pool.record i).freeNodeList, pool.set i (pool.record i).counted)) ∨
      ((∀ i < pool.arenaCount.toNat, (pool.record i).allocator = self →
          (pool.record i).freeNodeList = 0) ∧
        PoolAllocator.getFirstFreeNode (PoolAllocator.steps pool) a.arenaListHead pool =
          some (0, pool)) := by
  obtain ⟨l, hchain, hmem, hsteps⟩ := h.lt_steps ha
  rcases PoolAllocator.getFirstFreeNode_eq hchain
    (fun i hi => h.geometry.lt_capacity (owner_eq_some.mp ((hmem i).mp hi)).1) hsteps with
    ⟨i, hi, hlist, hrun⟩ | ⟨hfull, hrun⟩
  · obtain ⟨hlt, hself⟩ := owner_eq_some.mp ((hmem i).mp hi)
    exact .inl ⟨i, hlt, hself, hlist, hrun⟩
  · exact .inr ⟨fun i hi hself => hfull i ((hmem i).mpr (owner_eq_some.mpr ⟨hi, hself⟩)), hrun⟩

/-- **`allocate` where the walk finds a free node**: the node is the block. -/
theorem allocate_node (h : PoolInv pool m allocators live none) (ha : allocators self = some a)
    {size : UInt64} (hsize : size ≤ a.objectSize) (hi : i < pool.arenaCount.toNat)
    (hself : (pool.record i).allocator = self) (hlist : (pool.record i).freeNodeList ≠ 0)
    (hrun : PoolAllocator.getFirstFreeNode (PoolAllocator.steps pool) a.arenaListHead pool =
      some ((pool.record i).freeNodeList, pool.set i (pool.record i).counted))
    (hroom : a.HasRoom pool m i) (env : π) :
    ∃ list, a.allocate p self size ⟨pool, m, env⟩ = some ((pool.record i).freeNodeList, a,
        ⟨pool.taken i list, a.takenMemory m (pool.record i).freeNodeList, env⟩) ∧
      PoolInv (pool.taken i list) (a.takenMemory m (pool.record i).freeNodeList) allocators
        (Function.update live (pool.record i).freeNodeList (some self)) none ∧
      (pool.taken i list).Holds self (pool.record i).freeNodeList a.objectSize.toNat ∧
        Apart (sizesOf allocators) live (pool.record i).freeNodeList a.objectSize.toNat := by
  obtain ⟨list, htake, -, hinv, hholds, hapart⟩ :=
    h.takeNode hi hself ha hlist hroom (by simp) env
  refine ⟨list, ?_, hinv, hholds, hapart⟩
  unfold PoolAllocator.allocate
  rw [if_neg (UInt64.not_lt.mpr hsize)]
  simp only [hrun, Option.bind_eq_bind, Option.bind_some, if_neg hlist, htake]

/-- **`allocate` where no arena has a free node**: it requests one, and takes its node if it gets
it. -/
theorem allocate_request (h : PoolInv pool m allocators live none) (ha : allocators self = some a)
    {size : UInt64} (hsize : size ≤ a.objectSize)
    (hfull : ∀ i < pool.arenaCount.toNat, (pool.record i).allocator = self →
      (pool.record i).freeNodeList = 0)
    (hrun : PoolAllocator.getFirstFreeNode (PoolAllocator.steps pool) a.arenaListHead pool =
      some (0, pool))
    (hcan : ∀ i ∈ nextArena p pool env, a.CanRequest pool i) :
    ∃ block a' pool' m' env', a.allocate p self size ⟨pool, m, env⟩ =
        some (block, a', ⟨pool', m', env'⟩) ∧
      a.Allocates p self pool env block a' pool' env' ∧ (block = 0 → m' = m) ∧
      pool.Spares m m' ∧
      (pool.Backless allocators → pool'.Backless (Function.update allocators self (some a'))) ∧
      a'.sizes = a.sizes ∧
      PoolInv pool' m' (Function.update allocators self (some a'))
        (if block = 0 then live else Function.update live block (some self)) none ∧
      (block ≠ 0 → pool'.Holds self block a.objectSize.toNat ∧
        Apart (sizesOf allocators) live block a.objectSize.toNat) := by
  obtain ⟨arena, a', pool', m', env', hrun', hrequested, hm, hbackless, hinv, hsizes, harena⟩ :=
    h.requestEmptyArena ha hcan
  unfold PoolAllocator.allocate
  rw [if_neg (UInt64.not_lt.mpr hsize)]
  cases arena with
  | none =>
    obtain rfl := hm rfl
    refine ⟨0, a', pool', m', env', ?_, .none hfull hrequested, fun _ => rfl,
      fun _ _ _ _ _ _ => rfl, hbackless, hsizes, ?_, fun hne => absurd rfl hne⟩
    · simp only [hrun, Option.bind_eq_bind, Option.bind_some, if_true, hrun']
    · rw [if_pos rfl]
      exact hinv
  | some i =>
    obtain ⟨hlt, hself, hlist, hroom, hfresh⟩ := harena i rfl
    have hwalk := getFirstFreeNode_head (hinv.geometry.lt_capacity hlt) hlist
    obtain ⟨list, htake, houtside, hinv', hholds, hapart⟩ := hinv.takeNode hlt hself
      (Function.update_self self _ _) hlist hroom (fun j hj => (Option.some.inj hj).symm) env'
    obtain ⟨hsize', -⟩ := Prod.mk.inj hsizes
    rw [sizesOf_update ha hsizes] at hapart
    refine ⟨(pool'.record i).freeNodeList, a', pool'.taken i list,
      a'.takenMemory m' (pool'.record i).freeNodeList, env', ?_, .arena list hfull hrequested,
      fun hnull => absurd hnull hlist, fun j hj hj' x hx hx' => ?_,
      fun hb => backless_taken (hbackless hb) (hinv.geometry.lt_capacity hlt) list, hsizes, ?_,
      fun _ => ?_⟩
    · simp only [hrun, Option.bind_eq_bind, Option.bind_some, if_true, hrun', hwalk,
        if_neg hlist, htake, reduceCtorEq, if_false]
    · -- the arena had no allocator before
      have hne : j ≠ i := by
        rintro rfl
        exact hj' (hfresh.free hj)
      rw [houtside x, hfresh.outside x]
      · rcases arenas_apart pool hne with h | h
        · exact .inl (by omega)
        · exact .inr (by omega)
      · rw [hfresh.places.arenaBase_eq, hfresh.places.2]
        rcases arenas_apart pool hne with h | h
        · exact .inl (by omega)
        · exact .inr (by omega)
    · rw [if_neg hlist]
      exact hinv'
    · rw [← hsize']
      exact ⟨hholds, hapart⟩

/-- **`allocate`** of a size that is not refused, where its condition holds: the block lies in an
arena of the allocator, and overlaps no live block. -/
theorem allocate_of_le (h : PoolInv pool m allocators live none) (ha : allocators self = some a)
    {size : UInt64} (hsize : size ≤ a.objectSize) (hcan : a.CanAllocate p self ⟨pool, m, env⟩) :
    ∃ block a' pool' m' env', a.allocate p self size ⟨pool, m, env⟩ =
        some (block, a', ⟨pool', m', env'⟩) ∧
      a.Allocates p self pool env block a' pool' env' ∧ (block = 0 → m' = m) ∧
      a'.sizes = a.sizes ∧
      PoolInv pool' m' (Function.update allocators self (some a'))
        (if block = 0 then live else Function.update live block (some self)) none ∧
      (block ≠ 0 → pool'.Holds self block a.objectSize.toNat ∧
        Apart (sizesOf allocators) live block a.objectSize.toNat) := by
  obtain ⟨hroom, hrequest⟩ := hcan
  rcases h.walk ha with ⟨i, hi, hself, hlist, hrun⟩ | ⟨hfull, hrun⟩
  · obtain ⟨list, hallocate, hinv, hholds, hapart⟩ :=
      h.allocate_node (p := p) ha hsize hi hself hlist hrun (hroom i hi hself hlist) env
    refine ⟨(pool.record i).freeNodeList, a, _, _, env, hallocate, .node list hi hself hlist,
      fun hnull => absurd hnull hlist, rfl, ?_, fun _ => ⟨hholds, hapart⟩⟩
    rw [← ha, Function.update_eq_self, if_neg hlist]
    exact hinv
  · obtain ⟨block, a', pool', m', env', hallocate, hallocates, hm, -, -, hrest⟩ :=
      h.allocate_request ha hsize hfull hrun (hrequest hfull)
    exact ⟨block, a', pool', m', env', hallocate, hallocates, hm, hrest⟩

/-- **`allocate`**, where its condition holds unless the size is refused. -/
theorem allocate (h : PoolInv pool m allocators live none) (ha : allocators self = some a)
    (size : UInt64) (hcan : size ≤ a.objectSize → a.CanAllocate p self ⟨pool, m, env⟩) :
    ∃ block a' pool' m' env', a.allocate p self size ⟨pool, m, env⟩ =
        some (block, a', ⟨pool', m', env'⟩) ∧
      PoolInv pool' m' (Function.update allocators self (some a'))
        (if block = 0 then live else Function.update live block (some self)) none ∧
      (block ≠ 0 → pool'.Holds self block a.objectSize.toNat ∧
        Apart (sizesOf allocators) live block a.objectSize.toNat) := by
  by_cases hsize : size ≤ a.objectSize
  · obtain ⟨block, a', pool', m', env', hrun, -, -, -, hinv, hblock⟩ :=
      h.allocate_of_le ha hsize (hcan hsize)
    exact ⟨block, a', pool', m', env', hrun, hinv, hblock⟩
  · unfold PoolAllocator.allocate
    rw [if_pos (UInt64.not_le.mp hsize)]
    refine ⟨0, a, pool, m, _, rfl, ?_, fun hne => absurd rfl hne⟩
    rw [← ha, Function.update_eq_self, if_pos rfl]
    exact h

/-! ## Giving an arena back -/

/-- **The lists after an arena is removed** that links back to the one before it, or is the head. -/
theorem lists_removed (h : PoolInv pool m allocators live none) (hi : i < pool.arenaCount.toNat)
    (ha : allocators self = some a) (hself : (pool.record i).allocator = self)
    (hfirst : (pool.record i).previous = none → a.arenaListHead = some i)
    (hback : ∀ q ∈ (pool.record i).previous,
      pool.link q = if a.arenaListHead = some i then pool.link i else some i) :
    Chains (pool.linkRemoved i)
      (Function.update (pool.heads allocators) self
        (some (if a.arenaListHead = some i then pool.link i else a.arenaListHead)))
      (Function.update pool.owner i none) := by
  have hhead := h.heads_eq ha
  have howner : pool.owner i = some self := owner_eq_some.mpr ⟨hi, hself⟩
  unfold linkRemoved
  by_cases heq : a.arenaListHead = some i
  · rw [if_pos heq]
    have hpop := h.lists.pop (hhead.trans (congrArg some heq))
    cases hprevious : (pool.record i).previous with
    | none => exact hpop
    | some q =>
      have hlink := hback q hprevious
      rw [if_pos heq] at hlink
      dsimp only
      rw [← hlink, Function.update_eq_self, hlink]
      exact hpop
  · rw [if_neg heq, ← hhead, Function.update_eq_self]
    cases hprevious : (pool.record i).previous with
    | none => exact absurd (hfirst hprevious) heq
    | some q =>
      have hlink := hback q hprevious
      rw [if_neg heq] at hlink
      have hq := h.ranged i q hprevious
      have hsame := (h.owner_link hq hlink).2
      exact h.lists.bypass howner hhead (owner_eq_some.mpr ⟨hq, hsame.symm.trans hself⟩) hlink

/-- The arena that a live block is in, and where it is there. -/
theorem exists_arena (h : PoolInv pool m allocators live none) (ha : allocators self = some a)
    (hlive : live block = some self) : ∃ i j, i < pool.arenaCount.toNat ∧
      OccupiedAt pool (sizesOf allocators) i block self ∧ pool.getArena block = some i ∧
        j + (pool.record i).freeNodeCount.toNat < a.objectCount.toNat ∧
          block.toNat = (pool.record i).base.toNat + j * a.objectSize.toNat := by
  have hsized := (h.regular self a ha).sized
  obtain ⟨i, hi, hat⟩ := (h.blocks.live block self).mp hlive
  obtain ⟨hself, hne, size, count, j, hsizes, hj, hblock⟩ := id hat
  rw [sizesOf_eq ha] at hsizes
  obtain ⟨rfl, rfl⟩ := Prod.mk.inj (Option.some.inj hsizes)
  have hwithin := h.blocks.within hi (hself ▸ hne) (hself ▸ sizesOf_eq ha) hj
  refine ⟨i, j, hi, hat, h.geometry.getArena_eq hi (by omega) (by omega), hj, ?_⟩
  rw [h.geometry.base i hi]
  exact hblock

/-- **`deallocate` of a block that is not the only live one of its arena** writes through a null
pointer. -/
theorem deallocate_eq_none (h : PoolInv pool m allocators live none)
    (ha : allocators self = some a) (hlive : live block = some self)
    (hmore : ∀ i ∈ pool.getArena block, (pool.record i).freeNodeCount + 1 ≠ a.objectCount)
    (env : π) : a.deallocate self block ⟨pool, m, env⟩ = none := by
  obtain ⟨i, j, hi, hat, hget, -, hblock⟩ := h.exists_arena ha hlive
  have hcapacity := h.geometry.lt_capacity hi
  have hnull : (block - (pool.record i).base) % a.objectSize = 0 := by
    rw [← UInt64.toNat_inj, UInt64.toNat_mod, UInt64.toNat_sub_of_le _ _
      (UInt64.le_iff_toNat_le.mpr (by omega)), hblock, Nat.add_sub_cancel_left, Nat.mul_mod_left,
      UInt64.toNat_zero]
  unfold PoolAllocator.deallocate
  rw [hget, Option.bind_eq_bind, Option.bind_some, getRecord_eq hcapacity, Option.bind_eq_bind,
    Option.bind_some]
  dsimp only
  rw [if_neg (not_not.mpr hat.1), modifyRecord_eq hcapacity, Option.bind_eq_bind, Option.bind_some,
    if_neg (hmore i hget), hnull]
  rfl

/-- **The arena is given back**: it is removed from its list, and put on the free list. -/
theorem returnArena (h : PoolInv pool m allocators live none) (hi : i < pool.arenaCount.toNat)
    (ha : allocators self = some a) (hself : (pool.record i).allocator = self)
    (hfirst : (pool.record i).previous = none → a.arenaListHead = some i)
    (hback : ∀ q ∈ (pool.record i).previous,
      pool.link q = if a.arenaListHead = some i then pool.link i else some i)
    (hlast : pool.nextFreeArena = none → pool.link i = none) :
    ∃ head pool₂, a.returnArena i (pool.set i (pool.record i).returned) =
        some ({ a with arenaListHead := head, arenaListTail := head }, pool₂.given i) ∧
      Relinked (pool.set i (pool.record i).returned) pool₂ ∧
      ((pool.record i).previous = none → pool.link i = none →
        pool₂ = pool.set i (pool.record i).returned) ∧
        Chains (pool₂.given i).link ((pool₂.given i).heads (Function.update allocators self
          (some { a with arenaListHead := head, arenaListTail := head })))
          (pool₂.given i).owner := by
  have hne := h.named self a ha
  have hcapacity := h.geometry.lt_capacity hi
  have hrecord := record_set_self hcapacity (pool.record i).returned
  have hlink : (pool.set i (pool.record i).returned).link = pool.link :=
    link_set_same (r := (pool.record i).returned) hcapacity rfl
  have howner : (pool.set i (pool.record i).returned).owner = pool.owner :=
    owner_set_same hcapacity rfl
  have hgeometry := h.geometry.set (r := (pool.record i).returned) hi rfl
  have hranged := h.ranged.set (r := (pool.record i).returned) hcapacity (h.ranged i)
  obtain ⟨pool₂, hremove, hrelinked, hlink₂, hsole⟩ := remove_eq hgeometry hranged hi fun k hk =>
    (h.owner_link hi (hlink ▸ hk)).1
  rw [hlink, hrecord] at hsole
  have hremoved : pool₂.link = pool.linkRemoved i := by
    rw [hlink₂]
    unfold linkRemoved
    rw [hlink, hrecord]
    rfl
  have hself₂ : pool₂.link i = pool.link i := by
    rw [hremoved, linkRemoved_self]
  have hfree₂ : pool₂.nextFreeArena = pool.nextFreeArena := hrelinked.nextFreeArena
  have hi₂ : i < pool₂.arenaCount.toNat := hrelinked.arenaCount ▸ hi
  have hcapacity₂ := (hrelinked.geometry hgeometry).lt_capacity hi₂
  refine ⟨if a.arenaListHead = some i then pool.link i else a.arenaListHead, pool₂, ?_, hrelinked,
    hsole, ?_⟩
  · have hnext : (pool₂.record i).next = pool.link i := hself₂
    have hgive := giveArena_given hcapacity₂ (by rw [hfree₂, hself₂]; exact hlast)
    unfold PoolAllocator.returnArena
    simp only [hremove, getRecord_eq hcapacity₂, hgive, hnext, (h.regular self a ha).tail,
      Option.bind_eq_bind, Option.bind_some]
  · have hlists := h.lists_removed hi ha hself hfirst hback
    have hnone : Function.update pool.owner i none i = none := Function.update_self i _ _
    have hzero : Function.update (pool.heads allocators) self (some
        (if a.arenaListHead = some i then pool.link i else a.arenaListHead)) 0 =
          some pool.nextFreeArena := Function.update_of_ne (Ne.symm hne) _ _
    have hpush := hlists.push hnone hzero
    rw [Function.update_idem] at hpush
    rw [link_given hcapacity₂, hremoved, hfree₂, owner_given hcapacity₂ hi₂, hrelinked.owner,
      howner, heads_free pool (pool₂.given i), heads_allocator hne]
    exact hpush

/-- **`deallocate`**, where its condition holds: the arena is given back. -/
theorem deallocate (h : PoolInv pool m allocators live none) (ha : allocators self = some a)
    (hlive : live block = some self) (hcan : a.CanDeallocate pool block) (env : π) :
    ∃ a' pool', a.deallocate self block ⟨pool, m, env⟩ = some (a', ⟨pool', m, env⟩) ∧
      a.Deallocates pool block a' pool' ∧
      PoolInv pool' m (Function.update allocators self (some a'))
        (Function.update live block none) none := by
  have hregular := h.regular self a ha
  obtain ⟨i, j, hi, hat, hget, hj, -⟩ := h.exists_arena ha hlive
  have hself := hat.1
  obtain ⟨hone, hfirst, hback, hlast⟩ := hcan i hget
  have hcapacity := h.geometry.lt_capacity hi
  obtain ⟨head, pool₂, hreturn, hrelinked, hsole, hlists⟩ :=
    h.returnArena hi ha hself hfirst hback hlast
  have hi₂ : i < pool₂.arenaCount.toNat := hrelinked.arenaCount ▸ hi
  have hgeometry₂ := hrelinked.geometry (h.geometry.set (r := (pool.record i).returned) hi rfl)
  have hcapacity₂ := hgeometry₂.lt_capacity hi₂
  have hranged₂ := hrelinked.ranged (h.ranged.set hcapacity (h.ranged i))
  have hplaces : SamePlaces pool (pool₂.given i) := by
    unfold given
    rw [hrelinked.records]
    exact ⟨rfl, rfl⟩
  have hsizes : sizesOf (Function.update allocators self
      (some { a with arenaListHead := head, arenaListTail := head })) = sizesOf allocators :=
    sizesOf_update ha rfl
  refine ⟨{ a with arenaListHead := head, arenaListTail := head }, pool₂.given i, ?_,
    .arena hget hi rfl hrelinked hsole, hgeometry₂.given hi₂, hranged₂.given hcapacity₂,
    h.named_update ha _, ?_, hlists, ?_⟩
  · have hcounted : pool.modifyRecord i (fun r => { r with freeNodeCount := r.freeNodeCount + 1 }) =
        some (pool.set i (pool.record i).returned) := modifyRecord_eq hcapacity _
    unfold PoolAllocator.deallocate
    rw [hget, Option.bind_eq_bind, Option.bind_some, getRecord_eq hcapacity, Option.bind_eq_bind,
      Option.bind_some]
    dsimp only
    rw [if_neg (not_not.mpr hself), hcounted, Option.bind_eq_bind, Option.bind_some, if_pos hone,
      hreturn]
    rfl
  · rw [hplaces.2]
    exact h.regular_update ⟨hregular.sized, hregular.counted, rfl⟩
  · rw [hsizes]
    refine h.blocks.release h.size_le hi hplaces hrelinked.arenaCount (fun k hk => ?_) hat ?_ ?_
    · have hsame := (sameArena_set hcapacity (pool.record i).returned hk).relinked hrelinked
      exact hsame.trans (sameArena_set hcapacity₂ (pool₂.givenRecord i) hk)
    · intro size count heq
      rw [sizesOf_eq ha] at heq
      obtain ⟨rfl, rfl⟩ := Prod.mk.inj (Option.some.inj heq)
      have hlt := a.objectCount.toNat_lt
      rw [← hone, UInt64.toNat_add, UInt64.toNat_one, Nat.mod_eq_of_lt (by omega)]
    · rw [record_given hcapacity₂, Function.update_self]
      rfl

/-- **A write in a live block** keeps everything. -/
theorem write (h : PoolInv pool m allocators live none) (hlive : live block = some self)
    (ha : allocators self = some a) {offset : Nat} {bytes : List UInt8}
    (hfits : offset + bytes.length ≤ a.objectSize.toNat) :
    PoolInv pool (m.write (block.toNat + offset) bytes) allocators live none := by
  refine ⟨h.geometry, h.ranged, h.named, h.regular, h.lists, ?_⟩
  refine h.blocks.write h.size_le hlive (sizesOf_eq ha) fun x hx => ?_
  exact Memory.write_apply_of_outside (by omega)

end PoolInv

end

end Hologine.Memory
