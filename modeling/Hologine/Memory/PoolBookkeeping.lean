import Hologine.Memory.PoolSafety
import Mathlib.Order.Interval.Set.Nat

/-!
# The books of pool allocators

What an allocator's list of arenas and their counts say, in runs of all the pool allocators of an
arena pool.

* `Booked` are the books of an allocator: its list has its arenas and ends at the tail, and the free
  nodes and the live blocks of an arena are as many as there are blocks. `KeepsBooks` says so of
  what a call leaves, and says when it gives an arena back.
* The tail is always the head, as it stays where it is when an arena is linked in. So the books are
  in order as long as no allocator has two arenas, which is what `Lone` says.
* `run_keepsBooks`: in every run whose calls meet their conditions the books are in order after
  each, and **only** in such runs if the objects have room for a free node and fit an arena.
* `not_keepsBooks`: a second arena puts the books out of order.
-/

namespace Hologine.Memory

open Hologine.Library Hologine.Library.Run MemoryArenaPool

variable {π : Type}

/-- An arena is on the free list of the pool. -/
def MemoryArenaPool.IsFree (pool : MemoryArenaPool) (i : Nat) : Prop :=
  ∃ free, Chain pool.link pool.nextFreeArena free ∧ i ∈ free

namespace PoolSystem

/-- The live blocks that an allocator has in an arena. -/
def liveIn (s : PoolSystem π) (self : UInt64) (i : Nat) : Set UInt64 :=
  {block | s.live block = some self ∧ s.arenas.pool.getArena block = some i}

/-- **The books of an allocator**: its list ends, has no arena twice and has just its arenas, the
tail is the last of them, and each has as many free nodes as it has blocks that are not live. -/
structure Booked (s : PoolSystem π) (allocator : UInt64) (a : PoolAllocator) : Prop where
  listed : ∃ arenas, Chain s.arenas.pool.link a.arenaListHead arenas ∧ arenas.Nodup ∧
    (∀ i, i ∈ arenas ↔ s.arenas.pool.owner i = some allocator) ∧
      a.arenaListTail = arenas.getLast?
  counted : ∀ i, s.arenas.pool.owner i = some allocator →
    (s.arenas.pool.record i).freeNodeCount.toNat + (s.liveIn allocator i).ncard =
      a.objectCount.toNat

/-- All books are in order. -/
def BooksInOrder (s : PoolSystem π) : Prop :=
  ∀ self a, s.allocators self = some a → s.Booked self a

/-- **What every call must do**: it is defined and leaves the books in order, and it gives an arena
back just if it deallocates the last live block of it. -/
def KeepsBooks (p : Platform π) (s : PoolSystem π) (call : PoolCall) : Prop :=
  ∃ result s', s.step p call = some (result, s') ∧ s'.BooksInOrder ∧
    ∀ self i, (s.allocators self).isSome → s.arenas.pool.owner i = some self →
      (s'.arenas.pool.IsFree i ↔
        ∃ block, call = .deallocate self block ∧ s.liveIn self i = {block})

end PoolSystem

/-! ## The condition -/

/-- An allocator can request an arena: it has none yet, the arena has no next one on the free list,
and there is room for a block, and for the next node if there is to be one. -/
def PoolAllocator.CanStart (a : PoolAllocator) (pool : MemoryArenaPool) : Prop :=
  a.arenaListTail = none ∧ pool.nextFreeArena.bind pool.link = none ∧
    a.objectSize.toNat ≤ pool.arenaSize.toNat ∧
      (1 < a.objectCount.toNat → 2 * a.objectSize.toNat ≤ pool.arenaSize.toNat)

instance (a : PoolAllocator) (pool : MemoryArenaPool) : Decidable (a.CanStart pool) :=
  inferInstanceAs (Decidable (_ ∧ _ ∧ _ ∧ (_ → _)))

/-- **The condition of `allocate`**: a free node of the allocator has room, and if there is none, no
arena is to be had or the allocator can request one. -/
def PoolAllocator.KeepsOne (p : Platform π) (a : PoolAllocator) (self : UInt64) (s : Arenas π) :
    Prop :=
  (∀ i < s.pool.arenaCount.toNat, (s.pool.record i).allocator = self →
      (s.pool.record i).freeNodeList ≠ 0 → a.HasRoom s.pool s.memory i) ∧
    ((∀ i < s.pool.arenaCount.toNat, (s.pool.record i).allocator = self →
        (s.pool.record i).freeNodeList = 0) →
      (nextArena p s.pool s.env).isSome → a.CanStart s.pool)

instance (p : Platform π) (a : PoolAllocator) (self : UInt64) (s : Arenas π) :
    Decidable (a.KeepsOne p self s) :=
  inferInstanceAs (Decidable ((∀ i < s.pool.arenaCount.toNat, _ → _ → a.HasRoom _ _ i) ∧
    ((∀ i < s.pool.arenaCount.toNat, _ → _) → _ → _)))

/-- **The condition**: of `allocate`, unless the size is refused; and `deallocate` must be of the
only live block of an arena. -/
def PoolSystem.KeepsOne (p : Platform π) (s : PoolSystem π) : PoolCall → Prop
  | .allocate self size =>
    ∀ a ∈ s.allocators self, size ≤ a.objectSize → a.KeepsOne p self s.arenas
  | .deallocate self block => ∀ a ∈ s.allocators self, ∀ i ∈ s.arenas.pool.getArena block,
    (s.arenas.pool.record i).freeNodeCount + 1 = a.objectCount
  | _ => True

instance (p : Platform π) (s : PoolSystem π) (call : PoolCall) : Decidable (s.KeepsOne p call) :=
  match call with
  | .allocate self size => inferInstanceAs (Decidable (∀ a ∈ s.allocators self,
      size ≤ a.objectSize → a.KeepsOne p self s.arenas))
  | .deallocate self block => inferInstanceAs (Decidable (∀ a ∈ s.allocators self,
      ∀ i ∈ s.arenas.pool.getArena block,
        (s.arenas.pool.record i).freeNodeCount + 1 = a.objectCount))
  | .reserve _ => isTrue trivial
  | .write _ _ _ => isTrue trivial

/-! ## The books under the invariant -/

namespace PoolInv

variable {pool : MemoryArenaPool} {m : Memory} {allocators : UInt64 → Option PoolAllocator}
  {live : UInt64 → Option UInt64} {fresh : Option Nat} {self : UInt64} {i : Nat}

/-- The free arenas are those without an allocator. -/
theorem isFree_iff (h : PoolInv pool m allocators live fresh) :
    pool.IsFree i ↔ pool.owner i = some 0 := by
  obtain ⟨free, hchain, hmem⟩ := h.lists.chain 0 pool.nextFreeArena (if_pos rfl)
  rw [← hmem]
  constructor
  · rintro ⟨free', hchain', hi⟩
    rwa [hchain.unique hchain']
  · exact fun hi => ⟨free, hchain, hi⟩

/-- An arena that an allocator has is not free. -/
theorem not_isFree (h : PoolInv pool m allocators live fresh) (hself : self ≠ 0)
    (hi : pool.owner i = some self) : ¬ pool.IsFree i := by
  rw [h.isFree_iff, hi, Option.some.injEq]
  exact hself

end PoolInv

namespace PoolSystem

variable {p : Platform π} {s s' : PoolSystem π} {self block : UInt64} {a : PoolAllocator} {i : Nat}

/-- The places of the live blocks of an arena that has so many. -/
theorem Inv.toNat_liveIn (h : s.Inv) (ha : s.allocators self = some a)
    (hi : s.arenas.pool.owner i = some self) {k : Nat}
    (hstate : ArenaState s.arenas.pool s.arenas.memory a.objectSize.toNat a.objectCount.toNat i k) :
    UInt64.toNat '' s.liveIn self i =
      (fun j => s.arenas.pool.arenaBase i + j * a.objectSize.toNat) '' Set.Iio k := by
  obtain ⟨hlt, hself⟩ := owner_eq_some.mp hi
  have hsized := (h.regular self a ha).sized
  have hcounted := hstate.counted
  ext x
  constructor
  · rintro ⟨block, ⟨hlive, hget⟩, rfl⟩
    obtain ⟨i', j, -, -, hget', hj, hblock⟩ := h.exists_arena ha hlive
    obtain rfl := Option.some.inj (hget.symm.trans hget')
    rw [h.geometry.base i hlt] at hblock
    exact ⟨j, Set.mem_Iio.mpr (by omega), hblock.symm⟩
  · rintro ⟨j, hj, rfl⟩
    have hend := h.geometry.arenaEnd_lt hlt
    have hfits := hstate.fits
    have hle : (j + 1) * a.objectSize.toNat ≤ k * a.objectSize.toNat :=
      Nat.mul_le_mul_right _ (Set.mem_Iio.mp hj)
    rw [Nat.succ_mul] at hle
    have hblock : (UInt64.ofNat (s.arenas.pool.arenaBase i + j * a.objectSize.toNat)).toNat =
        s.arenas.pool.arenaBase i + j * a.objectSize.toNat := by
      rw [UInt64.toNat_ofNat', Nat.mod_eq_of_lt (by omega)]
    refine ⟨_, ⟨(h.blocks.live _ self).mpr ⟨i, hlt, hself, h.named self a ha, _, _, j,
      sizesOf_eq ha, ?_, hblock⟩, h.geometry.getArena_eq hlt (by omega) (by omega)⟩, hblock⟩
    have := Set.mem_Iio.mp hj
    omega

/-- **The free nodes and the live blocks of an arena** are as many as there are blocks. -/
theorem Inv.counted (h : s.Inv) (ha : s.allocators self = some a)
    (hi : s.arenas.pool.owner i = some self) :
    (s.arenas.pool.record i).freeNodeCount.toNat + (s.liveIn self i).ncard =
      a.objectCount.toNat := by
  obtain ⟨hlt, hself⟩ := owner_eq_some.mp hi
  have hsized := (h.regular self a ha).sized
  obtain ⟨k, hstate, -⟩ := PoolInv.arenaState h hlt hself ha
  have hinjective : Function.Injective
      fun j => s.arenas.pool.arenaBase i + j * a.objectSize.toNat := by
    intro j j' heq
    exact Nat.eq_of_mul_eq_mul_right (by omega) (Nat.add_left_cancel heq)
  have hcard : (s.liveIn self i).ncard = k := by
    rw [← Set.ncard_image_of_injective _ (fun _ _ => UInt64.toNat_inj.mp),
      h.toNat_liveIn ha hi hstate, Set.ncard_image_of_injective _ hinjective, Set.ncard_Iio_nat]
  rw [hcard, Nat.add_comm]
  exact hstate.counted

end PoolSystem

/-! ## Lone arenas -/

namespace MemoryArenaPool

variable {pool pool' : MemoryArenaPool} {self list count : UInt64} {i : Nat}

/-- **No allocator has two arenas**, and no record links back to another. -/
structure Lone (pool : MemoryArenaPool) : Prop where
  sole : ∀ i j self, self ≠ 0 → pool.owner i = some self → pool.owner j = some self → i = j
  unlinked : ∀ i, (pool.record i).previous = none

/-- Arenas that have an allocator keep it. -/
def KeepsOwners (pool pool' : MemoryArenaPool) : Prop :=
  ∀ i self, self ≠ 0 → pool.owner i = some self → pool'.owner i = some self

/-- The owners when the pool grows: there may be another arena, which is free. -/
theorem owner_grown (hg : pool.Geometry) (h : Grown pool pool') (hself : self ≠ 0) (i : Nat) :
    pool'.owner i = some self ↔ pool.owner i = some self := by
  cases h with
  | region region => exact Iff.rfl
  | arena region hlt =>
    have hrecord := hg.record_withArena hlt region
    have hcount := toNat_arenaCount_withArena hlt region
    rw [owner_eq_some, owner_eq_some, hrecord, hcount]
    by_cases heq : i = pool.arenaCount.toNat
    · have hzero := hg.zero _ (Nat.le_refl _)
      rw [heq, Function.update_self, hzero]
      exact iff_of_false (fun h => hself h.2.symm) fun h => Nat.lt_irrefl _ h.1
    · rw [Function.update_of_ne heq]
      exact and_congr_left fun _ => ⟨fun h => by omega, fun h => by omega⟩

namespace Lone

/-- A record that links back to none may take the place of another. -/
theorem unlinked_update (h : pool.Lone) {record : ArenaRecord} (hnone : record.previous = none)
    (j : Nat) : (Function.update pool.record i record j).previous = none := by
  rw [Function.update_apply]
  split_ifs
  · exact hnone
  · exact h.unlinked j

theorem grown (h : pool.Lone) (hg : pool.Geometry) (hgrown : Grown pool pool') : pool'.Lone := by
  refine ⟨fun i j self hself hi hj => ?_, fun i => ?_⟩
  · rw [owner_grown hg hgrown hself] at hi hj
    exact h.sole i j self hself hi hj
  · cases hgrown with
    | region region => exact h.unlinked i
    | arena region hlt =>
      rw [hg.record_withArena hlt region]
      refine h.unlinked_update ?_ i
      exact h.unlinked _

theorem taken (h : pool.Lone) (hi : i < pool.capacity) (list : UInt64) :
    (pool.taken i list).Lone := by
  refine ⟨fun j j' self => ?_, fun j => ?_⟩
  · rw [owner_taken hi]
    exact h.sole j j' self
  · rw [record_taken hi]
    refine h.unlinked_update ?_ j
    exact h.unlinked i

/-- An allocator that has no arena gets one. -/
theorem requested (h : pool.Lone) (hcapacity : i < pool.capacity) (hi : i < pool.arenaCount.toNat)
    (hnone : ∀ j, pool.owner j ≠ some self) : (pool.requested i self count).Lone := by
  refine ⟨fun j j' other hother hj hj' => ?_, fun j => ?_⟩
  · rw [owner_requested hcapacity hi, Function.update_apply] at hj hj'
    split_ifs at hj hj' with heq heq' heq'
    · exact heq.trans heq'.symm
    · rw [← hj] at hj'
      exact absurd hj' (hnone j')
    · rw [← hj'] at hj
      exact absurd hj (hnone j)
    · exact h.sole j j' other hother hj hj'
  · rw [record_requested hcapacity]
    refine h.unlinked_update ?_ j
    exact h.unlinked i

/-- An allocator gives its arena back. -/
theorem given (h : pool.Lone) (hcapacity : i < pool.capacity) (hi : i < pool.arenaCount.toNat) :
    ((pool.set i (pool.record i).returned).given i).Lone ∧
      ((pool.set i (pool.record i).returned).given i).owner =
        Function.update pool.owner i (some 0) := by
  have hcapacity' : i < (pool.set i (pool.record i).returned).capacity :=
    Nat.lt_of_lt_of_eq hcapacity capacity_set.symm
  have howner : ((pool.set i (pool.record i).returned).given i).owner =
      Function.update pool.owner i (some 0) := by
    rw [owner_given hcapacity' hi]
    exact congrArg (Function.update · i (some 0))
      (owner_set_same (r := (pool.record i).returned) hcapacity rfl)
  refine ⟨⟨fun j j' self hself hj hj' => ?_, fun j => ?_⟩, howner⟩
  · rw [howner, Function.update_apply] at hj hj'
    split_ifs at hj hj'
    · exact absurd (Option.some.inj hj).symm hself
    · exact absurd (Option.some.inj hj).symm hself
    · exact absurd (Option.some.inj hj').symm hself
    · exact h.sole j j' self hself hj hj'
  · rw [record_given hcapacity']
    by_cases heq : j = i
    · rw [heq, Function.update_self]
      rfl
    · rw [Function.update_of_ne heq, record_set hcapacity, Function.update_of_ne heq]
      exact h.unlinked j

end Lone

end MemoryArenaPool

namespace PoolSystem

variable {p : Platform π} {s s' : PoolSystem π} {self block : UInt64} {a : PoolAllocator} {i : Nat}

/-- An allocator's list, as long as no allocator has two arenas: it is of no arena, or of one. -/
theorem Inv.list_of_lone (h : s.Inv) (hlone : s.arenas.pool.Lone)
    (ha : s.allocators self = some a) : ∃ arenas, Chain s.arenas.pool.link a.arenaListHead arenas ∧
      (∀ i, i ∈ arenas ↔ s.arenas.pool.owner i = some self) ∧
        arenas = a.arenaListHead.toList := by
  have hself := h.named self a ha
  obtain ⟨arenas, hchain, hmem⟩ := h.lists.chain self a.arenaListHead (h.heads_eq ha)
  refine ⟨arenas, hchain, hmem, ?_⟩
  have hnodup := hchain.nodup
  cases hfirst : a.arenaListHead with
  | none =>
    rw [hfirst] at hchain
    exact Chain.none_iff.mp hchain
  | some i =>
    rw [hfirst] at hchain
    obtain ⟨rest, rfl, -⟩ := Chain.some_iff.mp hchain
    cases rest with
    | nil => rfl
    | cons j rest =>
      -- two arenas would be the same
      have hi := (hmem i).mp List.mem_cons_self
      have hj := (hmem j).mp (List.mem_cons_of_mem i List.mem_cons_self)
      obtain rfl := hlone.sole i j self hself hi hj
      exact absurd List.mem_cons_self (List.nodup_cons.mp hnodup).1

/-- The one arena of an allocator is the head of its list, and has no next one. -/
theorem Inv.head_of_lone (h : s.Inv) (hlone : s.arenas.pool.Lone)
    (ha : s.allocators self = some a) (hi : s.arenas.pool.owner i = some self) :
    a.arenaListHead = some i ∧ s.arenas.pool.link i = none := by
  obtain ⟨arenas, hchain, hmem, rfl⟩ := h.list_of_lone hlone ha
  have hhead := Option.mem_toList.mp ((hmem i).mpr hi)
  refine ⟨hhead, ?_⟩
  rw [hhead] at hchain
  obtain ⟨rest, heq, hrest⟩ := Chain.some_iff.mp hchain
  obtain rfl : rest = [] := (List.cons.inj heq).2.symm
  cases hlink : s.arenas.pool.link i with
  | none => rfl
  | some j =>
    rw [hlink] at hrest
    cases hrest

/-- **The books are in order**, as long as no allocator has two arenas. -/
theorem Inv.booksInOrder (h : s.Inv) (hlone : s.arenas.pool.Lone) : s.BooksInOrder := by
  intro self a ha
  obtain ⟨arenas, hchain, hmem, harenas⟩ := h.list_of_lone hlone ha
  refine ⟨⟨arenas, hchain, hchain.nodup, hmem, ?_⟩, fun i hi => h.counted ha hi⟩
  rw [(h.regular self a ha).tail, harenas]
  cases a.arenaListHead with
  | none => rfl
  | some i => rfl

/-! ## The steps -/

variable {call : PoolCall} {a' : PoolAllocator} {pool' : MemoryArenaPool} {env' : π}
  {result size : UInt64}

/-- An allocator without a tail has no arena. -/
theorem Inv.owner_ne_of_tail (h : s.Inv) (hlone : s.arenas.pool.Lone)
    (ha : s.allocators self = some a) (htail : a.arenaListTail = none) (i : Nat) :
    s.arenas.pool.owner i ≠ some self := by
  intro hi
  have hhead := (h.head_of_lone hlone ha hi).1
  rw [← (h.regular self a ha).tail, htail] at hhead
  exact nomatch hhead

/-- The condition is the one under which allocators are safe, as long as none has two arenas. -/
theorem canAllocate_of_keepsOne (hkeeps : a.KeepsOne p self s.arenas) :
    a.CanAllocate p self s.arenas := by
  refine ⟨hkeeps.1, fun hfull i hi => ?_⟩
  obtain ⟨htail, hlast, hfit, hsplit⟩ := hkeeps.2 hfull (Option.isSome_iff_exists.mpr ⟨i, hi⟩)
  refine ⟨hfit, hsplit, fun _ => hlast, fun t ht => ?_⟩
  exact nomatch htail.symm.trans ht

theorem Inv.canDeallocate (h : s.Inv) (hlone : s.arenas.pool.Lone)
    (ha : s.allocators self = some a) (hlive : s.live block = some self)
    (hkeeps : s.KeepsOne p (.deallocate self block)) : a.CanDeallocate s.arenas.pool block := by
  intro i hi
  obtain ⟨i', -, hlt, hat, hget, -⟩ := h.exists_arena ha hlive
  obtain rfl := Option.some.inj (hget.symm.trans hi)
  obtain ⟨hhead, hlink⟩ := h.head_of_lone hlone ha (owner_eq_some.mpr ⟨hlt, hat.1⟩)
  refine ⟨hkeeps a ha _ hi, fun _ => hhead, fun q hq => ?_, fun _ => hlink⟩
  rw [hlone.unlinked] at hq
  exact nomatch hq

/-- The sizes are the same in two states. -/
def SameSizes (s s' : PoolSystem π) : Prop :=
  sizesOf s'.allocators = sizesOf s.allocators ∧
    s'.arenas.pool.arenaSize = s.arenas.pool.arenaSize

theorem arenaSize_of_allocates {pool : MemoryArenaPool} {env : π}
    (hallocates : a.Allocates p self pool env block a' pool' env') :
    pool'.arenaSize = pool.arenaSize := by
  cases hallocates with
  | node list _ _ _ => rfl
  | none _ hrequest =>
    cases hrequest with
    | none hgrown _ => exact hgrown.arenaSize
  | arena list _ hrequest =>
    cases hrequest with
    | arena hgrown _ _ hrelinked _ =>
      exact (congrArg MemoryArenaPool.arenaSize hrelinked.records).trans hgrown.arenaSize

/-- **What `allocate` keeps**: an allocator gets an arena only if it has none. -/
theorem Inv.lone_allocates (h : s.Inv) (hlone : s.arenas.pool.Lone)
    (ha : s.allocators self = some a) (hkeeps : a.KeepsOne p self s.arenas)
    (hallocates : a.Allocates p self s.arenas.pool s.arenas.env block a' pool' env') :
    pool'.Lone ∧ s.arenas.pool.KeepsOwners pool' := by
  have hself := h.named self a ha
  cases hallocates with
  | @node i list hi _ _ =>
    have hcapacity := h.geometry.lt_capacity hi
    refine ⟨hlone.taken hcapacity list, fun j other _ hj => ?_⟩
    rwa [owner_taken hcapacity]
  | none _ hrequest =>
    cases hrequest with
    | none hgrown _ =>
      exact ⟨hlone.grown h.geometry hgrown, fun j other hother hj =>
        (owner_grown h.geometry hgrown hother j).mpr hj⟩
  | @arena i _ _ _ list hfull hrequest =>
    cases hrequest with
    | @arena _ _ pool₁ _ _ hgrown hnext htake _ hfirst =>
      have hsome : (nextArena p s.arenas.pool s.arenas.env).isSome := by
        rw [nextArena, htake]
        rfl
      have htail := (hkeeps.2 hfull hsome).1
      obtain rfl := hfirst htail
      obtain ⟨hlt, hfree⟩ := (h.grown hgrown).free hnext
      have hcapacity := (h.grown hgrown).geometry.lt_capacity hlt
      have hnone : ∀ j, pool₁.owner j ≠ some self := fun j hj =>
        h.owner_ne_of_tail hlone ha htail j ((owner_grown h.geometry hgrown hself j).mp hj)
      have hcapacity' : i < (pool₁.requested i self a.objectCount).capacity :=
        Nat.lt_of_lt_of_eq hcapacity capacity_requested.symm
      refine ⟨((hlone.grown h.geometry hgrown).requested hcapacity hlt hnone).taken hcapacity'
        list, fun j other hother hj => ?_⟩
      have hj₁ := (owner_grown h.geometry hgrown hother j).mpr hj
      have hne : j ≠ i := by
        rintro rfl
        exact hother ((owner_eq_some.mp hj₁).2.symm.trans hfree)
      rw [owner_taken hcapacity', owner_requested hcapacity hlt, Function.update_of_ne hne]
      exact hj₁

/-- A call that gives no arena back, where the books are in order after it. -/
theorem keepsBooks_of_keepsOwners (h : s.Inv)
    (hstep : s.step p call = some (result, s')) (h' : s'.Inv) (hlone' : s'.arenas.pool.Lone)
    (hkeeps : s.arenas.pool.KeepsOwners s'.arenas.pool)
    (hcall : ∀ self block, call ≠ .deallocate self block) : s.KeepsBooks p call := by
  refine ⟨result, s', hstep, h'.booksInOrder hlone', fun self i hself hi => ?_⟩
  obtain ⟨a, ha⟩ := Option.isSome_iff_exists.mp hself
  have hne := h.named self a ha
  refine iff_of_false (h'.not_isFree hne (hkeeps i self hne hi)) ?_
  rintro ⟨block, heq, -⟩
  exact hcall self block heq

/-- **`deallocate`** of the last live block of an arena gives the arena back. -/
theorem Inv.keepsBooks_deallocate (h : s.Inv) (hlone : s.arenas.pool.Lone)
    (hlegal : s.Legal (.deallocate self block)) (hkeeps : s.KeepsOne p (.deallocate self block)) :
    ∃ s', s.step p (.deallocate self block) = some (0, s') ∧
      (s'.Inv ∧ s'.arenas.pool.Lone ∧ s.SameSizes s') ∧
        s.KeepsBooks p (.deallocate self block) := by
  obtain ⟨a, ha⟩ := h.exists_allocator hlegal
  obtain ⟨i, -, hlt, hat, hget, -⟩ := h.exists_arena ha hlegal
  have hi : s.arenas.pool.owner i = some self := owner_eq_some.mpr ⟨hlt, hat.1⟩
  obtain ⟨-, hlink⟩ := h.head_of_lone hlone ha hi
  have hone := hkeeps a ha i hget
  obtain ⟨a', pool', hrun, hdeallocates, h'⟩ :=
    h.deallocate ha hlegal (h.canDeallocate hlone ha hlegal hkeeps) s.arenas.env
  have hstep := step_deallocate (p := p) ha hrun
  cases hdeallocates with
  | @arena i' _ pool₂ hget' _ hsizes _ hsole =>
    obtain rfl := Option.some.inj (hget.symm.trans hget')
    obtain rfl := hsole (hlone.unlinked i) hlink
    obtain ⟨hlone', howner⟩ := hlone.given (h.geometry.lt_capacity hlt) hlt
    refine ⟨_, hstep, ⟨h', hlone', sizesOf_update ha hsizes, rfl⟩, 0, _, hstep,
      Inv.booksInOrder h' hlone', fun other j hother hj => ?_⟩
    obtain ⟨b, hb⟩ := Option.isSome_iff_exists.mp hother
    refine h'.isFree_iff.trans ?_
    show ((s.arenas.pool.set i (s.arenas.pool.record i).returned).given i).owner j = some 0 ↔ _
    rw [howner]
    by_cases heq : j = i
    · subst heq
      obtain rfl := Option.some.inj (hj.symm.trans hi)
      rw [Function.update_self]
      refine iff_of_true rfl ⟨block, rfl, ?_⟩
      -- it is the only live block there
      have hcounted := h.counted ha hi
      have hlt' := a.objectCount.toNat_lt
      rw [← hone, UInt64.toNat_add, UInt64.toNat_one, Nat.mod_eq_of_lt (by omega)] at hcounted
      obtain ⟨block', hblock'⟩ := Set.ncard_eq_one.mp (Nat.add_left_cancel hcounted)
      have hmem : block ∈ s.liveIn other j := ⟨hlegal, hget⟩
      rw [hblock'] at hmem ⊢
      rw [Set.mem_singleton_iff.mp hmem]
    · rw [Function.update_of_ne heq, hj, Option.some.injEq]
      refine iff_of_false (h.named other b hb) ?_
      rintro ⟨block', hcall, hblock'⟩
      obtain ⟨rfl, rfl⟩ := PoolCall.deallocate.inj hcall
      have hmem : block ∈ s.liveIn self j := by
        rw [hblock']
        exact rfl
      exact heq (Option.some.inj (hmem.2.symm.trans hget))

/-- **One call**, where its condition holds, leaves the books in order, and no allocator with two
arenas. -/
theorem keepsBooks_step (h : s.Inv) (hlone : s.arenas.pool.Lone) (hlegal : s.Legal call)
    (hkeeps : s.KeepsOne p call) : ∃ result s', s.step p call = some (result, s') ∧
      (s'.Inv ∧ s'.arenas.pool.Lone ∧ s.SameSizes s') ∧ s.KeepsBooks p call := by
  cases call with
  | reserve count =>
    obtain ⟨n, pool', env', hrun, h', hlone', howners, hsize⟩ := Geometry.reserve
      (P := fun pool => PoolInv pool s.arenas.memory s.allocators s.live none ∧ pool.Lone ∧
        s.arenas.pool.KeepsOwners pool ∧ pool.arenaSize = s.arenas.pool.arenaSize)
      (fun _ hP => hP.1.geometry)
      (fun pool _ hP hgrown => ⟨hP.1.grown hgrown, hP.2.1.grown hP.1.geometry hgrown,
        fun i self hself hi => (owner_grown hP.1.geometry hgrown hself i).mpr
          (hP.2.2.1 i self hself hi), hgrown.arenaSize.trans hP.2.2.2⟩)
      ⟨h, hlone, fun _ _ _ hi => hi, rfl⟩ p count s.arenas.env
    have hstep := step_reserve hrun
    exact ⟨0, _, hstep, ⟨h', hlone', rfl, hsize⟩,
      keepsBooks_of_keepsOwners h hstep h' hlone' howners (by simp)⟩
  | allocate self size =>
    obtain ⟨a, ha⟩ := Option.isSome_iff_exists.mp hlegal
    by_cases hsize : size ≤ a.objectSize
    · have hkeeps := hkeeps a ha hsize
      obtain ⟨block, a', pool', m', env', hrun, hallocates, -, hsizes, h', -⟩ :=
        h.allocate_of_le ha hsize (canAllocate_of_keepsOne hkeeps)
      obtain ⟨hlone', howners⟩ := h.lone_allocates hlone ha hkeeps hallocates
      have hstep := step_allocate ha hrun
      exact ⟨block, _, hstep, ⟨h', hlone', sizesOf_update ha hsizes,
        arenaSize_of_allocates hallocates⟩,
        keepsBooks_of_keepsOwners h hstep h' hlone' howners (by simp)⟩
    · have hstep : s.step p (.allocate self size) = some (0, { s with
          arenas := { s.arenas with env := p.pushException .invalidArgument s.arenas.env } }) := by
        have hrun : a.allocate p self size s.arenas = some (0, a, { s.arenas with
            env := p.pushException .invalidArgument s.arenas.env }) :=
          if_pos (UInt64.not_le.mp hsize)
        rw [step_allocate ha hrun, if_pos rfl, ← ha, Function.update_eq_self]
      exact ⟨0, _, hstep, ⟨h, hlone, rfl, rfl⟩,
        keepsBooks_of_keepsOwners h hstep h hlone (fun _ _ _ hi => hi) (by simp)⟩
  | deallocate self block =>
    obtain ⟨s', hstep, hkept, hbooks⟩ := h.keepsBooks_deallocate hlone hlegal hkeeps
    exact ⟨0, s', hstep, hkept, hbooks⟩
  | write block offset bytes =>
    obtain ⟨a, ha, hfits⟩ := hlegal
    obtain ⟨self, hlive, ha⟩ := Option.bind_eq_some_iff.mp ha
    have h' := h.write hlive ha hfits
    exact ⟨0, _, rfl, ⟨h', hlone, rfl, rfl⟩,
      keepsBooks_of_keepsOwners h rfl h' hlone (fun _ _ _ hi => hi) (by simp)⟩

end PoolSystem

/-! ## The condition is needed -/

/-- The objects of an allocator fit an arena, as many of them as it counts on. -/
def PoolAllocator.Fits (a : PoolAllocator) (pool : MemoryArenaPool) : Prop :=
  a.objectSize.toNat ≤ pool.arenaSize.toNat ∧
    a.objectCount.toNat * a.objectSize.toNat ≤ pool.arenaSize.toNat

namespace PoolInv

variable {pool : MemoryArenaPool} {m : Memory} {allocators : UInt64 → Option PoolAllocator}
  {live : UInt64 → Option UInt64} {self size : UInt64} {a : PoolAllocator} {i : Nat}

/-- An allocator without an arena gets one that is linked to another, and takes its first node. -/
theorem allocate_linked (h : PoolInv pool m allocators live none) (ha : allocators self = some a)
    (hfits : a.Fits pool) (htail : a.arenaListTail = none) (hi : pool.nextFreeArena = some i)
    (hsize : size ≤ a.objectSize) (p : Platform π) (env : π) :
    ∃ block list m', a.allocate p self size ⟨pool, m, env⟩ = some (block,
      { a with arenaListHead := some i, arenaListTail := some i },
        ⟨(pool.requested i self a.objectCount).taken i list, m', env⟩) := by
  obtain ⟨hlt, -⟩ := h.free hi
  have hregular := h.regular self a ha
  have hcapacity := h.geometry.lt_capacity hlt
  have hcapacity' : i < (pool.requested i self a.objectCount).capacity :=
    Nat.lt_of_lt_of_eq hcapacity capacity_requested.symm
  have hgeometry : (pool.requested i self a.objectCount).Geometry := h.geometry.requested hlt
  have hrecord : (pool.requested i self a.objectCount).record i =
      pool.requestedRecord i self a.objectCount := by
    rw [record_requested hcapacity, Function.update_self]
  -- the arena is taken
  have htake : pool.takeArena p env =
      some (some i, { pool with nextFreeArena := pool.link i }, env) := by
    simp only [MemoryArenaPool.takeArena, MemoryArenaPool.unlinkArena, hi, reduceCtorEq, if_false,
      getRecord_eq hcapacity, Option.bind_eq_bind, Option.bind_some]
    rfl
  have hlinked : a.linkArena i (pool.requested i self a.objectCount) =
      some ({ a with arenaListHead := some i, arenaListTail := some i },
        pool.requested i self a.objectCount) := by
    rw [PoolAllocator.linkArena, htail]
  have hrun := requestEmptyArena_eq h.geometry hlt htake hlinked m
  -- and its first node
  have hlist : ((pool.requested i self a.objectCount).record i).freeNodeList ≠ 0 := by
    rw [hrecord]
    exact fun hnull => h.geometry.toNat_base_ne hlt (congrArg UInt64.toNat hnull)
  have hstate : ArenaState (pool.requested i self a.objectCount)
      (spanMemory m (pool.record i).base a.objectCount) a.objectSize.toNat
        a.objectCount.toNat i 0 := by
    rw [show (pool.record i).base = ((pool.requested i self a.objectCount).record i).base by
      rw [hrecord]; rfl]
    exact ArenaState.spanned hgeometry hlt (by rw [hrecord]; rfl) (by rw [hrecord]; rfl)
      (hregular.counted hfits.1) hfits.1
  have hsplits : 0 + 1 < a.objectCount.toNat →
      (0 + 2) * a.objectSize.toNat ≤ pool.arenaSize.toNat :=
    fun hmore => Nat.le_trans (Nat.mul_le_mul_right _ hmore) hfits.2
  obtain ⟨list, htaken, -, -⟩ := ArenaState.takeNode
    (a := { a with arenaListHead := some i, arenaListTail := some i }) hstate hgeometry hlt
    hregular.sized (hregular.counted hfits.1) hsplits env
  generalize PoolAllocator.takenMemory _ _ _ = m' at htaken
  have hhead : a.arenaListHead = none := by
    rw [← hregular.tail, htail]
  have hwalk : PoolAllocator.getFirstFreeNode (PoolAllocator.steps pool) none pool =
      some (0, pool) := rfl
  have hwalk' := getFirstFreeNode_head hcapacity' hlist
  refine ⟨((pool.requested i self a.objectCount).record i).freeNodeList, list, m', ?_⟩
  unfold PoolAllocator.allocate
  rw [if_neg (UInt64.not_lt.mpr hsize), hhead]
  simp only [hwalk, Option.bind_eq_bind, Option.bind_some, if_true, hrun, hwalk', if_neg hlist,
    htaken, reduceCtorEq, if_false]
  rfl

end PoolInv

namespace PoolSystem

variable {p : Platform π} {s : PoolSystem π} {self size : UInt64} {a : PoolAllocator}
  {call : PoolCall}

/-- The objects of every allocator fit an arena. -/
def Fitting (s : PoolSystem π) : Prop :=
  ∀ self a, s.allocators self = some a → a.Fits s.arenas.pool

theorem Fitting.of_sameSizes {s' : PoolSystem π} (h : s.Fitting) (hsame : s.SameSizes s') :
    s'.Fitting := by
  intro self a' ha'
  have hsizes := congrFun hsame.1 self
  rw [sizesOf_eq ha'] at hsizes
  obtain ⟨a, ha, heq⟩ := Option.map_eq_some_iff.mp hsizes.symm
  obtain ⟨hsize, hcount⟩ := Prod.mk.inj heq
  unfold PoolAllocator.Fits
  rw [← hsize, ← hcount, hsame.2]
  exact h self a ha

/-- **A second arena puts the books out of order**: the tail stays at the first. -/
theorem Inv.tail_of_keepsBooks (h : s.Inv) (hlone : s.arenas.pool.Lone)
    (ha : s.allocators self = some a) (hfits : a.Fits s.arenas.pool) (hsize : size ≤ a.objectSize)
    (hfull : ∀ i < s.arenas.pool.arenaCount.toNat, (s.arenas.pool.record i).allocator = self →
      (s.arenas.pool.record i).freeNodeList = 0)
    (hnext : (nextArena p s.arenas.pool s.arenas.env).isSome)
    (hbooks : s.KeepsBooks p (.allocate self size)) : a.arenaListTail = none := by
  by_contra hsome
  obtain ⟨t, ht⟩ := Option.ne_none_iff_exists'.mp hsome
  have hself := h.named self a ha
  have hcan : a.CanAllocate p self s.arenas := by
    refine ⟨fun i hi hi' hlist => h.hasRoom hi hi' ha hlist hfits.2, fun _ i _ => ⟨hfits.1,
      fun htwo => Nat.le_trans (Nat.mul_le_mul_right _ htwo) hfits.2,
      fun hnone => absurd hnone hsome, fun t _ _ q hq => ?_⟩⟩
    rw [hlone.unlinked] at hq
    exact nomatch hq
  obtain ⟨block, a', pool', m', env', hrun, hallocates, -, -, h', -⟩ :=
    h.allocate_of_le ha hsize hcan
  obtain ⟨result, s', hstep, hinorder, -⟩ := hbooks
  obtain ⟨-, rfl⟩ := Prod.mk.inj (Option.some.inj ((step_allocate ha hrun).symm.trans hstep))
  have ha' : Function.update s.allocators self (some a') self = some a' :=
    Function.update_self self _ _
  obtain ⟨arenas, hchain, -, hmem, hlast⟩ := (hinorder self a' ha').listed
  rw [(h'.regular self a' ha').tail] at hlast
  cases hallocates with
  | node _ hi hi' hlist => exact hlist (hfull _ hi hi')
  | none _ hrequest =>
    cases hrequest with
    | none _ htake =>
      rw [nextArena, htake] at hnext
      exact nomatch hnext
  | @arena i _ pool₂ _ list _ hrequest =>
    cases hrequest with
    | @arena _ _ pool₁ _ _ hgrown hfree _ hrelinked _ =>
      obtain ⟨hlt, hnull⟩ := (h.grown hgrown).free hfree
      have hcapacity := (h.grown hgrown).geometry.lt_capacity hlt
      have hcapacity' : i < pool₂.capacity := by
        rw [hrelinked.capacity, capacity_requested]
        exact hcapacity
      have howner : (pool₂.taken i list).owner =
          Function.update pool₁.owner i (some self) := by
        rw [owner_taken hcapacity', hrelinked.owner, owner_requested hcapacity hlt]
      -- the allocator has the new arena and the one it had
      have hold₁ := (owner_grown h.geometry hgrown hself t).mpr (h.owner_tail ha ht)
      have hne : t ≠ i := by
        rintro rfl
        exact hself ((owner_eq_some.mp hold₁).2.symm.trans hnull)
      have ht' : t ∈ arenas := (hmem t).mpr (by
        show (pool₂.taken i list).owner t = some self
        rw [howner, Function.update_of_ne hne]
        exact hold₁)
      have hi' : i ∈ arenas := (hmem i).mpr (by
        show (pool₂.taken i list).owner i = some self
        rw [howner, Function.update_self])
      -- but the tail is the head of its list
      obtain rfl := hchain.eq_toList_of_getLast hlast
      exact hne (Option.some.inj
        ((Option.mem_toList.mp ht').symm.trans (Option.mem_toList.mp hi')))

/-- **An arena that is linked to another** puts the books out of order: the list runs on. -/
theorem Inv.link_of_keepsBooks (h : s.Inv) (ha : s.allocators self = some a)
    (hfits : a.Fits s.arenas.pool) (hsize : size ≤ a.objectSize) (htail : a.arenaListTail = none)
    (hbooks : s.KeepsBooks p (.allocate self size)) :
    s.arenas.pool.nextFreeArena.bind s.arenas.pool.link = none := by
  by_contra hsome
  obtain ⟨j, hj⟩ := Option.ne_none_iff_exists'.mp hsome
  obtain ⟨i, hi, hij⟩ := Option.bind_eq_some_iff.mp hj
  have hself := h.named self a ha
  obtain ⟨block, list, m', hrun⟩ := h.allocate_linked ha hfits htail hi hsize p s.arenas.env
  obtain ⟨result, s', hstep, hinorder, -⟩ := hbooks
  obtain ⟨-, rfl⟩ := Prod.mk.inj (Option.some.inj ((step_allocate ha hrun).symm.trans hstep))
  obtain ⟨arenas, hchain, -, hmem, -⟩ := (hinorder self _ (Function.update_self self _ _)).listed
  obtain ⟨hlt, hnull⟩ := h.free hi
  have hcapacity := h.geometry.lt_capacity hlt
  have hcapacity' : i < (s.arenas.pool.requested i self a.objectCount).capacity :=
    Nat.lt_of_lt_of_eq hcapacity capacity_requested.symm
  -- the next arena is free
  have hfree := h.lists.owner_next (owner_eq_some.mpr ⟨hlt, hnull⟩) hij
  have hne : j ≠ i := by
    obtain ⟨free, hfreeChain, -⟩ := h.lists.chain 0 s.arenas.pool.nextFreeArena (if_pos rfl)
    rw [hi] at hfreeChain
    have hnodup := hfreeChain.nodup
    obtain ⟨rest, rfl, hrest⟩ := Chain.some_iff.mp hfreeChain
    rw [hij] at hrest
    obtain ⟨_, rfl, -⟩ := Chain.some_iff.mp hrest
    rintro rfl
    exact (List.nodup_cons.mp hnodup).1 List.mem_cons_self
  -- and on the list
  have hlink : ((s.arenas.pool.requested i self a.objectCount).taken i list).link i = some j := by
    rw [link_taken hcapacity', link_requested hcapacity]
    exact hij
  have hmem' : j ∈ arenas := by
    obtain ⟨rest, rfl, -⟩ := Chain.some_iff.mp hchain
    exact hchain.mem_of_next List.mem_cons_self hlink
  have howner : ((s.arenas.pool.requested i self a.objectCount).taken i list).owner j =
      some self := (hmem j).mp hmem'
  rw [owner_taken hcapacity', owner_requested hcapacity hlt, Function.update_of_ne hne, hfree]
    at howner
  exact hself (Option.some.inj howner).symm

/-- **The condition is needed**, if the objects fit. -/
theorem keepsOne_of_keepsBooks (h : s.Inv) (hlone : s.arenas.pool.Lone) (hfits : s.Fitting)
    (hlegal : s.Legal call) (hbooks : s.KeepsBooks p call) : s.KeepsOne p call := by
  cases call with
  | reserve count => trivial
  | write block offset bytes => trivial
  | allocate self size =>
    intro a ha hsize
    have hfits := hfits self a ha
    refine ⟨fun i hi hi' hlist => h.hasRoom hi hi' ha hlist hfits.2, fun hfull hnext => ?_⟩
    have htail := h.tail_of_keepsBooks hlone ha hfits hsize hfull hnext hbooks
    exact ⟨htail, h.link_of_keepsBooks ha hfits hsize htail hbooks, hfits.1,
      fun htwo => Nat.le_trans (Nat.mul_le_mul_right _ htwo) hfits.2⟩
  | deallocate self block =>
    intro a ha i hi
    obtain ⟨result, s', hstep, -⟩ := hbooks
    exact h.lone_of_defined ha hlegal hi hstep

/-! ## Runs -/

variable {arenaSizeHint arenaCountHint : UInt64} {sizes : UInt64 → Option UInt64} {env : π}

/-- New allocators on a pool without an arena have none, and their objects fit if their sizes do. -/
theorem lone_new {pool : MemoryArenaPool} (hg : pool.Geometry) (hempty : pool.arenaCount = 0) :
    pool.Lone := by
  have hnone : ∀ i self, pool.owner i ≠ some self := by
    intro i self hi
    have hlt := (owner_eq_some.mp hi).1
    rw [hempty] at hlt
    exact Nat.not_lt_zero i hlt
  refine ⟨fun i _ self _ hi => absurd hi (hnone i self), fun i => ?_⟩
  rw [hg.zero i (by rw [hempty]; exact Nat.zero_le i)]
  rfl

theorem fits_create {pool : MemoryArenaPool} (hle : freeNodeSize ≤ size)
    (hsize : size ≤ pool.arenaSize) : (PoolAllocator.create pool size).Fits pool := by
  have hle := UInt64.le_iff_toNat_le.mp hle
  have hsize := UInt64.le_iff_toNat_le.mp hsize
  have hobject : (PoolAllocator.create pool size).objectSize.toNat = size.toNat := by
    show (max size freeNodeSize).toNat = _
    rw [Bits.toNat_max]
    exact Nat.max_eq_left hle
  have hcount : (PoolAllocator.create pool size).objectCount.toNat =
      pool.arenaSize.toNat / size.toNat := UInt64.toNat_div _ _
  unfold PoolAllocator.Fits
  rw [hobject, hcount]
  exact ⟨hsize, Nat.div_mul_le_self _ _⟩

/-- **In every run whose calls meet their conditions the books are in order**, from the first state
on, and an arena is given back just when its last live block is deallocated. The conditions are met
in every run in which it is so, if the objects have room for a free node and fit an arena. -/
theorem run_keepsBooks (hplaced : Placed p arenaSizeHint arenaCountHint env)
    (hsizes : ∀ self size, sizes self = some size → self ≠ 0 ∧ size ≠ 0) (m : Memory)
    (calls : List PoolCall)
    (hlegal : Along (step p) Legal (start p arenaSizeHint arenaCountHint sizes m env) calls) :
    (start p arenaSizeHint arenaCountHint sizes m env).BooksInOrder ∧
    (Along (step p) (KeepsOne p) (start p arenaSizeHint arenaCountHint sizes m env) calls →
      Along (step p) (KeepsBooks p) (start p arenaSizeHint arenaCountHint sizes m env) calls) ∧
    ((∀ self size, sizes self = some size → freeNodeSize ≤ size ∧ size ≤ arenaSizeHint) →
      Along (step p) (KeepsBooks p) (start p arenaSizeHint arenaCountHint sizes m env) calls →
        Along (step p) (KeepsOne p) (start p arenaSizeHint arenaCountHint sizes m env) calls) := by
  have h : (start p arenaSizeHint arenaCountHint sizes m env).Inv := inv_start hplaced hsizes m
  have hempty := (empty_create (p := p) arenaSizeHint arenaCountHint env).1
  have harena := (hints_create (p := p) arenaSizeHint arenaCountHint env).1
  rw [start_eq] at h hlegal ⊢
  clear hplaced
  generalize create p arenaSizeHint arenaCountHint env = created at *
  obtain ⟨pool, env⟩ := created
  have hlone := lone_new h.geometry hempty
  refine ⟨h.booksInOrder hlone, fun hkeeps => ?_, fun hfit hbooks => ?_⟩
  · refine Along.of_defined (fun s => s.Inv ∧ s.arenas.pool.Lone) (fun s call h hcall => ?_)
      ⟨h, hlone⟩ (hlegal.and hkeeps)
    obtain ⟨result, s', hstep, ⟨h', hlone', -⟩, hbooks⟩ :=
      keepsBooks_step h.1 h.2 hcall.1 hcall.2
    exact ⟨result, s', hstep, ⟨h', hlone'⟩, hbooks⟩
  · have hfits : PoolSystem.Fitting ⟨⟨pool, m, env⟩,
        fun self => (sizes self).map (PoolAllocator.create pool), fun _ => none⟩ := by
      intro self a ha
      obtain ⟨size, hsize, rfl⟩ := Option.map_eq_some_iff.mp ha
      obtain ⟨hle, hsize⟩ := hfit self size hsize
      rw [← harena] at hsize
      exact fits_create hle hsize
    refine (along_congr (fun s => s.Inv ∧ s.arenas.pool.Lone ∧ s.Fitting)
      (fun s call h hlegal => ⟨fun hbooks => keepsOne_of_keepsBooks h.1 h.2.1 h.2.2 hlegal hbooks,
        fun hkeeps => ?_⟩) (fun s call result s' h hlegal hkeeps hstep => ?_)
      ⟨h, hlone, hfits⟩ hlegal).mp hbooks
    · obtain ⟨_, _, _, _, hbooks⟩ := keepsBooks_step h.1 h.2.1 hlegal hkeeps
      exact hbooks
    · obtain ⟨_, s'', hstep', ⟨h', hlone', hsame⟩, -⟩ := keepsBooks_step h.1 h.2.1 hlegal hkeeps
      obtain ⟨-, rfl⟩ := Prod.mk.inj (Option.some.inj (hstep'.symm.trans hstep))
      exact ⟨h', hlone', h.2.2.of_sameSizes hsame⟩

/-- Two allocators have an arena each, and one of them gives it back and gets it again. -/
theorem run_keepsBooks_two_allocators :
    Along (step Platform.granting) (KeepsBooks Platform.granting)
      (start Platform.granting 256 2
        (fun self => if self = 1 then some 64 else if self = 2 then some 32 else none)
        (fun _ => 0) ())
      [.reserve 1, .allocate 1 64, .write 0x20000 8 [1, 2, 3], .allocate 2 32, .allocate 1 64,
        .deallocate 2 0x20100, .allocate 2 32] := by
  exact (run_keepsBooks ⟨by decide, by decide, by decide, by decide⟩
    (fun _ _ => ne_zero_of_two (by decide) (by decide)) _ _ (by decide)).2.1 (by decide)

/-- **The tail is not the last arena** after an allocator with one block an arena has two blocks. -/
theorem not_keepsBooks : ¬ ∀ calls : List PoolCall,
    Along (step Platform.granting) Legal
      (start Platform.granting 64 2 (Function.update (fun _ => none) 1 (some 64)) (fun _ => 0) ())
      calls →
    Along (step Platform.granting) (KeepsBooks Platform.granting)
      (start Platform.granting 64 2 (Function.update (fun _ => none) 1 (some 64)) (fun _ => 0) ())
      calls := by
  intro hall
  have hbooks := along_iff_reached.mp (hall [.allocate 1 64, .allocate 1 64] (by decide))
    [.allocate 1 64] (.allocate 1 64) [] rfl
  -- the list is of both arenas, and its tail is the first
  have hlast : (exec (step Platform.granting) (start Platform.granting 64 2
      (Function.update (fun _ => none) 1 (some 64)) (fun _ => 0) ()) [.allocate 1 64]).map (fun r =>
        (r.2.step Platform.granting (.allocate 1 64)).map fun r =>
          ((r.2.allocators 1).map fun a => (a.arenaListHead, a.arenaListTail),
            r.2.arenas.pool.link 0, r.2.arenas.pool.link 1)) =
      some (some (some (some 0, some 0), some 1, none)) := by decide
  obtain ⟨⟨outputs, s⟩, hrun, heq⟩ := Option.map_eq_some_iff.mp hlast
  obtain ⟨⟨block, s'⟩, hstep, heq⟩ := Option.map_eq_some_iff.mp heq
  obtain ⟨ha, hlinks⟩ := Prod.mk.inj heq
  obtain ⟨hlink, hlink'⟩ := Prod.mk.inj hlinks
  obtain ⟨a, ha, hends⟩ := Option.map_eq_some_iff.mp ha
  obtain ⟨hhead, htail⟩ := Prod.mk.inj hends
  obtain ⟨result, s'', hstep', hinorder, -⟩ := hbooks outputs s hrun
  obtain ⟨-, rfl⟩ := Prod.mk.inj (Option.some.inj (hstep.symm.trans hstep'))
  obtain ⟨arenas, hchain, -, -, hlast⟩ := (hinorder 1 a ha).listed
  have hboth : Chain s'.arenas.pool.link (some 0) [0, 1] :=
    .cons (hlink ▸ .cons (hlink' ▸ .nil))
  rw [hhead] at hchain
  rw [htail, hchain.unique hboth] at hlast
  exact nomatch hlast

end PoolSystem

end Hologine.Memory
