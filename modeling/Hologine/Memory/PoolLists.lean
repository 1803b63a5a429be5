import Hologine.Library.Chains
import Hologine.Memory.ArenaRecords
import Hologine.Memory.PoolAllocator

/-!
# The lists of arenas

The lists that the records of an arena pool are in, as a family of chains: the free list, and the
list of each allocator.

* `remove_eq`, `insertAfter_eq`: what the operations on intrusive lists do to the links of the
  records, `insertAfter_eq` of a position that has a next record or links back to nothing else.
* `getFirstFreeNode_eq`: a walk along a list that ends finds a node, if there is one.
-/

namespace Hologine.Memory

open Hologine.Library Hologine.Container

namespace MemoryArenaPool

variable {pool pool' pool₁ pool₂ : MemoryArenaPool} {i j : Nat} {r : ArenaRecord}
  {allocators : UInt64 → Option PoolAllocator}

/-! ## Heads and owners -/

/-- An arena that is allocated is owned by its allocator, which is null if it is free. -/
def owner (pool : MemoryArenaPool) (i : Nat) : Option UInt64 :=
  if i < pool.arenaCount.toNat then some (pool.record i).allocator else none

/-- The heads of the lists of arenas: of the free list, for null, and of the allocators. -/
def heads (pool : MemoryArenaPool) (allocators : UInt64 → Option PoolAllocator) (self : UInt64) :
    Option (Option Nat) :=
  if self = 0 then some pool.nextFreeArena else (allocators self).map PoolAllocator.arenaListHead

/-- No record links back to one that is not allocated. -/
def Ranged (pool : MemoryArenaPool) : Prop :=
  ∀ i q, (pool.record i).previous = some q → q < pool.arenaCount.toNat

theorem owner_eq_some {self : UInt64} :
    pool.owner i = some self ↔ i < pool.arenaCount.toNat ∧ (pool.record i).allocator = self := by
  unfold owner
  split_ifs with hi
  · rw [Option.some.injEq]
    exact (and_iff_right hi).symm
  · exact iff_of_false nofun fun h => hi h.1

theorem link_set (hi : i < pool.capacity) :
    (pool.set i r).link = Function.update pool.link i r.next := by
  funext j
  rw [link, record_set hi]
  by_cases heq : j = i
  · subst heq
    rw [Function.update_self, Function.update_self]
  · rw [Function.update_of_ne heq, Function.update_of_ne heq]
    rfl

theorem owner_set (hi : i < pool.capacity) (hcount : i < pool.arenaCount.toNat) :
    (pool.set i r).owner = Function.update pool.owner i (some r.allocator) := by
  funext j
  rw [owner, record_set hi]
  by_cases heq : j = i
  · subst heq
    rw [Function.update_self, Function.update_self]
    exact if_pos hcount
  · rw [Function.update_of_ne heq, Function.update_of_ne heq]
    rfl

/-- A record is assigned that keeps its link. -/
theorem link_set_same (hi : i < pool.capacity) (hr : r.next = (pool.record i).next) :
    (pool.set i r).link = pool.link := by
  rw [link_set hi, hr]
  exact Function.update_eq_self i pool.link

/-- A record is assigned that keeps its owner. -/
theorem owner_set_same (hi : i < pool.capacity) (hr : r.allocator = (pool.record i).allocator) :
    (pool.set i r).owner = pool.owner := by
  funext j
  rw [owner, record_set hi, owner]
  by_cases heq : j = i
  · rw [heq, Function.update_self, hr]
    rfl
  · rw [Function.update_of_ne heq]
    rfl

/-- A record is assigned that links back to an allocated one, or to none. -/
theorem Ranged.set (h : pool.Ranged) (hi : i < pool.capacity)
    (hr : ∀ q, r.previous = some q → q < pool.arenaCount.toNat) : (pool.set i r).Ranged := by
  intro j q hq
  rw [record_set hi] at hq
  by_cases heq : j = i
  · rw [heq, Function.update_self] at hq
    exact hr q hq
  · rw [Function.update_of_ne heq] at hq
    exact h j q hq

/-- Pools differ in the head of the free list only. -/
theorem heads_free (pool pool' : MemoryArenaPool) (allocators : UInt64 → Option PoolAllocator) :
    pool'.heads allocators =
      Function.update (pool.heads allocators) 0 (some pool'.nextFreeArena) := by
  funext self
  unfold heads
  by_cases hself : self = 0
  · rw [hself, if_pos rfl, Function.update_self]
  · rw [if_neg hself, Function.update_of_ne hself, if_neg hself]

theorem heads_allocator {self : UInt64} (hself : self ≠ 0) (a : PoolAllocator) :
    pool.heads (Function.update allocators self (some a)) =
      Function.update (pool.heads allocators) self (some a.arenaListHead) := by
  funext other
  unfold heads
  by_cases heq : other = self
  · rw [heq, if_neg hself, Function.update_self, Function.update_self, Option.map_some]
  · rw [Function.update_of_ne heq, Function.update_of_ne heq]

/-! ## Links -/

/-- Pools differ in the links of their allocated records only. -/
structure Relinked (pool pool' : MemoryArenaPool) : Prop where
  records : pool' = { pool with records := pool'.records }
  capacity : pool'.capacity = pool.capacity
  record : ∀ i, pool'.record i = { pool.record i with
    next := (pool'.record i).next
    previous := (pool'.record i).previous }
  rest : ∀ i, pool.arenaCount.toNat ≤ i → pool'.record i = pool.record i
  ranged : pool.Ranged → pool'.Ranged

namespace Relinked

theorem arenaCount (h : Relinked pool pool') : pool'.arenaCount = pool.arenaCount :=
  (congrArg MemoryArenaPool.arenaCount h.records :)

theorem nextFreeArena (h : Relinked pool pool') : pool'.nextFreeArena = pool.nextFreeArena :=
  (congrArg MemoryArenaPool.nextFreeArena h.records :)

theorem base (h : Relinked pool pool') (i : Nat) : (pool'.record i).base = (pool.record i).base :=
  (congrArg ArenaRecord.base (h.record i) :)

theorem allocator (h : Relinked pool pool') (i : Nat) :
    (pool'.record i).allocator = (pool.record i).allocator :=
  (congrArg ArenaRecord.allocator (h.record i) :)

theorem freeNodeCount (h : Relinked pool pool') (i : Nat) :
    (pool'.record i).freeNodeCount = (pool.record i).freeNodeCount :=
  (congrArg ArenaRecord.freeNodeCount (h.record i) :)

theorem freeNodeList (h : Relinked pool pool') (i : Nat) :
    (pool'.record i).freeNodeList = (pool.record i).freeNodeList :=
  (congrArg ArenaRecord.freeNodeList (h.record i) :)

theorem refl (pool : MemoryArenaPool) : Relinked pool pool :=
  ⟨rfl, rfl, fun _ => rfl, fun _ _ => rfl, id⟩

theorem trans (h : Relinked pool pool₁) (h' : Relinked pool₁ pool₂) : Relinked pool pool₂ := by
  refine ⟨?_, h'.capacity.trans h.capacity, fun i => ?_, fun i hi => ?_, h'.ranged ∘ h.ranged⟩
  · rw [h'.records, h.records]
  · rw [h'.record, h.record]
  · rw [h'.rest i (h.arenaCount ▸ hi), h.rest i hi]

theorem owner (h : Relinked pool pool') : pool'.owner = pool.owner := by
  funext i
  rw [MemoryArenaPool.owner, h.arenaCount, h.allocator, MemoryArenaPool.owner]

theorem heads (h : Relinked pool pool') : pool'.heads allocators = pool.heads allocators := by
  funext self
  rw [MemoryArenaPool.heads, h.nextFreeArena, MemoryArenaPool.heads]

theorem geometry (h : Relinked pool pool') (hg : pool.Geometry) : pool'.Geometry := by
  have hbase : ∀ i, pool'.arenaBase i = pool.arenaBase i := by
    intro i
    rw [h.records]
    rfl
  have hreserved : pool'.arenaReserved = pool.arenaReserved :=
    (congrArg MemoryArenaPool.arenaReserved h.records :)
  constructor
  · rw [h.records]
    exact hg.positive
  · rw [hbase, hreserved]
    exact hg.span
  · rw [h.arenaCount, hreserved]
    exact hg.count_le
  · rw [hreserved, h.capacity]
    exact hg.tabled
  · intro i hi
    rw [hbase, h.base]
    exact hg.base i (h.arenaCount ▸ hi)
  · intro i hi
    rw [h.arenaCount] at hi
    rw [h.rest i hi]
    exact hg.zero i hi

end Relinked

/-- A record with other links. -/
theorem relinked_set (hi : i < pool.arenaCount.toNat) (hcapacity : i < pool.capacity)
    (hr : r = { pool.record i with next := r.next, previous := r.previous })
    (hprevious : ∀ q, r.previous = some q → pool.Ranged → q < pool.arenaCount.toNat) :
    Relinked pool (pool.set i r) := by
  refine ⟨rfl, capacity_set, fun j => ?_, fun j hj => ?_,
    fun hranged => hranged.set hcapacity fun q hq => hprevious q hq hranged⟩
  · rw [record_set hcapacity]
    by_cases heq : j = i
    · subst heq
      rw [Function.update_self]
      exact hr
    · rw [Function.update_of_ne heq]
  · rw [record_set hcapacity, Function.update_of_ne (Nat.ne_of_gt (Nat.lt_of_lt_of_le hi hj))]

/-- The pool with another `next` of a record. -/
def withNext (pool : MemoryArenaPool) (i : Nat) (next : Option Nat) : MemoryArenaPool :=
  pool.set i { pool.record i with next := next }

/-- The pool with another `previous` of a record. -/
def withPrevious (pool : MemoryArenaPool) (i : Nat) (previous : Option Nat) : MemoryArenaPool :=
  pool.set i { pool.record i with previous := previous }

section Links

variable {next previous : Option Nat}

theorem relinked_withNext (hi : i < pool.arenaCount.toNat) (hcapacity : i < pool.capacity)
    (next : Option Nat) : Relinked pool (pool.withNext i next) :=
  relinked_set hi hcapacity rfl fun q hq hranged => hranged i q hq

theorem relinked_withPrevious (hi : i < pool.arenaCount.toNat) (hcapacity : i < pool.capacity)
    (hprevious : ∀ q, previous = some q → pool.Ranged → q < pool.arenaCount.toNat) :
    Relinked pool (pool.withPrevious i previous) :=
  relinked_set hi hcapacity rfl hprevious

theorem link_withNext (hi : i < pool.capacity) :
    (pool.withNext i next).link = Function.update pool.link i next := link_set hi

theorem link_withPrevious (hi : i < pool.capacity) :
    (pool.withPrevious i previous).link = pool.link := by
  rw [withPrevious, link_set hi]
  exact Function.update_eq_self i pool.link

theorem record_withPrevious (hi : i < pool.capacity) :
    (pool.withPrevious i previous).record i = { pool.record i with previous := previous } :=
  record_set_self hi _

theorem previous_withNext (hi : i < pool.capacity) (j : Nat) :
    ((pool.withNext i next).record j).previous = (pool.record j).previous := by
  rw [withNext, record_set hi]
  by_cases heq : j = i
  · rw [heq, Function.update_self]
  · rw [Function.update_of_ne heq]

theorem previous_withPrevious_of_ne {j : Nat} (hi : i < pool.capacity) (hj : j ≠ i) :
    ((pool.withPrevious i previous).record j).previous = (pool.record j).previous := by
  rw [withPrevious, record_set hi, Function.update_of_ne hj]

theorem setNext_eq (hi : i < pool.capacity) :
    arenaLinks.setNext i next pool = some (pool.withNext i next) := modifyRecord_eq hi _

theorem setPrevious_eq (hi : i < pool.capacity) :
    arenaLinks.setPrevious i previous pool = some (pool.withPrevious i previous) :=
  modifyRecord_eq hi _

theorem next_eq (hi : i < pool.capacity) : arenaLinks.next pool i = some (pool.link i) := by
  show (pool.getRecord i).map ArenaRecord.next = _
  rw [getRecord_eq hi]
  rfl

theorem previous_eq (hi : i < pool.capacity) :
    arenaLinks.previous pool i = some (pool.record i).previous := by
  show (pool.getRecord i).map ArenaRecord.previous = _
  rw [getRecord_eq hi]
  rfl

end Links

/-- The `next` of each record after a record is removed from its list. -/
def linkRemoved (pool : MemoryArenaPool) (i : Nat) : Nat → Option Nat :=
  match (pool.record i).previous with
  | some q => Function.update pool.link q (pool.link i)
  | none => pool.link

/-- A record that is removed keeps its own link. -/
theorem linkRemoved_self (pool : MemoryArenaPool) (i : Nat) :
    pool.linkRemoved i i = pool.link i := by
  unfold linkRemoved
  cases (pool.record i).previous with
  | none => rfl
  | some q =>
    by_cases heq : i = q
    · subst heq
      exact Function.update_self i _ _
    · exact Function.update_of_ne heq _ _

/-- **`remove`** on the records. -/
theorem remove_eq (hg : pool.Geometry) (hranged : pool.Ranged) (hi : i < pool.arenaCount.toNat)
    (hnext : ∀ j, pool.link i = some j → j < pool.arenaCount.toNat) :
    ∃ pool', IntrusiveList.remove arenaLinks i pool = some pool' ∧ Relinked pool pool' ∧
      pool'.link = pool.linkRemoved i ∧
        ((pool.record i).previous = none → pool.link i = none → pool' = pool) := by
  have hfirst : ∃ pool₁, arenaLinks.assignNext (pool.record i).previous (pool.link i) pool =
      some pool₁ ∧ Relinked pool pool₁ ∧ pool₁.link = pool.linkRemoved i ∧
        ((pool.record i).previous = none → pool₁ = pool) := by
    unfold linkRemoved
    cases hprevious : (pool.record i).previous with
    | none => exact ⟨pool, rfl, .refl pool, rfl, fun _ => rfl⟩
    | some q =>
      have hq := hranged i q hprevious
      have hcapacity := hg.lt_capacity hq
      exact ⟨_, setNext_eq hcapacity, relinked_withNext hq hcapacity _, link_withNext hcapacity,
        nofun⟩
  obtain ⟨pool₁, hrun, hrelinked, hlink, hsame⟩ := hfirst
  have hcapacity := hg.lt_capacity hi
  unfold IntrusiveList.remove
  rw [previous_eq hcapacity, next_eq hcapacity]
  simp only [Option.bind_eq_bind, Option.bind_some]
  rw [hrun, Option.bind_some]
  cases hj : pool.link i with
  | none => exact ⟨pool₁, rfl, hrelinked, hlink, fun hprevious _ => hsame hprevious⟩
  | some j =>
    have hj' : j < pool₁.arenaCount.toNat := hrelinked.arenaCount ▸ hnext j hj
    have hcapacity' := (hrelinked.geometry hg).lt_capacity hj'
    refine ⟨_, setPrevious_eq hcapacity', hrelinked.trans ?_, ?_, nofun⟩
    · refine relinked_withPrevious hj' hcapacity' fun q hq _ => ?_
      rw [hrelinked.arenaCount]
      exact hranged i q hq
    · rw [link_withPrevious hcapacity']
      exact hlink

/-- The start of `insert_after`: the position then links back to the record inserted, or to
nothing. -/
theorem insertAfter_back {position : Nat} (hg : pool.Geometry) (hi : i < pool.arenaCount.toNat)
    (hposition : position < pool.arenaCount.toNat)
    (hback : pool.link position = none → ∀ q, (pool.record position).previous = some q → q = i) :
    ∃ pool', (if (pool.link position).isSome then
        arenaLinks.setPrevious position (some i) pool else some pool) = some pool' ∧
      Relinked pool pool' ∧ pool'.link = pool.link ∧
        (∀ q, (pool'.record position).previous = some q → q = i) ∧
          ∀ j, j ≠ position → (pool'.record j).previous = (pool.record j).previous := by
  have hcapacity := hg.lt_capacity hposition
  cases hnext : pool.link position with
  | none => exact ⟨pool, rfl, .refl pool, rfl, hback hnext, fun _ _ => rfl⟩
  | some j =>
    refine ⟨_, setPrevious_eq hcapacity, relinked_withPrevious hposition hcapacity ?_,
      link_withPrevious hcapacity, ?_, fun j hj => previous_withPrevious_of_ne hcapacity hj⟩
    · rintro q ⟨⟩ -
      exact hi
    · rw [record_withPrevious hcapacity]
      rintro q ⟨⟩
      rfl

/-- A position that links back to the record inserted, or to nothing: no other record is linked. -/
theorem assignNext_back {position : Nat} (hi : i < pool.arenaCount.toNat)
    (hcapacity : i < pool.capacity)
    (hback : ∀ q, (pool.record position).previous = some q → q = i) :
    ∃ pool', arenaLinks.assignNext (pool.record position).previous (some i) pool = some pool' ∧
      Relinked pool pool' ∧ (∀ j, j ≠ i → pool'.link j = pool.link j) ∧
        ∀ j, (pool'.record j).previous = (pool.record j).previous := by
  cases hprevious : (pool.record position).previous with
  | none => exact ⟨pool, rfl, .refl pool, fun _ _ => rfl, fun _ => rfl⟩
  | some q =>
    obtain rfl := hback q hprevious
    refine ⟨_, setNext_eq hcapacity, relinked_withNext hi hcapacity _, fun j hj => ?_,
      previous_withNext hcapacity⟩
    rw [link_withNext hcapacity, Function.update_of_ne hj]

/-- **`insert_after`** on the records, where the position has a next record, or links back to no
other record than the one inserted. -/
theorem insertAfter_eq {position : Nat} (hg : pool.Geometry) (hi : i < pool.arenaCount.toNat)
    (hposition : position < pool.arenaCount.toNat) (hne : i ≠ position)
    (hback : pool.link position = none → ∀ q, (pool.record position).previous = some q → q = i) :
    ∃ pool', IntrusiveList.insertAfter arenaLinks i position pool = some pool' ∧
      Relinked pool pool' ∧ pool'.link =
        Function.update (Function.update pool.link i (pool.link position)) position (some i) ∧
        ∀ j, j ≠ i → j ≠ position → (pool'.record j).previous = (pool.record j).previous := by
  have hcapacity := hg.lt_capacity hposition
  obtain ⟨pool₁, hrun₁, hrelinked₁, hlink₁, hback₁, hprevious₁⟩ :=
    insertAfter_back hg hi hposition hback
  have hi₁ : i < pool₁.arenaCount.toNat := hrelinked₁.arenaCount ▸ hi
  have hcapacity₁ : i < pool₁.capacity := (hrelinked₁.geometry hg).lt_capacity hi₁
  obtain ⟨pool₂, hrun₂, hrelinked₂, hlink₂, hprevious₂⟩ := assignNext_back hi₁ hcapacity₁ hback₁
  have hrelinked := hrelinked₁.trans hrelinked₂
  have hposition₂ : position < pool₂.arenaCount.toNat := hrelinked.arenaCount ▸ hposition
  have hcapacity₂ := (hrelinked.geometry hg).lt_capacity hposition₂
  -- the position, and the record inserted
  have hrelinked₃ : Relinked pool (pool₂.withNext position (some i)) :=
    hrelinked.trans (relinked_withNext hposition₂ hcapacity₂ _)
  have hi₃ : i < (pool₂.withNext position (some i)).arenaCount.toNat :=
    hrelinked₃.arenaCount ▸ hi
  have hcapacity₃ := (hrelinked₃.geometry hg).lt_capacity hi₃
  have hrelinked₄ := hrelinked₃.trans (relinked_withNext hi₃ hcapacity₃ (pool.link position))
  have hi₄ := hi
  rw [← hrelinked₄.arenaCount] at hi₄
  have hcapacity₄ := (hrelinked₄.geometry hg).lt_capacity hi₄
  have hrelinked₅ : Relinked pool (((pool₂.withNext position (some i)).withNext i
      (pool.link position)).withPrevious i (some position)) := by
    refine hrelinked₄.trans (relinked_withPrevious hi₄ hcapacity₄ ?_)
    rintro q ⟨⟩ -
    rw [hrelinked₄.arenaCount]
    exact hposition
  refine ⟨_, ?_, hrelinked₅, ?_, fun j hj hj' => ?_⟩
  · unfold IntrusiveList.insertAfter
    rw [next_eq hcapacity]
    simp only [Option.bind_eq_bind, Option.bind_some]
    rw [hrun₁, Option.bind_some, previous_eq (hrelinked₁.capacity ▸ hcapacity), Option.bind_some,
      hrun₂, Option.bind_some, setNext_eq hcapacity₂, Option.bind_some, setNext_eq hcapacity₃,
      Option.bind_some, setPrevious_eq hcapacity₄]
  · rw [link_withPrevious hcapacity₄, link_withNext hcapacity₃, link_withNext hcapacity₂]
    funext j
    by_cases hj : j = i
    · subst hj
      rw [Function.update_self, Function.update_of_ne hne, Function.update_self]
    · rw [Function.update_of_ne hj]
      by_cases hj' : j = position
      · subst hj'
        rw [Function.update_self, Function.update_self]
      · rw [Function.update_of_ne hj', Function.update_of_ne hj', Function.update_of_ne hj,
          hlink₂ j hj, hlink₁]
  · rw [previous_withPrevious_of_ne hcapacity₄ hj, previous_withNext hcapacity₃,
      previous_withNext hcapacity₂, hprevious₂, hprevious₁ j hj']

/-! ## Records that are requested, and given back -/

variable {self count : UInt64}

/-- A record that an allocator has, with all of its nodes free. -/
def requestedRecord (pool : MemoryArenaPool) (i : Nat) (self count : UInt64) : ArenaRecord :=
  { pool.record i with
    allocator := self
    freeNodeCount := count
    freeNodeList := (pool.record i).base }

/-- The pool after `take_arena` has taken a record and `request_empty_arena` has assigned it. -/
def requested (pool : MemoryArenaPool) (i : Nat) (self count : UInt64) : MemoryArenaPool :=
  { pool.set i (pool.requestedRecord i self count) with nextFreeArena := pool.link i }

theorem record_requested (hi : i < pool.capacity) : (pool.requested i self count).record =
    Function.update pool.record i (pool.requestedRecord i self count) := record_set hi

theorem link_requested (hi : i < pool.capacity) : (pool.requested i self count).link = pool.link :=
  link_set_same (r := pool.requestedRecord i self count) hi rfl

theorem owner_requested (hi : i < pool.capacity) (hcount : i < pool.arenaCount.toNat) :
    (pool.requested i self count).owner = Function.update pool.owner i (some self) :=
  owner_set (r := pool.requestedRecord i self count) hi hcount

theorem capacity_requested : (pool.requested i self count).capacity = pool.capacity :=
  capacity_set (r := pool.requestedRecord i self count)

theorem Ranged.requested (h : pool.Ranged) (hi : i < pool.capacity) :
    (pool.requested i self count).Ranged :=
  h.set (r := pool.requestedRecord i self count) hi (h i)

theorem Geometry.requested (h : pool.Geometry) (hi : i < pool.arenaCount.toNat) :
    (pool.requested i self count).Geometry := by
  have hg := h.set (r := pool.requestedRecord i self count) hi rfl
  exact ⟨hg.positive, hg.span, hg.count_le, hg.tabled, hg.base, hg.zero⟩

/-- A record that is given back. -/
def givenRecord (pool : MemoryArenaPool) (i : Nat) : ArenaRecord :=
  { pool.record i with
    allocator := 0
    freeNodeCount := 0
    freeNodeList := 0
    previous := none
    next := pool.nextFreeArena }

/-- The pool after `give_arena`, where it puts the record and nothing else on the free list. -/
def given (pool : MemoryArenaPool) (i : Nat) : MemoryArenaPool :=
  { pool.set i (pool.givenRecord i) with nextFreeArena := some i }

theorem giveArena_given (hi : i < pool.capacity)
    (hlast : pool.nextFreeArena = none → pool.link i = none) :
    pool.giveArena i = some (pool.given i) := by
  have hnext : (if pool.nextFreeArena = none then pool.link i else pool.nextFreeArena) =
      pool.nextFreeArena := by
    split_ifs with hnone
    · rw [hnone]
      exact hlast hnone
    · rfl
  rw [giveArena_eq hi, hnext]
  rfl

theorem record_given (hi : i < pool.capacity) :
    (pool.given i).record = Function.update pool.record i (pool.givenRecord i) := record_set hi

theorem link_given (hi : i < pool.capacity) :
    (pool.given i).link = Function.update pool.link i pool.nextFreeArena :=
  link_set (r := pool.givenRecord i) hi

theorem owner_given (hi : i < pool.capacity) (hcount : i < pool.arenaCount.toNat) :
    (pool.given i).owner = Function.update pool.owner i (some 0) :=
  owner_set (r := pool.givenRecord i) hi hcount

theorem Ranged.given (h : pool.Ranged) (hi : i < pool.capacity) : (pool.given i).Ranged :=
  h.set (r := pool.givenRecord i) hi nofun

theorem Geometry.given (h : pool.Geometry) (hi : i < pool.arenaCount.toNat) :
    (pool.given i).Geometry := by
  have hg := h.set (r := pool.givenRecord i) hi rfl
  exact ⟨hg.positive, hg.span, hg.count_le, hg.tabled, hg.base, hg.zero⟩

end MemoryArenaPool

/-! ## Counting nodes -/

/-- A record after `get_first_free_node` has counted a node of it as taken. -/
def ArenaRecord.counted (r : ArenaRecord) : ArenaRecord :=
  { r with freeNodeCount := r.freeNodeCount - 1 }

/-- A record after `deallocate` has counted a node of it as free. -/
def ArenaRecord.returned (r : ArenaRecord) : ArenaRecord :=
  { r with freeNodeCount := r.freeNodeCount + 1 }

/-- **`get_first_free_node`**, in more steps than the list has records. -/
theorem PoolAllocator.getFirstFreeNode_eq {pool : MemoryArenaPool} {head : Option Nat}
    {l : List Nat} (hchain : Chain pool.link head l) (hl : ∀ i ∈ l, i < pool.capacity) {steps : Nat}
    (hsteps : l.length < steps) :
    (∃ i ∈ l, (pool.record i).freeNodeList ≠ 0 ∧ getFirstFreeNode steps head pool =
      some ((pool.record i).freeNodeList, pool.set i (pool.record i).counted)) ∨
    (∀ i ∈ l, (pool.record i).freeNodeList = 0) ∧
      getFirstFreeNode steps head pool = some (0, pool) := by
  induction hchain generalizing steps with
  | nil =>
    obtain ⟨steps, rfl⟩ := Nat.exists_eq_succ_of_ne_zero (Nat.ne_of_gt hsteps)
    exact .inr ⟨nofun, rfl⟩
  | @cons i l _ ih =>
    obtain ⟨steps, rfl⟩ := Nat.exists_eq_succ_of_ne_zero (Nat.ne_of_gt (Nat.zero_lt_of_lt hsteps))
    have hi := hl i List.mem_cons_self
    rw [getFirstFreeNode, MemoryArenaPool.getRecord_eq hi]
    simp only [Option.bind_eq_bind, Option.bind_some]
    by_cases hlist : (pool.record i).freeNodeList ≠ 0
    · refine .inl ⟨i, List.mem_cons_self, hlist, ?_⟩
      rw [if_pos hlist, MemoryArenaPool.modifyRecord_eq hi]
      rfl
    · rw [if_neg hlist]
      rcases ih (fun j hj => hl j (List.mem_cons_of_mem i hj)) (Nat.lt_of_succ_lt_succ hsteps) with
        ⟨j, hj, hfree, hrun⟩ | ⟨hfull, hrun⟩
      · exact .inl ⟨j, List.mem_cons_of_mem i hj, hfree, hrun⟩
      · refine .inr ⟨fun j hj => ?_, hrun⟩
        rcases List.mem_cons.mp hj with rfl | hj'
        · exact not_not.mp hlist
        · exact hfull j hj'

end Hologine.Memory
