import Hologine.Library.Chain
import Hologine.Library.Run
import Hologine.Memory.MemoryRegion

/-!
# The arena pool

Model of `memory_arena_pool` (`core/memory/memory_arena_pool.cpp`). Its records are a table at the
start of its memory region, and a pointer to a record is the record's index, `none` being null.

* `RecordTable` is the table, with as many records as fit the bytes the constructor grows the region
  by. An access past it, or through a null `records`, has no defined behaviour, which is `none`.
* `takeArena` leaves the `next` of the record it returns as it is, and `giveArena` sets it only if
  the free list is not empty. So a record given to an empty list brings back what followed it when
  it was taken.
* `step` is one call in a run that also remembers which records are held.

Results:
* `Inv.reserveLoop`, `Inv.takeArena`, `Inv.giveArena`: the free list and the held records stay a
  partition of the allocated ones, when what is given is linked.
* `Inv.not_partition_giveArena`: not otherwise.
* `owned_iff`: in every run the records stay partitioned, and none is taken that is held, **iff**
  every record given to an empty free list has no link.
-/

namespace Hologine.Memory

open Hologine.Library Hologine.Library.Run

/-- `memory_arena_pool::arena_record`. Allocators and free nodes are named by their addresses. -/
structure ArenaRecord where
  base : UInt64
  allocator : UInt64
  freeNodeCount : UInt64
  freeNodeList : UInt64
  next : Option Nat
  previous : Option Nat
  deriving Repr, DecidableEq

/-- A record that `memset` has cleared. -/
def ArenaRecord.zero : ArenaRecord := ⟨0, 0, 0, 0, none, none⟩

/-- The size of an `arena_record`. -/
def arenaRecordSize : UInt64 := 48

/-- The size of an `allocator_free_node`: two pointers and a size. -/
def freeNodeSize : UInt64 := 24

/-- The table of records. -/
structure RecordTable where
  capacity : Nat
  record : Nat → ArenaRecord

namespace RecordTable

/-- The record at an index. -/
def get (t : RecordTable) (i : Nat) : Option ArenaRecord :=
  if i < t.capacity then some (t.record i) else none

/-- The table with the record at an index changed. -/
def modify (t : RecordTable) (i : Nat) (f : ArenaRecord → ArenaRecord) : Option RecordTable :=
  if i < t.capacity then some { t with record := Function.update t.record i (f (t.record i)) }
  else none

end RecordTable

/-- An arena pool. `records` is `none` if the constructor could not grow its region. -/
structure MemoryArenaPool where
  memoryRegion : MemoryRegion
  records : Option RecordTable
  nextFreeArena : Option Nat
  arenaPool : UInt64
  arenaSize : UInt64
  arenaReserved : UInt64
  arenaCount : UInt64

namespace MemoryArenaPool

variable {π : Type} (p : Platform π)

/-- The size of the table: at least a page, and the granularity. -/
def recordSize (arenaCountHint : UInt64) : UInt64 :=
  max (max pageSize granularity) (arenaCountHint * arenaRecordSize)

/-- The constructor. -/
def create (arenaSizeHint arenaCountHint : UInt64) (env : π) : MemoryArenaPool × π :=
  let recordSize := recordSize arenaCountHint
  let arenaSpanSize := arenaSizeHint * arenaCountHint
  let (basePointer, memoryRegion, env) :=
    (MemoryRegion.create (recordSize + arenaSpanSize)).grow p recordSize env
  let pool : MemoryArenaPool := {
    memoryRegion := memoryRegion
    records := none
    nextFreeArena := none
    arenaPool := 0
    arenaSize := arenaSizeHint
    arenaReserved := arenaCountHint
    arenaCount := 0 }
  if basePointer = 0 then (pool, env)
  else ({ pool with
    records := some ⟨(recordSize / arenaRecordSize).toNat, fun _ => .zero⟩
    arenaPool := basePointer + recordSize }, env)

/-- The access `records[i]`. -/
def getRecord (pool : MemoryArenaPool) (i : Nat) : Option ArenaRecord := do
  (← pool.records).get i

/-- An assignment to fields of `records[i]`. -/
def modifyRecord (pool : MemoryArenaPool) (i : Nat) (f : ArenaRecord → ArenaRecord) :
    Option MemoryArenaPool := do
  let records ← (← pool.records).modify i f
  some { pool with records := some records }

/-- `allocate_arena`. -/
def allocateArena (pool : MemoryArenaPool) (env : π) : Option (Bool × MemoryArenaPool × π) :=
  if pool.arenaCount < pool.arenaReserved then
    let (basePointer, memoryRegion, env) := pool.memoryRegion.grow p pool.arenaSize env
    let pool := { pool with memoryRegion := memoryRegion }
    if basePointer ≠ 0 then do
      let i := pool.arenaCount.toNat
      let pool ← pool.modifyRecord i fun r =>
        { r with
          base := pool.arenaPool + pool.arenaCount * pool.arenaSize
          next := pool.nextFreeArena }
      some (true, { pool with
        nextFreeArena := some i
        arenaCount := pool.arenaCount + 1 }, env)
    else some (false, pool, env)
  else some (false, pool, env)

/-- The loop of `reserve`: `count` arenas more. -/
def reserveLoop : Nat → UInt64 → MemoryArenaPool → π → Option (UInt64 × MemoryArenaPool × π)
  | 0, reserved, pool, env => some (reserved, pool, env)
  | count + 1, reserved, pool, env => do
    let (ok, pool, env) ← pool.allocateArena p env
    if ok then reserveLoop count (reserved + 1) pool env else some (reserved, pool, env)

/-- `reserve`: the number of arenas reserved. -/
def reserve (pool : MemoryArenaPool) (count : UInt64) (env : π) :
    Option (UInt64 × MemoryArenaPool × π) :=
  reserveLoop p count.toNat 0 pool env

/-- The part of `take_arena` that unlinks the head of the free list. -/
def unlinkArena (pool : MemoryArenaPool) : Option (Nat × MemoryArenaPool) := do
  let i ← pool.nextFreeArena
  let record ← pool.getRecord i
  some (i, { pool with nextFreeArena := record.next })

/-- `take_arena`: a record, or null. -/
def takeArena (pool : MemoryArenaPool) (env : π) :
    Option (Option Nat × MemoryArenaPool × π) := do
  if pool.nextFreeArena = none then
    let (ok, pool, env) ← pool.allocateArena p env
    if ok then
      let (i, pool) ← pool.unlinkArena
      some (some i, pool, env)
    else some (none, pool, env)
  else
    let (i, pool) ← pool.unlinkArena
    some (some i, pool, env)

/-- `give_arena`. -/
def giveArena (pool : MemoryArenaPool) (i : Nat) : Option MemoryArenaPool := do
  let pool ← pool.modifyRecord i fun r =>
    { r with
      allocator := 0
      freeNodeCount := 0
      freeNodeList := 0
      previous := none
      -- an empty free list leaves the link as it is
      next := if pool.nextFreeArena = none then r.next else pool.nextFreeArena }
  some { pool with nextFreeArena := some i }

/-- `get_arena`: the record of the arena that the address is in, or null. -/
def getArena (pool : MemoryArenaPool) (pointer : UInt64) : Option Nat :=
  let begin := pool.arenaPool
  let «end» := pool.arenaPool + pool.arenaCount * pool.arenaSize
  if pointer ≥ begin ∧ pointer < «end» then
    some ((pointer - begin) / pool.arenaSize).toNat
  else none

end MemoryArenaPool

/-! ## Runs -/

/-- A pool, its platform, and the records that are held. -/
structure PoolRun (π : Type) where
  pool : MemoryArenaPool
  env : π
  held : List Nat

/-- A call of the pool. -/
inductive ArenaCall
  | reserve (count : UInt64)
  | take
  | give (record : Nat)
  deriving Repr, DecidableEq

/-- What a call returns. -/
inductive ArenaResult
  | reserved (count : UInt64)
  | took (record : Option Nat)
  | gave
  deriving Repr, DecidableEq

variable {π : Type} (p : Platform π)

/-- One call. -/
def PoolRun.step (s : PoolRun π) : ArenaCall → Option (ArenaResult × PoolRun π)
  | .reserve count => do
    let (n, pool, env) ← s.pool.reserve p count s.env
    some (.reserved n, ⟨pool, env, s.held⟩)
  | .take => do
    let (record, pool, env) ← s.pool.takeArena p s.env
    some (.took record, ⟨pool, env, record.toList ++ s.held⟩)
  | .give record => do
    let pool ← s.pool.giveArena record
    some (.gave, ⟨pool, s.env, s.held.erase record⟩)

/-- A new pool, of which nothing is held. -/
def PoolRun.start (arenaSizeHint arenaCountHint : UInt64) (env : π) : PoolRun π :=
  let (pool, env) := MemoryArenaPool.create p arenaSizeHint arenaCountHint env
  ⟨pool, env, []⟩

/-- Only held records are given. -/
def PoolRun.Legal (s : PoolRun π) : ArenaCall → Prop
  | .give record => record ∈ s.held
  | _ => True

instance (s : PoolRun π) (call : ArenaCall) : Decidable (s.Legal call) :=
  match call with
  | .give record => inferInstanceAs (Decidable (record ∈ s.held))
  | .reserve _ => isTrue trivial
  | .take => isTrue trivial

/-- The links of the records. -/
def MemoryArenaPool.next (pool : MemoryArenaPool) (i : Nat) : Option Nat :=
  (pool.getRecord i).bind ArenaRecord.next

/-- **The free list and the held records partition the allocated ones**: together they are all of
them, each once. -/
def PoolRun.Partition (s : PoolRun π) : Prop :=
  ∃ free, Chain s.pool.next s.pool.nextFreeArena free ∧
    (free ++ s.held).Perm (List.range s.pool.arenaCount.toNat)

/-- What a call must keep: no record is taken that is held, and the records stay partitioned. -/
def PoolRun.Owned (s : PoolRun π) (call : ArenaCall) : Prop :=
  ∀ result s', s.step p call = some (result, s') →
    s'.Partition ∧ ∀ record, result = .took (some record) → record ∉ s.held

/-- **The condition**: a record given to an empty free list has no link. -/
def PoolRun.GivesLinked (s : PoolRun π) : ArenaCall → Prop
  | .give record => s.pool.nextFreeArena = none → s.pool.next record = none
  | _ => True

instance (s : PoolRun π) (call : ArenaCall) : Decidable (s.GivesLinked call) :=
  match call with
  | .give record =>
    inferInstanceAs (Decidable (s.pool.nextFreeArena = none → s.pool.next record = none))
  | .reserve _ => isTrue trivial
  | .take => isTrue trivial

/-! ## The links -/

namespace MemoryArenaPool

variable {p} {pool pool' : MemoryArenaPool} {env env' : π} {i : Nat} {f : ArenaRecord → ArenaRecord}

/-- What an assignment to a record does: the record must be there, and it alone changes. -/
theorem modifyRecord_eq_some : pool.modifyRecord i f = some pool' ↔ ∃ t,
    pool.records = some t ∧ i < t.capacity ∧ pool' = { pool with
      records := some { t with record := Function.update t.record i (f (t.record i)) } } := by
  unfold modifyRecord RecordTable.modify
  cases hr : pool.records with
  | none => simp
  | some t =>
    by_cases hi : i < t.capacity
    · simp [hi, eq_comm]
    · simp [hi]

theorem getRecord_modifyRecord (h : pool.modifyRecord i f = some pool') (j : Nat) :
    pool'.getRecord j = if j = i then (pool.getRecord i).map f else pool.getRecord j := by
  obtain ⟨t, ht, hi, rfl⟩ := modifyRecord_eq_some.mp h
  simp only [getRecord, ht, Option.bind_eq_bind, Option.bind_some, RecordTable.get]
  by_cases hj : j = i
  · subst hj
    simp [hi]
  · simp [hj]

theorem isSome_getRecord_of_modifyRecord (h : pool.modifyRecord i f = some pool') :
    (pool.getRecord i).isSome := by
  obtain ⟨t, ht, hi, -⟩ := modifyRecord_eq_some.mp h
  simp [getRecord, ht, RecordTable.get, hi]

theorem exists_modifyRecord (h : (pool.getRecord i).isSome) (f : ArenaRecord → ArenaRecord) :
    ∃ pool', pool.modifyRecord i f = some pool' := by
  unfold getRecord at h
  cases hr : pool.records with
  | none => simp [hr] at h
  | some t =>
    have hi : i < t.capacity := by simpa [hr, RecordTable.get] using h
    exact ⟨_, modifyRecord_eq_some.mpr ⟨t, hr, hi, rfl⟩⟩

/-- An assignment to a record changes the links of that record only. -/
theorem next_modifyRecord (h : pool.modifyRecord i f = some pool') {link : Option Nat}
    (hlink : ∀ r, pool.getRecord i = some r → (f r).next = link) :
    pool'.next = Function.update pool.next i link := by
  funext j
  rw [next, getRecord_modifyRecord h]
  obtain ⟨r, hr⟩ := Option.isSome_iff_exists.mp (isSome_getRecord_of_modifyRecord h)
  by_cases hj : j = i
  · subst hj
    rw [if_pos rfl, hr, Function.update_self]
    exact hlink r hr
  · rw [if_neg hj, Function.update_of_ne hj, next]

/-- Every allocated record is in the table. -/
def Tabled (pool : MemoryArenaPool) : Prop :=
  ∀ i < pool.arenaCount.toNat, (pool.getRecord i).isSome

/-- The free list and the records `held` partition the allocated records, which are in the table. -/
structure Inv (pool : MemoryArenaPool) (held : List Nat) : Prop where
  partition : ∃ free, Chain pool.next pool.nextFreeArena free ∧
    (free ++ held).Perm (List.range pool.arenaCount.toNat)
  tabled : pool.Tabled

variable {held : List Nat}

/-- **What `allocate_arena` does**: nothing to the records, or it puts a new one at the head of the
free list. -/
theorem allocateArena_cases {ok : Bool} (h : pool.allocateArena p env = some (ok, pool', env')) :
    (ok = false ∧ pool'.records = pool.records ∧ pool'.nextFreeArena = pool.nextFreeArena ∧
        pool'.arenaCount = pool.arenaCount) ∨
      (ok = true ∧ pool'.nextFreeArena = some pool.arenaCount.toNat ∧
        pool'.arenaCount.toNat = pool.arenaCount.toNat + 1 ∧
        pool'.next = Function.update pool.next pool.arenaCount.toNat pool.nextFreeArena ∧
        ∀ i, (pool.getRecord i).isSome ∨ i = pool.arenaCount.toNat →
          (pool'.getRecord i).isSome) := by
  unfold allocateArena at h
  split_ifs at h with hcount
  · obtain ⟨base, region, env₁⟩ := pool.memoryRegion.grow p pool.arenaSize env
    simp only at h
    split_ifs at h with hbase
    · obtain ⟨pool₁, hmod, heq⟩ := Option.bind_eq_some_iff.mp h
      obtain ⟨rfl, rfl, rfl⟩ : _ ∧ _ ∧ _ := by simpa using heq
      have hnext : pool₁.next =
          Function.update pool.next pool.arenaCount.toNat pool.nextFreeArena :=
        next_modifyRecord hmod fun _ _ => rfl
      have hget : ∀ i, pool₁.getRecord i = _ := getRecord_modifyRecord hmod
      have hsome := isSome_getRecord_of_modifyRecord hmod
      obtain ⟨t, -, -, rfl⟩ := modifyRecord_eq_some.mp hmod
      have hsucc : (pool.arenaCount + 1).toNat = pool.arenaCount.toNat + 1 := by
        have hreserved := pool.arenaReserved.toNat_lt
        rw [UInt64.lt_iff_toNat_lt] at hcount
        rw [UInt64.toNat_add, UInt64.toNat_one, Nat.mod_eq_of_lt (by omega)]
      refine .inr ⟨rfl, rfl, hsucc, hnext, fun i hi => (congrArg Option.isSome (hget i)).trans ?_⟩
      by_cases heq : i = pool.arenaCount.toNat
      · rw [if_pos heq, Option.isSome_map]
        exact hsome
      · rw [if_neg heq]
        exact hi.resolve_right heq
    · obtain ⟨rfl, rfl, rfl⟩ : _ ∧ _ ∧ _ := by simpa using h
      exact .inl ⟨rfl, rfl, rfl, rfl⟩
  · obtain ⟨rfl, rfl, rfl⟩ : _ ∧ _ ∧ _ := by simpa using h
    exact .inl ⟨rfl, rfl, rfl, rfl⟩

/-- A record that is allocated keeps the records partitioned: it heads the free list. -/
theorem Inv.allocateArena (hinv : pool.Inv held) {ok : Bool}
    (h : pool.allocateArena p env = some (ok, pool', env')) : pool'.Inv held := by
  obtain ⟨⟨free, hchain, hperm⟩, htabled⟩ := hinv
  rcases allocateArena_cases h with ⟨-, hrec, hfree, hcount⟩ | ⟨-, hfree, hcount, hnext, hget⟩
  · have hsame : pool'.getRecord = pool.getRecord := by
      funext i
      rw [getRecord, getRecord, hrec]
    refine ⟨⟨free, ?_, by rwa [hcount]⟩, ?_⟩
    · rw [hfree]
      refine hchain.congr fun i _ => ?_
      rw [next, next, hsame]
    · intro i hi
      rw [hsame]
      exact htabled i (hcount ▸ hi)
  · have hnew : pool.arenaCount.toNat ∉ free := fun hmem => by
      have := List.mem_range.mp (hperm.subset (List.mem_append_left held hmem))
      omega
    refine ⟨⟨pool.arenaCount.toNat :: free, ?_, ?_⟩, ?_⟩
    · rw [hfree, hnext]
      exact hchain.push hnew
    · rw [hcount, List.range_succ, List.cons_append]
      exact (List.Perm.cons _ hperm).trans (List.perm_append_singleton _ _).symm
    · intro i hi
      refine hget i ?_
      by_cases heq : i = pool.arenaCount.toNat
      · exact .inr heq
      · exact .inl (htabled i (by omega))

/-- **`reserve` keeps the records partitioned.** -/
theorem Inv.reserveLoop (count : Nat) {reserved n : UInt64} (hinv : pool.Inv held)
    (h : reserveLoop p count reserved pool env = some (n, pool', env')) : pool'.Inv held := by
  induction count generalizing reserved pool env with
  | zero =>
    obtain ⟨-, rfl, -⟩ : _ ∧ pool = pool' ∧ _ := by simpa [MemoryArenaPool.reserveLoop] using h
    exact hinv
  | succ count ih =>
    obtain ⟨⟨ok, pool₁, env₁⟩, halloc, hrest⟩ := Option.bind_eq_some_iff.mp h
    have hinv₁ := hinv.allocateArena halloc
    cases ok with
    | true => exact ih hinv₁ hrest
    | false =>
      obtain ⟨-, rfl, -⟩ : _ ∧ pool₁ = pool' ∧ _ := by simpa using hrest
      exact hinv₁

/-- The head of the free list is no held record, and is held from then on. -/
theorem Inv.unlinkArena (hinv : pool.Inv held) (h : pool.unlinkArena = some (i, pool')) :
    i ∉ held ∧ pool'.Inv (i :: held) := by
  obtain ⟨⟨free, hchain, hperm⟩, htabled⟩ := hinv
  obtain ⟨i', hhead, hrest⟩ := Option.bind_eq_some_iff.mp h
  obtain ⟨record, hrecord, heq⟩ := Option.bind_eq_some_iff.mp hrest
  obtain ⟨rfl, rfl⟩ : i' = i ∧ _ = pool' := by simpa using heq
  rw [hhead] at hchain
  obtain ⟨free', rfl, hchain'⟩ := Chain.some_iff.mp hchain
  have hnext : pool.next i' = record.next := by
    rw [next, hrecord, Option.bind_some]
  refine ⟨?_, ⟨free', hnext ▸ hchain', ?_⟩, htabled⟩
  · have hnodup := hperm.nodup_iff.mpr List.nodup_range
    rw [List.cons_append, List.nodup_cons] at hnodup
    exact fun hmem => hnodup.1 (List.mem_append_right free' hmem)
  · exact List.perm_middle.trans hperm

/-- **`take_arena` returns a record that is not held, and keeps the records partitioned.** -/
theorem Inv.takeArena (hinv : pool.Inv held) {record : Option Nat}
    (h : pool.takeArena p env = some (record, pool', env')) :
    (∀ i, record = some i → i ∉ held) ∧ pool'.Inv (record.toList ++ held) := by
  have hunlink : ∀ {pool₁ : MemoryArenaPool} {env₁ : π}, pool₁.Inv held →
      (pool₁.unlinkArena.bind fun r => some (some r.1, r.2, env₁)) = some (record, pool', env') →
      (∀ i, record = some i → i ∉ held) ∧ pool'.Inv (record.toList ++ held) := by
    intro pool₁ env₁ hinv₁ hrest
    obtain ⟨⟨i, pool₂⟩, hun, heq⟩ := Option.bind_eq_some_iff.mp hrest
    obtain ⟨rfl, rfl, -⟩ : some i = record ∧ pool₂ = pool' ∧ _ := by simpa using heq
    obtain ⟨hi, hinv₂⟩ := hinv₁.unlinkArena hun
    refine ⟨fun j hj => ?_, hinv₂⟩
    obtain rfl := Option.some.inj hj
    exact hi
  unfold MemoryArenaPool.takeArena at h
  split_ifs at h with hfree
  · obtain ⟨⟨ok, pool₁, env₁⟩, halloc, hrest⟩ := Option.bind_eq_some_iff.mp h
    have hinv₁ := hinv.allocateArena halloc
    cases ok with
    | true => exact hunlink hinv₁ hrest
    | false =>
      obtain ⟨rfl, rfl, -⟩ : none = record ∧ pool₁ = pool' ∧ _ := by simpa using hrest
      exact ⟨fun i hi => absurd hi (by simp), hinv₁⟩
  · exact hunlink hinv h

/-- What `give_arena` does: the record heads the free list, linked to it unless it is empty. -/
theorem giveArena_spec (h : pool.giveArena i = some pool') :
    pool'.nextFreeArena = some i ∧ pool'.arenaCount = pool.arenaCount ∧
      pool'.next = Function.update pool.next i
        (if pool.nextFreeArena = none then pool.next i else pool.nextFreeArena) ∧
      ∀ j, (pool'.getRecord j).isSome = (pool.getRecord j).isSome := by
  obtain ⟨pool₁, hmod, heq⟩ := Option.bind_eq_some_iff.mp h
  obtain rfl := Option.some.inj heq
  have hnext : pool₁.next = Function.update pool.next i
      (if pool.nextFreeArena = none then pool.next i else pool.nextFreeArena) := by
    refine next_modifyRecord hmod fun r hr => ?_
    rw [next, hr, Option.bind_some]
  have hget := getRecord_modifyRecord hmod
  obtain ⟨t, -, -, rfl⟩ := modifyRecord_eq_some.mp hmod
  refine ⟨rfl, rfl, hnext, fun j => (congrArg Option.isSome (hget j)).trans ?_⟩
  by_cases hj : j = i
  · rw [if_pos hj, Option.isSome_map, hj]
  · rw [if_neg hj]

/-- **`give_arena` keeps the records partitioned if what it gives is linked.** -/
theorem Inv.giveArena (hinv : pool.Inv held) (hheld : i ∈ held)
    (hlinked : pool.nextFreeArena = none → pool.next i = none)
    (h : pool.giveArena i = some pool') : pool'.Inv (held.erase i) := by
  obtain ⟨⟨free, hchain, hperm⟩, htabled⟩ := hinv
  obtain ⟨hfree, hcount, hnext, hget⟩ := giveArena_spec h
  have hlink : (if pool.nextFreeArena = none then pool.next i else pool.nextFreeArena) =
      pool.nextFreeArena := by
    split_ifs with hnone
    · rw [hlinked hnone, hnone]
    · rfl
  have hi : i ∉ free := fun hmem =>
    (List.nodup_append.mp (hperm.nodup_iff.mpr List.nodup_range)).2.2 i hmem i hheld rfl
  refine ⟨⟨i :: free, ?_, ?_⟩, fun j hj => ?_⟩
  · rw [hfree, hnext, hlink]
    exact hchain.push hi
  · rw [hcount]
    exact List.perm_middle.symm.trans
      (((List.perm_cons_erase hheld).symm.append_left free).trans hperm)
  · rw [hget]
    exact htabled j (hcount ▸ hj)

/-- **A record that still has a link, given to an empty free list, brings back what it leads to**:
the records are no partition then. -/
theorem Inv.not_partition_giveArena (hinv : pool.Inv held) (hheld : i ∈ held)
    (hempty : pool.nextFreeArena = none) (hlink : pool.next i ≠ none)
    (h : pool.giveArena i = some pool') : ¬ ∃ free, Chain pool'.next pool'.nextFreeArena free ∧
      (free ++ held.erase i).Perm (List.range pool'.arenaCount.toNat) := by
  rintro ⟨free', hchain', hperm'⟩
  obtain ⟨⟨free, hchain, hperm⟩, -⟩ := hinv
  obtain ⟨hfree, hcount, hnext, -⟩ := giveArena_spec h
  rw [hempty] at hchain
  obtain rfl := Chain.none_iff.mp hchain
  -- one record is free now, and it is the one given
  rw [hfree] at hchain'
  obtain ⟨rest, rfl, hrest⟩ := Chain.some_iff.mp hchain'
  have hlen := hperm'.length_eq
  have hlen' := hperm.length_eq
  have herase := List.length_erase_of_mem hheld
  have hpos := List.length_pos_of_mem hheld
  rw [List.length_append, List.length_cons, hcount] at hlen
  rw [List.nil_append] at hlen'
  obtain rfl : rest = [] := List.length_eq_zero_iff.mp (by omega)
  rw [hnext, Function.update_self, if_pos hempty] at hrest
  cases hl : pool.next i with
  | none => exact hlink hl
  | some j =>
    rw [hl] at hrest
    obtain ⟨_, hcons, -⟩ := Chain.some_iff.mp hrest
    exact absurd hcons (by simp)

/-- A held record can be given. -/
theorem Inv.exists_giveArena (hinv : pool.Inv held) (hheld : i ∈ held) :
    ∃ pool', pool.giveArena i = some pool' := by
  obtain ⟨⟨free, -, hperm⟩, htabled⟩ := hinv
  have hi := List.mem_range.mp (hperm.subset (List.mem_append_right free hheld))
  obtain ⟨pool₁, hmod⟩ := exists_modifyRecord (htabled i hi) _
  exact ⟨_, Option.bind_eq_some_iff.mpr ⟨pool₁, hmod, rfl⟩⟩

/-- A new pool has no records. -/
theorem inv_create (arenaSizeHint arenaCountHint : UInt64) (env : π) :
    (create p arenaSizeHint arenaCountHint env).1.Inv [] := by
  have hnew : ∀ pool : MemoryArenaPool, pool.nextFreeArena = none → pool.arenaCount = 0 →
      pool.Inv [] := by
    intro pool hfree hcount
    refine ⟨⟨[], hfree ▸ .nil, by rw [hcount]; exact .refl _⟩, fun i hi => ?_⟩
    rw [hcount] at hi
    exact absurd hi (Nat.not_lt_zero i)
  unfold create
  dsimp only
  split_ifs
  · exact hnew _ rfl rfl
  · exact hnew _ rfl rfl

end MemoryArenaPool

/-! ## Runs keep ownership -/

namespace PoolRun

variable {p} {s s' : PoolRun π}

/-- A call that keeps its result off the held records and the records partitioned. -/
theorem owned_of_inv {call : ArenaCall}
    (h : ∀ result s', s.step p call = some (result, s') → s'.pool.Inv s'.held ∧
      ∀ record, result = .took (some record) → record ∉ s.held) : s.Owned p call :=
  fun result s' hstep => ⟨(h result s' hstep).1.partition, (h result s' hstep).2⟩

/-- **What one call keeps**: everything, unless it gives a linked record to an empty list. -/
theorem inv_step (hinv : s.pool.Inv s.held) {call : ArenaCall} (hlegal : s.Legal call)
    (hlinked : s.GivesLinked call) {result : ArenaResult}
    (hstep : s.step p call = some (result, s')) :
    s'.pool.Inv s'.held ∧ ∀ record, result = .took (some record) → record ∉ s.held := by
  cases call with
  | reserve count =>
    obtain ⟨⟨n, pool, env⟩, hrun, heq⟩ := Option.bind_eq_some_iff.mp hstep
    obtain ⟨rfl, rfl⟩ : _ ∧ _ := by simpa using heq
    exact ⟨hinv.reserveLoop _ hrun, nofun⟩
  | take =>
    obtain ⟨⟨record, pool, env⟩, hrun, heq⟩ := Option.bind_eq_some_iff.mp hstep
    obtain ⟨rfl, rfl⟩ : _ ∧ _ := by simpa using heq
    obtain ⟨hnew, hinv'⟩ := hinv.takeArena hrun
    exact ⟨hinv', fun i hi => hnew i (ArenaResult.took.inj hi)⟩
  | give record =>
    obtain ⟨pool, hrun, heq⟩ := Option.bind_eq_some_iff.mp hstep
    obtain ⟨rfl, rfl⟩ : _ ∧ _ := by simpa using heq
    exact ⟨hinv.giveArena hlegal hlinked hrun, nofun⟩

theorem owned_iff_givesLinked (hinv : s.pool.Inv s.held) (call : ArenaCall)
    (hlegal : s.Legal call) : s.Owned p call ↔ s.GivesLinked call := by
  constructor
  · intro howned
    cases call with
    | reserve count => trivial
    | take => trivial
    | give record =>
      intro hempty
      by_contra hlink
      obtain ⟨pool', hgive⟩ := hinv.exists_giveArena hlegal
      have hstep : s.step p (.give record) = some (.gave, ⟨pool', s.env, s.held.erase record⟩) :=
        Option.bind_eq_some_iff.mpr ⟨pool', hgive, rfl⟩
      exact hinv.not_partition_giveArena hlegal hempty hlink hgive (howned _ _ hstep).1
  · intro hlinked
    exact owned_of_inv fun result s' hstep => inv_step hinv hlegal hlinked hstep

/-- **In every run the records stay partitioned, and none is taken that is held, iff every record
given to an empty free list has no link.** -/
theorem owned_iff (arenaSizeHint arenaCountHint : UInt64) (env : π) (calls : List ArenaCall)
    (hlegal : Along (step p) Legal (start p arenaSizeHint arenaCountHint env) calls) :
    Along (step p) (Owned p) (start p arenaSizeHint arenaCountHint env) calls ↔
      Along (step p) GivesLinked (start p arenaSizeHint arenaCountHint env) calls :=
  along_congr (fun s => s.pool.Inv s.held)
    (fun _ call hinv hlegal => owned_iff_givesLinked hinv call hlegal)
    (fun _ _ _ _ hinv hlegal hlinked hstep => (inv_step hinv hlegal hlinked hstep).1)
    (MemoryArenaPool.inv_create arenaSizeHint arenaCountHint env) hlegal

/-- Giving in the reverse order of taking keeps ownership. -/
theorem owned_iff_in_order : Along (step Platform.granting) (Owned Platform.granting)
    (start Platform.granting 0x10000 2 ()) [.take, .take, .give 1, .give 0, .take, .take] :=
  (owned_iff 0x10000 2 () _ (by decide)).mpr (by decide)

/-- **A record is taken twice**: two are reserved and taken, the one taken first is given back, and
two are taken. -/
theorem not_owned : ¬ ∀ (p : Platform Unit) (calls : List ArenaCall),
    Along (step p) Legal (start p 0x10000 2 ()) calls →
      Along (step p) (Owned p) (start p 0x10000 2 ()) calls := by
  intro hall
  have h := hall Platform.granting [.reserve 2, .take, .take, .give 1, .take, .take] (by decide)
  have hlast := (((((h.2 _ _ rfl).2 _ _ rfl).2 _ _ rfl).2 _ _ rfl).2 _ _ rfl).1 _ _ rfl
  exact hlast.2 0 rfl (by decide)

end PoolRun

end Hologine.Memory
