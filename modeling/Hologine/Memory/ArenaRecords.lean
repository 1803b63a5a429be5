import Hologine.Library.Bits
import Hologine.Memory.MemoryArenaPool
import Mathlib.Tactic.Ring

/-!
# The arenas of a pool

The records of an arena pool as a table that is read and assigned without checks, for indices that
are in it, and where the arenas are.

* `getRecord_eq`, `modifyRecord_eq`: an access within the capacity is an access to the table.
* `Geometry`: the arenas lie one after the other in the address space. `getArena_eq` finds the one
  an address is in, and `arenas_apart` says that no two overlap.
* `Geometry.takeArena`: what `take_arena` does, with what it may do first to have a free arena.
* `geometry_create`, `Geometry.reserve`: the geometry of a new pool, and what `reserve` keeps.
-/

namespace Hologine.Memory.MemoryArenaPool

variable {π : Type} {p : Platform π} {pool pool' : MemoryArenaPool} {env env' : π} {i j : Nat}
  {r : ArenaRecord}

/-! ## The table -/

/-- How many records there are. -/
def capacity (pool : MemoryArenaPool) : Nat := (pool.records.map RecordTable.capacity).getD 0

/-- The record at an index. -/
def record (pool : MemoryArenaPool) (i : Nat) : ArenaRecord :=
  match pool.records with
  | some t => t.record i
  | none => .zero

/-- The pool with a record at an index. -/
def set (pool : MemoryArenaPool) (i : Nat) (r : ArenaRecord) : MemoryArenaPool :=
  { pool with records := pool.records.map fun t =>
    { t with record := Function.update t.record i r } }

@[simp] theorem capacity_set : (pool.set i r).capacity = pool.capacity := by
  rw [capacity, set, Option.map_map]
  rfl

theorem exists_records (h : i < pool.capacity) :
    ∃ t, pool.records = some t ∧ i < t.capacity := by
  unfold capacity at h
  cases ht : pool.records with
  | none =>
    rw [ht] at h
    exact absurd h (Nat.not_lt_zero i)
  | some t =>
    rw [ht] at h
    exact ⟨t, rfl, h⟩

theorem record_set (h : i < pool.capacity) :
    (pool.set i r).record = Function.update pool.record i r := by
  obtain ⟨t, ht, -⟩ := exists_records h
  funext j
  rw [record, set, ht]
  simp only [Option.map_some]
  congr 1
  funext k
  rw [record, ht]

theorem record_set_self (h : i < pool.capacity) (r : ArenaRecord) :
    (pool.set i r).record i = r := by
  rw [record_set h, Function.update_self]

theorem set_set (pool : MemoryArenaPool) (i : Nat) (r r' : ArenaRecord) :
    (pool.set i r).set i r' = pool.set i r' := by
  unfold set
  cases pool.records with
  | none => rfl
  | some t => simp only [Option.map_some, Function.update_idem]

/-- **An access within the capacity** reads the table. -/
theorem getRecord_eq (h : i < pool.capacity) : pool.getRecord i = some (pool.record i) := by
  obtain ⟨t, ht, hi⟩ := exists_records h
  rw [getRecord, record, ht]
  exact if_pos hi

/-- **An assignment within the capacity** changes the table. -/
theorem modifyRecord_eq (h : i < pool.capacity) (f : ArenaRecord → ArenaRecord) :
    pool.modifyRecord i f = some (pool.set i (f (pool.record i))) := by
  obtain ⟨t, ht, hi⟩ := exists_records h
  refine modifyRecord_eq_some.mpr ⟨t, ht, hi, ?_⟩
  rw [set, record, ht]
  rfl

/-! ## Where the arenas are -/

/-- The address an arena starts at. -/
def arenaBase (pool : MemoryArenaPool) (i : Nat) : Nat :=
  pool.arenaPool.toNat + i * pool.arenaSize.toNat

/-- **The arenas lie in the address space**, and the records of those that are reserved are in the
table. A record that is not allocated yet is as `memset` left it. -/
structure Geometry (pool : MemoryArenaPool) : Prop where
  positive : 0 < pool.arenaPool.toNat
  span : pool.arenaBase pool.arenaReserved.toNat < 2 ^ 64
  count_le : pool.arenaCount.toNat ≤ pool.arenaReserved.toNat
  tabled : pool.arenaReserved.toNat ≤ pool.capacity
  base : ∀ i < pool.arenaCount.toNat, (pool.record i).base.toNat = pool.arenaBase i
  zero : ∀ i, pool.arenaCount.toNat ≤ i → pool.record i = .zero

theorem arenaBase_succ (pool : MemoryArenaPool) (i : Nat) :
    pool.arenaBase (i + 1) = pool.arenaBase i + pool.arenaSize.toNat := by
  rw [arenaBase, arenaBase]
  ring

theorem arenaBase_le (pool : MemoryArenaPool) (h : i ≤ j) : pool.arenaBase i ≤ pool.arenaBase j :=
  Nat.add_le_add_left (Nat.mul_le_mul_right _ h) _

/-- No two arenas overlap. -/
theorem arenas_apart (pool : MemoryArenaPool) (h : i ≠ j) :
    pool.arenaBase i + pool.arenaSize.toNat ≤ pool.arenaBase j ∨
      pool.arenaBase j + pool.arenaSize.toNat ≤ pool.arenaBase i := by
  rw [← arenaBase_succ, ← arenaBase_succ]
  rcases Nat.lt_or_gt_of_ne h with hlt | hgt
  · exact .inl (arenaBase_le pool hlt)
  · exact .inr (arenaBase_le pool hgt)

namespace Geometry

theorem lt_capacity (hg : pool.Geometry) (h : i < pool.arenaCount.toNat) : i < pool.capacity :=
  Nat.lt_of_lt_of_le h (Nat.le_trans hg.count_le hg.tabled)

/-- No arena is at null. -/
theorem toNat_base_ne (hg : pool.Geometry) (h : i < pool.arenaCount.toNat) :
    (pool.record i).base.toNat ≠ 0 := by
  rw [hg.base i h]
  exact Nat.ne_of_gt (Nat.lt_of_lt_of_le hg.positive (Nat.le_add_right _ _))

/-- An arena that is allocated ends within the address space. -/
theorem arenaEnd_lt (hg : pool.Geometry) (h : i < pool.arenaCount.toNat) :
    pool.arenaBase i + pool.arenaSize.toNat < 2 ^ 64 := by
  rw [← arenaBase_succ]
  exact Nat.lt_of_le_of_lt (arenaBase_le pool (Nat.le_trans h hg.count_le)) hg.span

/-- The arenas that are allocated end where the lookup takes them to. -/
theorem toNat_end (hg : pool.Geometry) : (pool.arenaPool + pool.arenaCount * pool.arenaSize).toNat =
    pool.arenaBase pool.arenaCount.toNat := by
  have htotal : pool.arenaPool.toNat + pool.arenaCount.toNat * pool.arenaSize.toNat < 2 ^ 64 :=
    Nat.lt_of_le_of_lt (arenaBase_le pool hg.count_le) hg.span
  rw [UInt64.toNat_add, UInt64.toNat_mul, Nat.add_mod_mod, Nat.mod_eq_of_lt htotal, arenaBase]

/-- **The arena an address is in.** -/
theorem getArena_eq (hg : pool.Geometry) (h : i < pool.arenaCount.toNat) {pointer : UInt64}
    (hle : pool.arenaBase i ≤ pointer.toNat)
    (hlt : pointer.toNat < pool.arenaBase i + pool.arenaSize.toNat) :
    pool.getArena pointer = some i := by
  have hlast := arenaBase_le pool (Nat.succ_le_of_lt h)
  rw [arenaBase_succ] at hlast
  have htop := hg.toNat_end
  have hbegin : pool.arenaPool.toNat ≤ pool.arenaBase i := Nat.le_add_right _ _
  have hquot : ((pointer - pool.arenaPool) / pool.arenaSize).toNat = i := by
    rw [UInt64.toNat_div, UInt64.toNat_sub_of_le _ _ (UInt64.le_iff_toNat_le.mpr (by omega))]
    rw [arenaBase] at hle hlt
    refine Nat.div_eq_of_lt_le (by omega) ?_
    rw [Nat.succ_mul]
    omega
  unfold getArena
  rw [if_pos, hquot]
  rw [ge_iff_le, UInt64.le_iff_toNat_le, UInt64.lt_iff_toNat_lt, htop]
  omega

/-- **The lookup finds the arenas that are allocated**, and nothing else. -/
theorem getArena_iff (hg : pool.Geometry) (hsize : 0 < pool.arenaSize.toNat) (pointer : UInt64)
    (i : Nat) : pool.getArena pointer = some i ↔ i < pool.arenaCount.toNat ∧
      pool.arenaBase i ≤ pointer.toNat ∧
        pointer.toNat < pool.arenaBase i + pool.arenaSize.toNat := by
  refine ⟨fun h => ?_, fun h => hg.getArena_eq h.1 h.2.1 h.2.2⟩
  unfold getArena at h
  dsimp only at h
  split_ifs at h with hin
  obtain ⟨hbegin, hend⟩ := hin
  rw [ge_iff_le, UInt64.le_iff_toNat_le] at hbegin
  rw [UInt64.lt_iff_toNat_lt, hg.toNat_end, arenaBase] at hend
  obtain rfl := Option.some.inj h
  rw [UInt64.toNat_div, UInt64.toNat_sub_of_le _ _ (UInt64.le_iff_toNat_le.mpr hbegin), arenaBase]
  have hle := Nat.div_mul_le_self (pointer.toNat - pool.arenaPool.toNat) pool.arenaSize.toNat
  have hlt := Nat.lt_div_mul_add hsize (a := pointer.toNat - pool.arenaPool.toNat)
  refine ⟨Nat.div_lt_of_lt_mul ?_, by omega, by omega⟩
  rw [Nat.mul_comm]
  omega

end Geometry

/-! ## What the pool does -/

/-- The `next` of a record. -/
def link (pool : MemoryArenaPool) (i : Nat) : Option Nat := (pool.record i).next

/-- The pool after `allocate_arena` has put a new arena at the head of the free list. -/
def withArena (pool : MemoryArenaPool) (region : MemoryRegion) : MemoryArenaPool :=
  let i := pool.arenaCount.toNat
  let record := { pool.record i with
    base := pool.arenaPool + pool.arenaCount * pool.arenaSize
    next := pool.nextFreeArena }
  { pool.set i record with
    memoryRegion := region
    nextFreeArena := some i
    arenaCount := pool.arenaCount + 1 }

/-- What `allocate_arena` makes of a pool: it grows the region, and may have a new arena. -/
inductive Grown (pool : MemoryArenaPool) : MemoryArenaPool → Prop
  | region (region : MemoryRegion) : Grown pool { pool with memoryRegion := region }
  | arena (region : MemoryRegion) (h : pool.arenaCount.toNat < pool.arenaReserved.toNat) :
    Grown pool (pool.withArena region)

theorem toNat_arenaCount_withArena (h : pool.arenaCount.toNat < pool.arenaReserved.toNat)
    (region : MemoryRegion) :
    (pool.withArena region).arenaCount.toNat = pool.arenaCount.toNat + 1 := by
  have hreserved := pool.arenaReserved.toNat_lt
  show (pool.arenaCount + 1).toNat = _
  rw [UInt64.toNat_add, UInt64.toNat_one, Nat.mod_eq_of_lt (by omega)]

theorem record_withArena (h : pool.arenaCount.toNat < pool.capacity) (region : MemoryRegion) :
    (pool.withArena region).record = Function.update pool.record pool.arenaCount.toNat
      { pool.record pool.arenaCount.toNat with
        base := pool.arenaPool + pool.arenaCount * pool.arenaSize
        next := pool.nextFreeArena } :=
  record_set h

theorem Geometry.record_withArena (hg : pool.Geometry)
    (h : pool.arenaCount.toNat < pool.arenaReserved.toNat) (region : MemoryRegion) :
    (pool.withArena region).record = Function.update pool.record pool.arenaCount.toNat
      { pool.record pool.arenaCount.toNat with
        base := pool.arenaPool + pool.arenaCount * pool.arenaSize
        next := pool.nextFreeArena } :=
  MemoryArenaPool.record_withArena (Nat.lt_of_lt_of_le h hg.tabled) region

/-- The arena that is added has a record. -/
theorem Geometry.lt_capacity_withArena (hg : pool.Geometry)
    (h : pool.arenaCount.toNat < pool.arenaReserved.toNat) (region : MemoryRegion) :
    pool.arenaCount.toNat < (pool.withArena region).capacity := by
  have hsame : (pool.withArena region).capacity = pool.capacity := capacity_set
  rw [hsame]
  exact Nat.lt_of_lt_of_le h hg.tabled

theorem Geometry.grown (hg : pool.Geometry) (h : Grown pool pool') : pool'.Geometry := by
  cases h with
  | region region => exact ⟨hg.positive, hg.span, hg.count_le, hg.tabled, hg.base, hg.zero⟩
  | arena region hlt =>
    have hcount := toNat_arenaCount_withArena hlt region
    have hrecord := hg.record_withArena hlt region
    have hcapacity : (pool.withArena region).capacity = pool.capacity := capacity_set
    refine ⟨hg.positive, hg.span, ?_, ?_, fun i hi => ?_, fun i hi => ?_⟩
    · rw [hcount]
      exact hlt
    · rw [hcapacity]
      exact hg.tabled
    · rw [hrecord]
      rw [hcount] at hi
      by_cases heq : i = pool.arenaCount.toNat
      · have hbase : pool.arenaPool.toNat + pool.arenaCount.toNat * pool.arenaSize.toNat < 2 ^ 64 :=
          Nat.lt_of_le_of_lt (arenaBase_le pool hg.count_le) hg.span
        rw [heq, Function.update_self]
        dsimp only
        rw [UInt64.toNat_add, UInt64.toNat_mul, Nat.add_mod_mod, Nat.mod_eq_of_lt hbase]
        rfl
      · rw [Function.update_of_ne heq]
        exact hg.base i (by omega)
    · rw [hcount] at hi
      rw [hrecord, Function.update_of_ne (by omega)]
      exact hg.zero i (by omega)

theorem Grown.arenaPool (h : Grown pool pool') : pool'.arenaPool = pool.arenaPool := by
  cases h with
  | region region => rfl
  | arena region hlt => rfl

theorem Grown.arenaSize (h : Grown pool pool') : pool'.arenaSize = pool.arenaSize := by
  cases h with
  | region region => rfl
  | arena region hlt => rfl

/-- A record that is allocated stays as it is. -/
theorem Geometry.record_grown (hg : pool.Geometry) (h : Grown pool pool')
    (hi : i < pool.arenaCount.toNat) : pool'.record i = pool.record i := by
  cases h with
  | region region => rfl
  | arena region hlt =>
    rw [hg.record_withArena hlt region, Function.update_of_ne (Nat.ne_of_lt hi)]

/-- The head of the free list is linked to none if it was the last one, or is new. -/
theorem Geometry.link_grown (hg : pool.Geometry) (h : Grown pool pool')
    (hsame : pool.nextFreeArena ≠ none → pool' = pool) (hi : pool'.nextFreeArena = some i)
    (hlast : pool.nextFreeArena.bind pool.link = none) : pool'.link i = none := by
  cases hnext : pool.nextFreeArena with
  | some j =>
    obtain rfl := hsame (by simp [hnext])
    rw [hnext] at hi
    obtain rfl := Option.some.inj hi
    rw [hnext] at hlast
    exact hlast
  | none =>
    cases h with
    | region region => exact nomatch hnext.symm.trans hi
    | arena region hlt =>
      obtain rfl : pool.arenaCount.toNat = i := Option.some.inj hi
      rw [link, hg.record_withArena hlt region, Function.update_self]
      exact hnext

/-- A record is assigned that keeps its base. -/
theorem Geometry.set (hg : pool.Geometry) (hi : i < pool.arenaCount.toNat)
    (hbase : r.base = (pool.record i).base) : (pool.set i r).Geometry := by
  have hcapacity := hg.lt_capacity hi
  refine ⟨hg.positive, hg.span, hg.count_le, ?_, fun j hj => ?_, fun j hj => ?_⟩
  · rw [capacity_set]
    exact hg.tabled
  · rw [record_set hcapacity]
    by_cases heq : j = i
    · rw [heq, Function.update_self, hbase]
      exact hg.base i hi
    · rw [Function.update_of_ne heq]
      exact hg.base j hj
  · have hlt : i < j := Nat.lt_of_lt_of_le hi hj
    rw [record_set hcapacity, Function.update_of_ne (Nat.ne_of_gt hlt)]
    exact hg.zero j hj

/-- **`allocate_arena`** is defined, and grows the pool. -/
theorem Geometry.allocateArena (hg : pool.Geometry) (p : Platform π) (env : π) :
    ∃ ok pool' env', pool.allocateArena p env = some (ok, pool', env') ∧ Grown pool pool' ∧
      (ok = true → ∃ i, pool'.nextFreeArena = some i) := by
  unfold MemoryArenaPool.allocateArena
  by_cases hlt : pool.arenaCount < pool.arenaReserved
  · rw [if_pos hlt]
    obtain ⟨base, region, env'⟩ := pool.memoryRegion.grow p pool.arenaSize env
    dsimp only
    by_cases hbase : base ≠ 0
    · have hlt' := UInt64.lt_iff_toNat_lt.mp hlt
      have hcapacity : pool.arenaCount.toNat <
          ({ pool with memoryRegion := region } : MemoryArenaPool).capacity :=
        Nat.lt_of_lt_of_le hlt' hg.tabled
      rw [if_pos hbase, modifyRecord_eq hcapacity]
      exact ⟨true, _, env', rfl, .arena region hlt', fun _ => ⟨_, rfl⟩⟩
    · rw [if_neg hbase]
      exact ⟨false, _, env', rfl, .region region, nofun⟩
  · rw [if_neg hlt]
    exact ⟨false, _, env, rfl, .region pool.memoryRegion, nofun⟩

/-- **What `allocate_arena` does where it is defined**: nothing, or the region does not grow, or it
grows and the next record of the table is assigned. -/
theorem allocateArena_eq_some {ok : Bool}
    (h : pool.allocateArena p env = some (ok, pool', env')) :
    (¬ pool.arenaCount < pool.arenaReserved ∧ ok = false ∧ pool' = pool ∧ env' = env) ∨
      ((pool.memoryRegion.grow p pool.arenaSize env).1 = 0 ∧ ok = false ∧
        pool' = { pool with memoryRegion := (pool.memoryRegion.grow p pool.arenaSize env).2.1 } ∧
          env' = (pool.memoryRegion.grow p pool.arenaSize env).2.2) ∨
      (pool.arenaCount < pool.arenaReserved ∧ pool.arenaCount.toNat < pool.capacity ∧ ok = true ∧
        pool' = pool.withArena (pool.memoryRegion.grow p pool.arenaSize env).2.1 ∧
          env' = (pool.memoryRegion.grow p pool.arenaSize env).2.2) := by
  unfold MemoryArenaPool.allocateArena at h
  by_cases hlt : pool.arenaCount < pool.arenaReserved
  swap
  · rw [if_neg hlt] at h
    obtain ⟨rfl, rfl, rfl⟩ : false = ok ∧ pool = pool' ∧ env = env' := by simpa using h
    exact .inl ⟨hlt, rfl, rfl, rfl⟩
  rw [if_pos hlt] at h
  generalize pool.memoryRegion.grow p pool.arenaSize env = grown at h ⊢
  obtain ⟨base, region, env₁⟩ := grown
  dsimp only at h ⊢
  by_cases hbase : base = 0
  · rw [if_neg (not_not.mpr hbase)] at h
    obtain ⟨rfl, rfl, rfl⟩ : false = ok ∧ _ = pool' ∧ env₁ = env' := by simpa using h
    exact .inr (.inl ⟨hbase, rfl, rfl, rfl⟩)
  rw [if_pos hbase] at h
  obtain ⟨pool₁, hmodify, heq⟩ := Option.bind_eq_some_iff.mp h
  obtain ⟨t, ht, hi, -⟩ := modifyRecord_eq_some.mp hmodify
  have hcapacity : pool.arenaCount.toNat <
      ({ pool with memoryRegion := region } : MemoryArenaPool).capacity := by
    rw [capacity, ht]
    exact hi
  rw [modifyRecord_eq hcapacity] at hmodify
  obtain rfl := Option.some.inj hmodify
  obtain ⟨rfl, rfl, rfl⟩ : true = ok ∧ _ = pool' ∧ env₁ = env' := by simpa using heq
  exact .inr (.inr ⟨hlt, hcapacity, rfl, rfl, rfl⟩)

/-- The pool after the head of the free list is unlinked. -/
theorem unlinkArena_eq (hi : pool.nextFreeArena = some i) (h : i < pool.capacity) :
    pool.unlinkArena = some (i, { pool with nextFreeArena := pool.link i }) := by
  rw [unlinkArena, hi, Option.bind_eq_bind, Option.bind_some, getRecord_eq h]
  rfl

/-- **`take_arena`** takes the head of the free list, of the pool as it is or as it has grown. -/
theorem Geometry.takeArena (hg : pool.Geometry)
    (hfree : ∀ pool₁ i, Grown pool pool₁ → pool₁.nextFreeArena = some i → i < pool₁.capacity)
    (p : Platform π) (env : π) :
    ∃ record pool' env' pool₁, pool.takeArena p env = some (record, pool', env') ∧
      Grown pool pool₁ ∧ (pool.nextFreeArena ≠ none → pool₁ = pool) ∧
        ((record = none ∧ pool' = pool₁) ∨
          ∃ i, pool₁.nextFreeArena = some i ∧ record = some i ∧
            pool' = { pool₁ with nextFreeArena := pool₁.link i }) := by
  have hunlink : ∀ pool₁ i, Grown pool pool₁ → pool₁.nextFreeArena = some i →
      pool₁.unlinkArena = some (i, { pool₁ with nextFreeArena := pool₁.link i }) := by
    intro pool₁ i hgrown hi
    exact unlinkArena_eq hi (hfree pool₁ i hgrown hi)
  unfold MemoryArenaPool.takeArena
  cases hnext : pool.nextFreeArena with
  | none =>
    obtain ⟨ok, pool₁, env₁, halloc, hgrown, hok⟩ := hg.allocateArena p env
    rw [if_pos rfl, halloc, Option.bind_eq_bind, Option.bind_some]
    cases ok with
    | true =>
      obtain ⟨i, hi⟩ := hok rfl
      dsimp only
      rw [if_pos rfl, hunlink pool₁ i hgrown hi]
      exact ⟨some i, _, env₁, pool₁, rfl, hgrown, fun h => absurd rfl h, .inr ⟨i, hi, rfl, rfl⟩⟩
    | false => exact ⟨none, _, env₁, pool₁, rfl, hgrown, fun h => absurd rfl h, .inl ⟨rfl, rfl⟩⟩
  | some i =>
    have hgrown : Grown pool pool := .region pool.memoryRegion
    rw [if_neg (by simp), hunlink pool i hgrown hnext]
    exact ⟨some i, _, env, pool, rfl, hgrown, fun _ => rfl, .inr ⟨i, hnext, rfl, rfl⟩⟩

/-- **`reserve`** is defined, and keeps what `allocate_arena` is defined at and keeps. -/
theorem reserve_of_allocateArena {P : MemoryArenaPool → Prop} (p : Platform π)
    (halloc : ∀ pool env, P pool → ∃ ok pool' env',
      pool.allocateArena p env = some (ok, pool', env') ∧ P pool')
    (h : P pool) (count : UInt64) (env : π) :
    ∃ n pool' env', pool.reserve p count env = some (n, pool', env') ∧ P pool' := by
  unfold MemoryArenaPool.reserve
  generalize (0 : UInt64) = reserved
  induction count.toNat generalizing reserved pool env with
  | zero => exact ⟨reserved, pool, env, rfl, h⟩
  | succ count ih =>
    obtain ⟨ok, pool₁, env₁, hrun, h₁⟩ := halloc pool env h
    rw [reserveLoop, hrun, Option.bind_eq_bind, Option.bind_some]
    cases ok with
    | true => exact ih h₁ env₁ (reserved + 1)
    | false => exact ⟨reserved, pool₁, env₁, rfl, h₁⟩

/-- `reserve` does what it does by growing the pool. -/
theorem Geometry.reserve {P : MemoryArenaPool → Prop} (hgeometry : ∀ pool, P pool → pool.Geometry)
    (hP : ∀ pool pool', P pool → Grown pool pool' → P pool') (h : P pool) (p : Platform π)
    (count : UInt64) (env : π) :
    ∃ n pool' env', pool.reserve p count env = some (n, pool', env') ∧ P pool' := by
  refine reserve_of_allocateArena p (fun pool env h => ?_) h count env
  obtain ⟨ok, pool', env', halloc, hgrown, -⟩ := (hgeometry pool h).allocateArena p env
  exact ⟨ok, pool', env', halloc, hP pool pool' h hgrown⟩

/-- **`give_arena`** clears the record and puts it at the head of the free list. -/
theorem giveArena_eq (h : i < pool.capacity) : pool.giveArena i =
    some { pool.set i { pool.record i with
      allocator := 0
      freeNodeCount := 0
      freeNodeList := 0
      previous := none
      next := if pool.nextFreeArena = none then pool.link i else pool.nextFreeArena } with
      nextFreeArena := some i } := by
  rw [giveArena, modifyRecord_eq h]
  rfl

/-! ## The free list -/

/-- **The free list is of records that are allocated.** -/
structure FreeListed (pool : MemoryArenaPool) : Prop where
  head : ∀ i, pool.nextFreeArena = some i → i < pool.arenaCount.toNat
  links : ∀ j < pool.arenaCount.toNat, ∀ i, pool.link j = some i → i < pool.arenaCount.toNat

theorem FreeListed.withArena (h : pool.FreeListed)
    (hcapacity : pool.arenaCount.toNat < pool.capacity)
    (hlt : pool.arenaCount.toNat < pool.arenaReserved.toNat) (region : MemoryRegion) :
    (pool.withArena region).FreeListed := by
  have hcount := toNat_arenaCount_withArena hlt region
  refine ⟨fun i hi => ?_, fun j hj i hi => ?_⟩
  · obtain rfl : pool.arenaCount.toNat = i := Option.some.inj hi
    omega
  · rw [link, record_withArena hcapacity] at hi
    by_cases hnew : j = pool.arenaCount.toNat
    · rw [hnew, Function.update_self] at hi
      have := h.head i hi
      omega
    · rw [Function.update_of_ne hnew] at hi
      have := h.links j (by omega) i hi
      omega

theorem FreeListed.unlinkArena (h : pool.FreeListed) (hi : i < pool.arenaCount.toNat) :
    FreeListed { pool with nextFreeArena := pool.link i } :=
  ⟨h.links i hi, h.links⟩

theorem FreeListed.giveArena (h : pool.FreeListed) (hcapacity : i < pool.capacity)
    (hlt : i < pool.arenaCount.toNat) (hrun : pool.giveArena i = some pool') :
    pool'.FreeListed := by
  rw [giveArena_eq hcapacity] at hrun
  obtain rfl := Option.some.inj hrun
  refine ⟨fun j hj => ?_, fun j hj k hk => ?_⟩
  · obtain rfl := Option.some.inj hj
    exact hlt
  · change ((pool.set i _).record j).next = some k at hk
    rw [record_set hcapacity] at hk
    by_cases hsame : j = i
    · rw [hsame, Function.update_self] at hk
      dsimp only at hk
      split_ifs at hk
      · exact h.links i hlt k hk
      · exact h.head k hk
    · rw [Function.update_of_ne hsame] at hk
      exact h.links j hj k hk

/-- **The geometry of a new pool**, if it could be built in the address space. -/
theorem geometry_create {arenaSizeHint arenaCountHint : UInt64}
    (hbuilt : (create p arenaSizeHint arenaCountHint env).1.records.isSome)
    (hcount : arenaCountHint.toNat * arenaRecordSize.toNat < 2 ^ 64)
    (hpositive : 0 < (create p arenaSizeHint arenaCountHint env).1.arenaPool.toNat)
    (hspan : (create p arenaSizeHint arenaCountHint env).1.arenaPool.toNat +
      arenaCountHint.toNat * arenaSizeHint.toNat < 2 ^ 64) :
    (create p arenaSizeHint arenaCountHint env).1.Geometry := by
  unfold create at *
  dsimp only at *
  split_ifs at * with hbase
  · exact absurd hbuilt (by simp)
  · refine ⟨hpositive, hspan, Nat.zero_le _, ?_, nofun, fun _ _ => rfl⟩
    show arenaCountHint.toNat ≤ (recordSize arenaCountHint / arenaRecordSize).toNat
    rw [UInt64.toNat_div, Nat.le_div_iff_mul_le (by decide)]
    rw [recordSize, Library.Bits.toNat_max, UInt64.toNat_mul, Nat.mod_eq_of_lt hcount]
    exact Nat.le_max_right _ _

end Hologine.Memory.MemoryArenaPool
