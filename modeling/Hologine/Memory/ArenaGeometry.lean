import Hologine.Memory.ArenaRecords

/-!
# The arenas and their region

Where the arenas of a pool are, in every run of `reserve`, `take_arena` and `give_arena`. The
platform may refuse to commit pages at any call, and any record that is allocated may be given, held
or not.

* `MemoryArenaPool.Laid` is what lasts: the geometry, the size that the region has grown to, and
  that the free list is of records that are allocated.
* `Laid.allocateArena_cases`: an arena is allocated with the region grown by its size, or nothing
  changes.
* `PoolRun.run_arranged`: in every run the arenas lie one after the other behind the records, fill
  the region as far as it has grown, stay where they are, and are what the lookup finds.
-/

namespace Hologine.Memory

open Hologine.Library Hologine.Library.Run

variable {π : Type}

namespace MemoryArenaPool

/-- **How the arenas of a pool are arranged**, the records being at the start of its region. -/
structure Arranged (pool : MemoryArenaPool) : Prop where
  count_le : pool.arenaCount ≤ pool.arenaReserved
  base : ∀ i < pool.arenaCount.toNat,
    (pool.record i).base.toNat = pool.arenaPool.toNat + i * pool.arenaSize.toNat
  currentSize : (recordSize pool.arenaReserved).toNat +
    pool.arenaCount.toNat * pool.arenaSize.toNat = pool.memoryRegion.currentSize.toNat
  apart : ∀ i < pool.arenaCount.toNat, ∀ j < pool.arenaCount.toNat, i ≠ j →
    (pool.record i).base.toNat + pool.arenaSize.toNat ≤ (pool.record j).base.toNat ∨
      (pool.record j).base.toNat + pool.arenaSize.toNat ≤ (pool.record i).base.toNat
  behind : ∀ i < pool.arenaCount.toNat,
    pool.memoryRegion.memory.toNat + (recordSize pool.arenaReserved).toNat ≤
      (pool.record i).base.toNat
  getArena : ∀ pointer i, pool.getArena pointer = some i ↔ i < pool.arenaCount.toNat ∧
    (pool.record i).base.toNat ≤ pointer.toNat ∧
      pointer.toNat < (pool.record i).base.toNat + pool.arenaSize.toNat

/-- **The arenas of a pool are in another, where they were.** -/
def KeepsBases (pool pool' : MemoryArenaPool) : Prop :=
  ∀ i < pool.arenaCount.toNat,
    i < pool'.arenaCount.toNat ∧ (pool'.record i).base = (pool.record i).base

end MemoryArenaPool

namespace PoolRun

variable (p : Platform π)

/-- What is given is a record that is allocated. -/
def GivesAllocated (s : PoolRun π) : ArenaCall → Prop
  | .give record => record < s.pool.arenaCount.toNat
  | _ => True

instance (s : PoolRun π) (call : ArenaCall) : Decidable (s.GivesAllocated call) :=
  match call with
  | .give record => inferInstanceAs (Decidable (record < s.pool.arenaCount.toNat))
  | .reserve _ => isTrue trivial
  | .take => isTrue trivial

/-- **A call leaves the arenas arranged**, and where they were. -/
def KeepsArranged (s : PoolRun π) (call : ArenaCall) : Prop :=
  ∃ result s', s.step p call = some (result, s') ∧ s'.pool.Arranged ∧ s.pool.KeepsBases s'.pool

end PoolRun

/-! ## What lasts -/

namespace MemoryArenaPool

variable {p : Platform π} {pool pool' : MemoryArenaPool} {env : π} {i : Nat}

/-- **What lasts in a run**: the region has a memory and has grown by the records and the arenas,
the arenas start behind the records, and the free list is of records that are allocated. -/
structure Laid (pool : MemoryArenaPool) : Prop where
  geometry : pool.Geometry
  memory : pool.memoryRegion.memory ≠ 0
  arenaPool : pool.arenaPool.toNat =
    pool.memoryRegion.memory.toNat + (recordSize pool.arenaReserved).toNat
  currentSize : pool.memoryRegion.currentSize.toNat =
    (recordSize pool.arenaReserved).toNat + pool.arenaCount.toNat * pool.arenaSize.toNat
  head : ∀ i, pool.nextFreeArena = some i → i < pool.arenaCount.toNat
  links : ∀ j < pool.arenaCount.toNat, ∀ i, pool.link j = some i → i < pool.arenaCount.toNat

/-- One pool has the arenas of another, and maybe more. -/
structure Extends (pool pool' : MemoryArenaPool) : Prop where
  arenaPool : pool'.arenaPool = pool.arenaPool
  arenaSize : pool'.arenaSize = pool.arenaSize
  count_le : pool.arenaCount.toNat ≤ pool'.arenaCount.toNat

theorem Extends.refl (pool : MemoryArenaPool) : pool.Extends pool := ⟨rfl, rfl, Nat.le_refl _⟩

theorem Extends.trans {pool'' : MemoryArenaPool} (h : pool.Extends pool')
    (h' : pool'.Extends pool'') : pool.Extends pool'' :=
  ⟨h'.arenaPool.trans h.arenaPool, h'.arenaSize.trans h.arenaSize,
    Nat.le_trans h.count_le h'.count_le⟩

/-- **What is laid is arranged.** -/
theorem Laid.arranged (h : pool.Laid) (hsize : 0 < pool.arenaSize.toNat) : pool.Arranged where
  count_le := UInt64.le_iff_toNat_le.mpr h.geometry.count_le
  base := h.geometry.base
  currentSize := h.currentSize.symm
  apart i hi j hj hne := by
    rw [h.geometry.base i hi, h.geometry.base j hj]
    exact arenas_apart pool hne
  behind i hi := by
    rw [h.geometry.base i hi, ← h.arenaPool]
    exact Nat.le_add_right _ _
  getArena pointer i := by
    rw [h.geometry.getArena_iff hsize]
    refine and_congr_right fun hi => ?_
    rw [h.geometry.base i hi]

/-- Arenas that are laid stay where they are as long as their pool is extended. -/
theorem Laid.keepsBases (h : pool.Laid) (h' : pool'.Laid) (hextends : pool.Extends pool') :
    pool.KeepsBases pool' := by
  intro i hi
  have hi' := Nat.lt_of_lt_of_le hi hextends.count_le
  refine ⟨hi', UInt64.toNat_inj.mp ?_⟩
  rw [h.geometry.base i hi, h'.geometry.base i hi', arenaBase, arenaBase, hextends.arenaPool,
    hextends.arenaSize]

/-! ## The operations -/

/-- The region after another arena. -/
def grownRegion (pool : MemoryArenaPool) : MemoryRegion :=
  { pool.memoryRegion with currentSize := pool.arenaSize + pool.memoryRegion.currentSize }

/-- **What `allocate_arena` does**: nothing, or it grows the region by the size of an arena and
allocates one. -/
theorem Laid.allocateArena_cases (h : pool.Laid) (p : Platform π) (env : π) :
    ∃ ok pool' env', pool.allocateArena p env = some (ok, pool', env') ∧
      ((ok = false ∧ pool' = pool) ∨
        (ok = true ∧ pool.arenaCount.toNat < pool.arenaReserved.toNat ∧
          pool' = pool.withArena pool.grownRegion)) := by
  unfold MemoryArenaPool.allocateArena
  by_cases hlt : pool.arenaCount < pool.arenaReserved
  · rw [if_pos hlt]
    obtain ⟨memory, hsame, hcases⟩ :=
      pool.memoryRegion.grow_cases p pool.arenaSize env
    obtain rfl := hsame h.memory
    rcases hgrow : pool.memoryRegion.grow p pool.arenaSize env with ⟨base, region, env'⟩
    rw [hgrow] at hcases
    dsimp only at hcases ⊢
    rcases hcases with ⟨hbase, hregion⟩ | ⟨-, hbase, -, hregion⟩
    · rw [if_neg (not_not.mpr hbase), hregion]
      exact ⟨false, pool, env', rfl, .inl ⟨rfl, rfl⟩⟩
    · have hlt' := UInt64.lt_iff_toNat_lt.mp hlt
      have hcapacity : pool.arenaCount.toNat <
          ({ pool with memoryRegion := region } : MemoryArenaPool).capacity :=
        Nat.lt_of_lt_of_le hlt' h.geometry.tabled
      rw [if_pos (hbase ▸ h.memory), modifyRecord_eq hcapacity, hregion]
      exact ⟨true, _, env', rfl, .inr ⟨rfl, hlt', rfl⟩⟩
  · rw [if_neg hlt]
    exact ⟨false, pool, env, rfl, .inl ⟨rfl, rfl⟩⟩

theorem Laid.freeListed (h : pool.Laid) : pool.FreeListed := ⟨h.head, h.links⟩

/-- **Another arena is laid**, behind the others. -/
theorem Laid.withArena (h : pool.Laid) (hlt : pool.arenaCount.toNat < pool.arenaReserved.toNat) :
    (pool.withArena pool.grownRegion).Laid ∧ pool.Extends (pool.withArena pool.grownRegion) := by
  have hcount := toNat_arenaCount_withArena hlt pool.grownRegion
  have hfree := h.freeListed.withArena (Nat.lt_of_lt_of_le hlt h.geometry.tabled) hlt
    pool.grownRegion
  refine ⟨⟨h.geometry.grown (.arena _ hlt), h.memory, h.arenaPool, ?_, hfree.head, hfree.links⟩,
    rfl, rfl, by omega⟩
  -- the sum of the sizes does not wrap, as the arena lies in the address space
  have hsum : pool.arenaSize.toNat + pool.memoryRegion.currentSize.toNat =
      (recordSize pool.arenaReserved).toNat +
        (pool.arenaCount.toNat + 1) * pool.arenaSize.toNat := by
    rw [h.currentSize, Nat.succ_mul]
    omega
  have hend :
      pool.arenaPool.toNat + (pool.arenaCount.toNat + 1) * pool.arenaSize.toNat < 2 ^ 64 :=
    Nat.lt_of_le_of_lt (arenaBase_le pool hlt) h.geometry.span
  have hwhere := h.arenaPool
  rw [hcount]
  show (pool.arenaSize + pool.memoryRegion.currentSize).toNat = _
  rw [UInt64.toNat_add, hsum, Nat.mod_eq_of_lt (by omega)]
  rfl

/-- `allocate_arena` is defined, and keeps the pool laid. -/
theorem Laid.allocateArena (h : pool.Laid) (p : Platform π) (env : π) :
    ∃ ok pool' env', pool.allocateArena p env = some (ok, pool', env') ∧ pool'.Laid ∧
      pool.Extends pool' ∧ (ok = true → ∃ i, pool'.nextFreeArena = some i) := by
  obtain ⟨ok, pool', env', hrun, hcases⟩ := h.allocateArena_cases p env
  refine ⟨ok, pool', env', hrun, ?_⟩
  rcases hcases with ⟨rfl, rfl⟩ | ⟨rfl, hlt, rfl⟩
  · exact ⟨h, .refl _, nofun⟩
  · obtain ⟨hlaid, hextends⟩ := h.withArena hlt
    exact ⟨hlaid, hextends, fun _ => ⟨_, rfl⟩⟩

/-- **`reserve` keeps the pool laid.** -/
theorem Laid.reserve (h : pool.Laid) (p : Platform π) (count : UInt64) (env : π) :
    ∃ n pool' env', pool.reserve p count env = some (n, pool', env') ∧ pool'.Laid ∧
      pool.Extends pool' := by
  refine reserve_of_allocateArena p (P := fun pool' => pool'.Laid ∧ pool.Extends pool')
    (fun pool₁ env h₁ => ?_) ⟨h, .refl pool⟩ count env
  obtain ⟨ok, pool₂, env₂, hrun, hlaid, hextends, -⟩ := h₁.1.allocateArena p env
  exact ⟨ok, pool₂, env₂, hrun, hlaid, h₁.2.trans hextends⟩

/-- The head of the free list is unlinked. -/
theorem Laid.unlinkArena (h : pool.Laid) (hi : pool.nextFreeArena = some i) :
    ∃ pool', pool.unlinkArena = some (i, pool') ∧ pool'.Laid ∧ pool.Extends pool' := by
  have hlt := h.head i hi
  have hfree := h.freeListed.unlinkArena hlt
  have hg := h.geometry
  exact ⟨_, unlinkArena_eq hi (hg.lt_capacity hlt),
    ⟨⟨hg.positive, hg.span, hg.count_le, hg.tabled, hg.base, hg.zero⟩, h.memory, h.arenaPool,
      h.currentSize, hfree.head, hfree.links⟩, rfl, rfl, Nat.le_refl _⟩

/-- **`take_arena` keeps the pool laid.** -/
theorem Laid.takeArena (h : pool.Laid) (p : Platform π) (env : π) :
    ∃ record pool' env', pool.takeArena p env = some (record, pool', env') ∧ pool'.Laid ∧
      pool.Extends pool' := by
  unfold MemoryArenaPool.takeArena
  cases hnext : pool.nextFreeArena with
  | none =>
    obtain ⟨ok, pool₁, env₁, hrun, hlaid, hextends, hok⟩ := h.allocateArena p env
    rw [if_pos rfl, hrun, Option.bind_eq_bind, Option.bind_some]
    cases ok with
    | true =>
      obtain ⟨i, hi⟩ := hok rfl
      obtain ⟨pool₂, hunlink, hlaid₂, hextends₂⟩ := hlaid.unlinkArena hi
      dsimp only
      rw [if_pos rfl, hunlink]
      exact ⟨some i, pool₂, env₁, rfl, hlaid₂, hextends.trans hextends₂⟩
    | false => exact ⟨none, pool₁, env₁, rfl, hlaid, hextends⟩
  | some i =>
    obtain ⟨pool₁, hunlink, hlaid, hextends⟩ := h.unlinkArena hnext
    rw [if_neg (by simp), hunlink]
    exact ⟨some i, pool₁, env, rfl, hlaid, hextends⟩

/-- **`give_arena` keeps the pool laid.** -/
theorem Laid.giveArena (h : pool.Laid) (hlt : i < pool.arenaCount.toNat) :
    ∃ pool', pool.giveArena i = some pool' ∧ pool'.Laid ∧ pool.Extends pool' := by
  have hcapacity := h.geometry.lt_capacity hlt
  have hrun := giveArena_eq hcapacity
  have hfree := h.freeListed.giveArena hcapacity hlt hrun
  refine ⟨_, hrun, ?_, rfl, rfl, Nat.le_refl _⟩
  set record : ArenaRecord := { pool.record i with
    allocator := 0
    freeNodeCount := 0
    freeNodeList := 0
    previous := none
    next := if pool.nextFreeArena = none then pool.link i else pool.nextFreeArena }
  have hg : (pool.set i record).Geometry := h.geometry.set hlt rfl
  exact ⟨⟨hg.positive, hg.span, hg.count_le, hg.tabled, hg.base, hg.zero⟩, h.memory, h.arenaPool,
    h.currentSize, hfree.head, hfree.links⟩

variable {arenaSizeHint arenaCountHint : UInt64}

/-- A pool that could be built has its records at the start of its region, which has grown by
them. -/
theorem create_eq (hbuilt : (create p arenaSizeHint arenaCountHint env).1.records.isSome) :
    ∃ memory, memory ≠ 0 ∧ (create p arenaSizeHint arenaCountHint env).1 = {
      memoryRegion := ⟨recordSize arenaCountHint + arenaSizeHint * arenaCountHint,
        recordSize arenaCountHint, memory⟩
      records := some ⟨(recordSize arenaCountHint / arenaRecordSize).toNat, fun _ => .zero⟩
      nextFreeArena := none
      arenaPool := memory + recordSize arenaCountHint
      arenaSize := arenaSizeHint
      arenaReserved := arenaCountHint
      arenaCount := 0 } := by
  obtain ⟨memory, -, hcases⟩ := (MemoryRegion.create
    (recordSize arenaCountHint + arenaSizeHint * arenaCountHint)).grow_cases p
      (recordSize arenaCountHint) env
  unfold create at hbuilt ⊢
  dsimp only at hbuilt ⊢
  rcases hcases with ⟨hnull, -⟩ | ⟨hmemory, heq, -, hregion⟩
  · rw [if_pos hnull] at hbuilt
    exact absurd hbuilt nofun
  · rw [if_neg (heq ▸ hmemory), heq, hregion]
    refine ⟨memory, hmemory, ?_⟩
    rw [MemoryRegion.create, UInt64.add_zero]

/-- **A new pool is laid**, if its region could be grown by the records and lies in the address
space. -/
theorem laid_create
    (hbuilt : (create p arenaSizeHint arenaCountHint env).1.records.isSome)
    (hcount : arenaCountHint.toNat * arenaRecordSize.toNat < 2 ^ 64)
    (hspace : (create p arenaSizeHint arenaCountHint env).1.memoryRegion.memory.toNat +
      (recordSize arenaCountHint).toNat + arenaCountHint.toNat * arenaSizeHint.toNat < 2 ^ 64) :
    (create p arenaSizeHint arenaCountHint env).1.Laid := by
  obtain ⟨memory, hmemory, heq⟩ := create_eq hbuilt
  have hgeometry := geometry_create hbuilt hcount
  rw [heq] at hspace hgeometry ⊢
  dsimp only at hspace hgeometry
  have hpositive := Bits.toNat_pos hmemory
  have hwhere : (memory + recordSize arenaCountHint).toNat =
      memory.toNat + (recordSize arenaCountHint).toNat := by
    rw [UInt64.toNat_add, Nat.mod_eq_of_lt (by omega)]
  refine ⟨hgeometry (by omega) (by omega), hmemory, hwhere, ?_, nofun, nofun⟩
  exact (Nat.zero_mul arenaSizeHint.toNat).symm ▸ rfl

end MemoryArenaPool

/-! ## Runs -/

namespace PoolRun

variable {p : Platform π} {s s' : PoolRun π} {call : ArenaCall} {result : ArenaResult}

open MemoryArenaPool

/-- **What one call keeps.** -/
theorem laid_step (h : s.pool.Laid) (hlegal : s.GivesAllocated call) :
    ∃ result s', s.step p call = some (result, s') ∧ s'.pool.Laid ∧ s.pool.Extends s'.pool := by
  cases call with
  | reserve count =>
    obtain ⟨n, pool', env', hrun, hlaid⟩ := h.reserve p count s.env
    exact ⟨.reserved n, ⟨pool', env', s.held⟩, by rw [step, hrun]; rfl, hlaid⟩
  | take =>
    obtain ⟨record, pool', env', hrun, hlaid⟩ := h.takeArena p s.env
    exact ⟨.took record, ⟨pool', env', record.toList ++ s.held⟩, by rw [step, hrun]; rfl, hlaid⟩
  | give record =>
    obtain ⟨pool', hrun, hlaid⟩ := h.giveArena hlegal
    exact ⟨.gave, ⟨pool', s.env, s.held.erase record⟩, by rw [step, hrun]; rfl, hlaid⟩

theorem start_pool (p : Platform π) (arenaSizeHint arenaCountHint : UInt64) (env : π) :
    (start p arenaSizeHint arenaCountHint env).pool =
      (create p arenaSizeHint arenaCountHint env).1 := by
  unfold start
  rcases create p arenaSizeHint arenaCountHint env with ⟨pool, env'⟩
  rfl

/-- **In every run the arenas are arranged, and stay where they are.** -/
theorem run_arranged {arenaSizeHint arenaCountHint : UInt64} {env : π} (hsize : 0 < arenaSizeHint)
    (hbuilt : (create p arenaSizeHint arenaCountHint env).1.records.isSome)
    (hcount : arenaCountHint.toNat * arenaRecordSize.toNat < 2 ^ 64)
    (hspace : (create p arenaSizeHint arenaCountHint env).1.memoryRegion.memory.toNat +
      (recordSize arenaCountHint).toNat + arenaCountHint.toNat * arenaSizeHint.toNat < 2 ^ 64)
    (calls : List ArenaCall)
    (hlegal : Along (step p) GivesAllocated (start p arenaSizeHint arenaCountHint env) calls) :
    (start p arenaSizeHint arenaCountHint env).pool.Arranged ∧
      Along (step p) (KeepsArranged p) (start p arenaSizeHint arenaCountHint env) calls := by
  have hlaid : (start p arenaSizeHint arenaCountHint env).pool.Laid := by
    rw [start_pool]
    exact laid_create hbuilt hcount hspace
  have hpositive : 0 < (start p arenaSizeHint arenaCountHint env).pool.arenaSize.toNat := by
    obtain ⟨memory, -, heq⟩ := create_eq hbuilt
    rw [start_pool, heq]
    exact UInt64.lt_iff_toNat_lt.mp hsize
  refine ⟨hlaid.arranged hpositive, ?_⟩
  refine Along.of_defined (fun s => s.pool.Laid ∧ 0 < s.pool.arenaSize.toNat)
    (fun s call h hlegal => ?_) ⟨hlaid, hpositive⟩ hlegal
  obtain ⟨result, s', hstep, hlaid', hextends⟩ := laid_step h.1 hlegal
  have hpositive' : 0 < s'.pool.arenaSize.toNat := hextends.arenaSize ▸ h.2
  exact ⟨result, s', hstep, ⟨hlaid', hpositive'⟩, result, s', hstep, hlaid'.arranged hpositive',
    h.1.keepsBases hlaid' hextends⟩

/-- A run in which a record is taken, given, and given again. -/
theorem run_arranged_given_twice :
    (start Platform.granting 0x1000 2 ()).pool.Arranged ∧
      Along (step Platform.granting) (KeepsArranged Platform.granting)
        (start Platform.granting 0x1000 2 ()) [.reserve 1, .take, .give 0, .give 0, .take] :=
  run_arranged (by decide) rfl (by decide) (by decide) _ (by decide)

end PoolRun

end Hologine.Memory
