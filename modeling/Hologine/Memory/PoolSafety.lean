import Hologine.Library.Run
import Hologine.Memory.PoolInvariant

/-!
# The safety of pool allocators

Runs of all the pool allocators of an arena pool, in which clients give back only blocks that are
live and write only in them.

* `safe_of_sound`: in every run whose calls meet their conditions, every call is defined, and every
  block handed out lies in an arena of its allocator and overlaps no live block.
* `only_block_of_safe`: `deallocate` must be of the only live block of an arena.
* `not_safe`: the runs are not all safe.
-/

namespace Hologine.Memory

open Hologine.Library Hologine.Library.Run MemoryArenaPool

namespace PoolSystem

variable {π : Type} (p : Platform π)

/-- New pool allocators for objects of the sizes given, on a new arena pool. -/
def start (arenaSizeHint arenaCountHint : UInt64) (sizes : UInt64 → Option UInt64) (m : Memory)
    (env : π) : PoolSystem π :=
  let (pool, env) := MemoryArenaPool.create p arenaSizeHint arenaCountHint env
  { arenas := ⟨pool, m, env⟩
    allocators := fun self => (sizes self).map (PoolAllocator.create pool)
    live := fun _ => none }

/-- A call of an allocator there is, a block given back to the allocator it is from, or a write in
a live block. -/
def Legal (s : PoolSystem π) : PoolCall → Prop
  | .reserve _ => True
  | .allocate self _ => (s.allocators self).isSome
  | .deallocate self block => s.live block = some self
  | .write block offset bytes =>
    ∃ a ∈ (s.live block).bind s.allocators, offset + bytes.length ≤ a.objectSize.toNat

/-- **The condition**: of `allocate`, unless the size is refused, and of `deallocate`. -/
def Sound (s : PoolSystem π) : PoolCall → Prop
  | .allocate self size =>
    ∀ a ∈ s.allocators self, size ≤ a.objectSize → a.CanAllocate p self s.arenas
  | .deallocate self block => ∀ a ∈ s.allocators self, a.CanDeallocate s.arenas.pool block
  | _ => True

/-- What every call must do: it is defined, and a block that it hands out lies in an arena of the
allocator, and overlaps no live block. -/
def Safe (s : PoolSystem π) (call : PoolCall) : Prop :=
  ∃ block s', s.step p call = some (block, s') ∧ ∀ self size a, call = .allocate self size →
    s.allocators self = some a → block ≠ 0 →
      s'.arenas.pool.Holds self block a.objectSize.toNat ∧
        Apart (sizesOf s.allocators) s.live block a.objectSize.toNat

/-- The platform's part: the pool could be built, and what was reserved for it is in the address
space. -/
structure Placed (arenaSizeHint arenaCountHint : UInt64) (env : π) : Prop where
  built : (create p arenaSizeHint arenaCountHint env).1.records.isSome
  table : arenaCountHint.toNat * arenaRecordSize.toNat < 2 ^ 64
  positive : 0 < (create p arenaSizeHint arenaCountHint env).1.arenaPool.toNat
  span : (create p arenaSizeHint arenaCountHint env).1.arenaPool.toNat +
    arenaCountHint.toNat * arenaSizeHint.toNat < 2 ^ 64

instance (s : PoolSystem π) (call : PoolCall) : Decidable (s.Legal call) :=
  match call with
  | .reserve _ => isTrue trivial
  | .allocate self _ => inferInstanceAs (Decidable ((s.allocators self).isSome = true))
  | .deallocate self block => inferInstanceAs (Decidable (s.live block = some self))
  | .write block offset bytes => inferInstanceAs (Decidable (∃ a ∈ (s.live block).bind s.allocators,
      offset + bytes.length ≤ a.objectSize.toNat))

instance (s : PoolSystem π) (call : PoolCall) : Decidable (s.Sound p call) :=
  match call with
  | .allocate self size => inferInstanceAs (Decidable (∀ a ∈ s.allocators self,
      size ≤ a.objectSize → a.CanAllocate p self s.arenas))
  | .deallocate self block => inferInstanceAs (Decidable (∀ a ∈ s.allocators self,
      a.CanDeallocate s.arenas.pool block))
  | .reserve _ => isTrue trivial
  | .write _ _ _ => isTrue trivial

/-- The invariant between calls. -/
def Inv (s : PoolSystem π) : Prop :=
  PoolInv s.arenas.pool s.arenas.memory s.allocators s.live none

variable {p} {arenaSizeHint arenaCountHint : UInt64} {sizes : UInt64 → Option UInt64}
  {s : PoolSystem π} {env : π} {call : PoolCall}

/-- A start, from the arena pool that is built. -/
theorem start_eq (arenaSizeHint arenaCountHint : UInt64) (sizes : UInt64 → Option UInt64)
    (m : Memory) (env : π) : start p arenaSizeHint arenaCountHint sizes m env =
      ⟨⟨(create p arenaSizeHint arenaCountHint env).1, m,
          (create p arenaSizeHint arenaCountHint env).2⟩,
        fun self => (sizes self).map (PoolAllocator.create
          (create p arenaSizeHint arenaCountHint env).1), fun _ => none⟩ := rfl

/-- A new arena pool has no arena yet. -/
theorem empty_create (arenaSizeHint arenaCountHint : UInt64) (env : π) :
    (create p arenaSizeHint arenaCountHint env).1.arenaCount = 0 ∧
      (create p arenaSizeHint arenaCountHint env).1.nextFreeArena = none := by
  unfold create
  dsimp only
  split_ifs
  · exact ⟨rfl, rfl⟩
  · exact ⟨rfl, rfl⟩

/-- A new arena pool has the sizes that are asked for. -/
theorem hints_create (arenaSizeHint arenaCountHint : UInt64) (env : π) :
    (create p arenaSizeHint arenaCountHint env).1.arenaSize = arenaSizeHint ∧
      (create p arenaSizeHint arenaCountHint env).1.arenaReserved = arenaCountHint := by
  unfold create
  dsimp only
  split_ifs
  · exact ⟨rfl, rfl⟩
  · exact ⟨rfl, rfl⟩

/-- A new allocator for objects of a size that is not zero. -/
theorem regular_create (pool : MemoryArenaPool) {size : UInt64} (hsize : size ≠ 0) :
    (PoolAllocator.create pool size).Regular pool.arenaSize := by
  have hmax : (PoolAllocator.create pool size).objectSize.toNat = max size.toNat 24 :=
    Bits.toNat_max size freeNodeSize
  have hpos := Bits.toNat_pos hsize
  refine ⟨?_, fun hfit => ?_, rfl⟩
  · rw [hmax]
    exact Nat.le_max_right _ _
  · show 0 < (pool.arenaSize / size).toNat
    rw [UInt64.toNat_div]
    rw [hmax] at hfit
    exact Nat.div_pos (Nat.le_trans (Nat.le_max_left _ _) hfit) hpos

/-- **New allocators on a pool without an arena** have the invariant. -/
theorem inv_new {pool : MemoryArenaPool} (hg : pool.Geometry) (hcount : pool.arenaCount = 0)
    (hfree : pool.nextFreeArena = none)
    (hsizes : ∀ self size, sizes self = some size → self ≠ 0 ∧ size ≠ 0) (m : Memory) :
    PoolInv pool m (fun self => (sizes self).map (PoolAllocator.create pool)) (fun _ => none)
      none := by
  have hnone : ∀ i, ¬ i < pool.arenaCount.toNat := by
    intro i
    rw [hcount]
    exact Nat.not_lt_zero i
  have howner : ∀ i, pool.owner i = none := fun i => if_neg (hnone i)
  refine ⟨hg, fun i q hq => ?_, fun self a ha => ?_, fun self a ha => ?_, ?_, ?_⟩
  · have hzero := hg.zero i (Nat.le_of_not_lt (hnone i))
    exact nomatch hq.symm.trans (congrArg ArenaRecord.previous hzero)
  · obtain ⟨size, hsize, -⟩ := Option.map_eq_some_iff.mp ha
    exact (hsizes self size hsize).1
  · obtain ⟨size, hsize, rfl⟩ := Option.map_eq_some_iff.mp ha
    exact regular_create pool (hsizes self size hsize).2
  · refine ⟨fun self head hhead => ⟨[], ?_, fun i => ?_⟩, fun i self hi => ?_⟩
    · have hempty : head = none := by
        unfold heads at hhead
        split_ifs at hhead with hself
        · rw [← Option.some.inj hhead]
          exact hfree
        · obtain ⟨a, ha, rfl⟩ := Option.map_eq_some_iff.mp hhead
          obtain ⟨size, -, rfl⟩ := Option.map_eq_some_iff.mp ha
          rfl
      rw [hempty]
      exact .nil
    · exact iff_of_false List.not_mem_nil fun hi => nomatch (howner i).symm.trans hi
    · exact nomatch (howner i).symm.trans hi
  · refine ⟨fun i hi => absurd hi (hnone i), fun block self => ?_⟩
    refine iff_of_false nofun ?_
    rintro ⟨i, hi, -⟩
    exact hnone i hi

theorem inv_start (hplaced : Placed p arenaSizeHint arenaCountHint env)
    (hsizes : ∀ self size, sizes self = some size → self ≠ 0 ∧ size ≠ 0) (m : Memory) :
    (start p arenaSizeHint arenaCountHint sizes m env).Inv := by
  obtain ⟨hcount, hfree⟩ := empty_create (p := p) arenaSizeHint arenaCountHint env
  have hg := geometry_create hplaced.built hplaced.table hplaced.positive hplaced.span
  unfold Inv start
  exact inv_new hg hcount hfree hsizes m

/-- What a reservation leaves. -/
theorem step_reserve {count n : UInt64} {pool' : MemoryArenaPool} {env' : π}
    (hrun : s.arenas.pool.reserve p count s.arenas.env = some (n, pool', env')) :
    s.step p (.reserve count) = some (0, { s with
      arenas := { s.arenas with pool := pool', env := env' } }) := by
  rw [step, hrun]
  rfl

/-- What an allocation leaves. -/
theorem step_allocate {self size block : UInt64} {a a' : PoolAllocator} {arenas : Arenas π}
    (ha : s.allocators self = some a)
    (hrun : a.allocate p self size s.arenas = some (block, a', arenas)) :
    s.step p (.allocate self size) = some (block, {
      arenas := arenas
      allocators := Function.update s.allocators self (some a')
      live := if block = 0 then s.live else Function.update s.live block (some self) }) := by
  rw [step, ha, Option.bind_eq_bind, Option.bind_some, hrun]
  rfl

/-- What a deallocation leaves. -/
theorem step_deallocate {self block : UInt64} {a a' : PoolAllocator} {arenas : Arenas π}
    (ha : s.allocators self = some a)
    (hrun : a.deallocate self block s.arenas = some (a', arenas)) :
    s.step p (.deallocate self block) = some (0, {
      arenas := arenas
      allocators := Function.update s.allocators self (some a')
      live := Function.update s.live block none }) := by
  rw [step, ha, Option.bind_eq_bind, Option.bind_some, hrun]
  rfl

/-- A call that is defined, keeps the invariant and hands out a block as it should is safe. -/
theorem safe_of_step {block : UInt64} {s' : PoolSystem π} (hstep : s.step p call = some (block, s'))
    (hinv : s'.Inv) (hblock : ∀ self size a, call = .allocate self size →
      s.allocators self = some a → block ≠ 0 →
        s'.arenas.pool.Holds self block a.objectSize.toNat ∧
          Apart (sizesOf s.allocators) s.live block a.objectSize.toNat) :
    s.Safe p call ∧ ∀ block s', s.step p call = some (block, s') → s'.Inv := by
  refine ⟨⟨block, s', hstep, hblock⟩, fun block' s'' hstep' => ?_⟩
  obtain ⟨-, rfl⟩ := Prod.mk.inj (Option.some.inj (hstep.symm.trans hstep'))
  exact hinv

/-- **One call**, where its condition holds, is safe and keeps the invariant. -/
theorem safe_step (h : s.Inv) (hlegal : s.Legal call) (hsound : s.Sound p call) :
    s.Safe p call ∧ ∀ block s', s.step p call = some (block, s') → s'.Inv := by
  cases call with
  | reserve count =>
    obtain ⟨n, pool', env', hrun, hinv⟩ := Geometry.reserve
      (P := fun pool => PoolInv pool s.arenas.memory s.allocators s.live none)
      (fun _ hinv => hinv.geometry) (fun _ _ hinv hgrown => hinv.grown hgrown) h p count
      s.arenas.env
    exact safe_of_step (step_reserve hrun) hinv nofun
  | allocate self size =>
    obtain ⟨a, ha⟩ := Option.isSome_iff_exists.mp hlegal
    obtain ⟨block, a', pool', m', env', hrun, hinv, hblock⟩ := h.allocate ha size (hsound a ha)
    refine safe_of_step (step_allocate ha hrun) hinv ?_
    rintro _ _ b ⟨⟩ hb hne
    obtain rfl := Option.some.inj (ha.symm.trans hb)
    exact hblock hne
  | deallocate self block =>
    obtain ⟨a, ha⟩ := h.exists_allocator hlegal
    obtain ⟨a', pool', hrun, -, hinv⟩ := h.deallocate ha hlegal (hsound a ha) s.arenas.env
    exact safe_of_step (step_deallocate ha hrun) hinv nofun
  | write block offset bytes =>
    obtain ⟨a, ha, hfits⟩ := hlegal
    obtain ⟨self, hlive, ha⟩ := Option.bind_eq_some_iff.mp ha
    exact safe_of_step rfl (h.write hlive ha hfits) nofun

/-- **In every run whose calls meet their conditions**, every call is defined, and every block that
is handed out lies in an arena of its allocator and overlaps no live block. -/
theorem safe_of_sound (hplaced : Placed p arenaSizeHint arenaCountHint env)
    (hsizes : ∀ self size, sizes self = some size → self ≠ 0 ∧ size ≠ 0) (m : Memory)
    (calls : List PoolCall)
    (hlegal : Along (step p) Legal (start p arenaSizeHint arenaCountHint sizes m env) calls)
    (hsound : Along (step p) (Sound p) (start p arenaSizeHint arenaCountHint sizes m env) calls) :
    Along (step p) (Safe p) (start p arenaSizeHint arenaCountHint sizes m env) calls :=
  Along.of_legal Inv (fun _ _ h hcall => (safe_step h hcall.1 hcall.2).1)
    (fun _ _ _ _ h hcall hstep => (safe_step h hcall.1 hcall.2).2 _ _ hstep)
    (inv_start hplaced hsizes m) (hlegal.and hsound)

/-- `deallocate` is defined of no other block than the only live one of its arena. -/
theorem Inv.lone_of_defined {self block result : UInt64} {a : PoolAllocator} {i : Nat}
    {s' : PoolSystem π} (h : s.Inv) (ha : s.allocators self = some a)
    (hlegal : s.Legal (.deallocate self block)) (hget : s.arenas.pool.getArena block = some i)
    (hstep : s.step p (.deallocate self block) = some (result, s')) :
    (s.arenas.pool.record i).freeNodeCount + 1 = a.objectCount := by
  by_contra hmore
  have hnone := h.deallocate_eq_none ha hlegal (fun j hj => by
    obtain rfl := Option.some.inj (hget.symm.trans hj)
    exact hmore) s.arenas.env
  rw [step, ha, Option.bind_eq_bind, Option.bind_some, hnone, Option.bind_eq_bind,
    Option.bind_none] at hstep
  exact absurd hstep (Option.some_ne_none _).symm

/-- `deallocate` is safe of no other block than the only live one of its arena. -/
theorem only_block_of_safe {self block : UInt64} (h : s.Inv)
    (hlegal : s.Legal (.deallocate self block)) (hsafe : s.Safe p (.deallocate self block)) :
    ∃ a i, s.allocators self = some a ∧ s.arenas.pool.getArena block = some i ∧
      (s.arenas.pool.record i).freeNodeCount + 1 = a.objectCount := by
  obtain ⟨a, ha⟩ := h.exists_allocator hlegal
  obtain ⟨i, -, -, -, hget, -⟩ := h.exists_arena ha hlegal
  obtain ⟨result, s', hstep, -⟩ := hsafe
  exact ⟨a, i, ha, hget, Inv.lone_of_defined h ha hlegal hget hstep⟩

/-- Two allocators, and no other. -/
theorem ne_zero_of_two {x y self size : UInt64} (hx : x ≠ 0) (hy : y ≠ 0)
    (hsize : (if self = 1 then some x else if self = 2 then some y else none) = some size) :
    self ≠ 0 ∧ size ≠ 0 := by
  split_ifs at hsize with hone htwo
  · obtain rfl := Option.some.inj hsize
    exact ⟨by rw [hone]; decide, hx⟩
  · obtain rfl := Option.some.inj hsize
    exact ⟨by rw [htwo]; decide, hy⟩

/-- One allocator, and no other. -/
theorem ne_zero_of_sole {x y self size : UInt64} (hx : x ≠ 0) (hy : y ≠ 0)
    (hsize : Function.update (fun _ => none) x (some y) self = some size) :
    self ≠ 0 ∧ size ≠ 0 := by
  by_cases heq : self = x
  · rw [heq, Function.update_self] at hsize
    rw [heq, ← Option.some.inj hsize]
    exact ⟨hx, hy⟩
  · rw [Function.update_of_ne heq] at hsize
    exact absurd hsize.symm (Option.some_ne_none size)

/-- Two allocators share a pool, and an arena of one of them goes back and forth. -/
theorem safe_of_sound_two_allocators :
    Along (step Platform.granting) (Safe Platform.granting)
      (start Platform.granting 256 2
        (fun self => if self = 1 then some 64 else if self = 2 then some 16 else none)
        (fun _ => 0) ())
      [.reserve 1, .allocate 1 64, .write 0x20000 8 [1, 2, 3], .allocate 2 16, .allocate 1 64,
        .deallocate 2 0x20100, .allocate 2 16] := by
  exact safe_of_sound ⟨by decide, by decide, by decide, by decide⟩
    (fun _ _ => ne_zero_of_two (by decide) (by decide)) _ _ (by decide) (by decide)

/-- **A live block is handed out**: an allocator with one block an arena takes two arenas, gives
back the first, and takes two again. -/
theorem not_safe : ¬ ∀ calls : List PoolCall,
    Along (step Platform.granting) Legal
      (start Platform.granting 64 2 (Function.update (fun _ => none) 1 (some 64)) (fun _ => 0) ())
      calls →
    Along (step Platform.granting) (Safe Platform.granting)
      (start Platform.granting 64 2 (Function.update (fun _ => none) 1 (some 64)) (fun _ => 0) ())
      calls := by
  intro hall
  have h := along_iff_reached.mp (hall [.allocate 1 64, .allocate 1 64, .deallocate 1 0x20000,
    .allocate 1 64, .allocate 1 64] (by decide)) [.allocate 1 64, .allocate 1 64,
      .deallocate 1 0x20000, .allocate 1 64] (.allocate 1 64) [] rfl
  -- the block that the second call handed out is live, and the last call hands it out
  have hlast : (exec (step Platform.granting) (start Platform.granting 64 2
      (Function.update (fun _ => none) 1 (some 64)) (fun _ => 0) ())
        [.allocate 1 64, .allocate 1 64, .deallocate 1 0x20000, .allocate 1 64]).map (fun r =>
          ((r.2.step Platform.granting (.allocate 1 64)).map Prod.fst, r.2.live 0x20040,
            sizesOf r.2.allocators 1)) = some (some 0x20040, some 1, some (64, 1)) := by decide
  obtain ⟨⟨outputs, s⟩, hrun, heq⟩ := Option.map_eq_some_iff.mp hlast
  obtain ⟨hblock, hsizes⟩ := Prod.mk.inj heq
  obtain ⟨hlive, hsizes⟩ := Prod.mk.inj hsizes
  obtain ⟨block, s', hstep, hsafe⟩ := h outputs s hrun
  rw [hstep] at hblock
  obtain rfl : block = 0x20040 := Option.some.inj hblock
  obtain ⟨a, ha, -⟩ := Option.map_eq_some_iff.mp hsizes
  have hsize := (Prod.mk.inj (Option.some.inj ((sizesOf_eq ha).symm.trans hsizes))).1
  rcases (hsafe 1 64 a rfl ha (by decide)).2 0x20040 1 64 1 hlive hsizes with h | h
  · omega
  · omega

end PoolSystem

end Hologine.Memory
