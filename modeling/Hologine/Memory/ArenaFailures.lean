import Hologine.Memory.ArenaGeometry
import Hologine.Memory.RegionObjects
import Hologine.Memory.RegionPages

/-!
# The arena pool on a platform that fails

Runs of an arena pool over a platform that may refuse to reserve or to commit pages at any call, the
constructor's included, with the pages counted.

* The constructor (`core/memory/memory_arena_pool.cpp:17-42`) leaves `records` null if the region
  does not grow. `allocate_arena` does not check it, and the region tries again at every `grow`. So
  an allocation that the platform grants then assigns to a record through null.

Results:
* `RegionRun.Placed.grow`: a region whose size does not wrap lies in the address space, with all
  that it has grown to committed.
* `Kept.allocateArena`, `Kept.overrun`: a safe allocation is defined and keeps the arenas, and after
  any other that is defined an arena ends past the address space.
* `PoolRun.run_keepsCommitted_iff`: in every run each call accesses only records that are there, and
  all arenas lie in committed pages behind the records, iff what is allocated is allocated safely.
-/

namespace Hologine.Memory

open Hologine.Library.Align Hologine.Library.Bits Hologine.Library.Run Hologine.Math

variable {π : Type}

/-- What a platform promises of the pages that it reserves: they are not none, and they lie in the
address space. -/
def Platform.Reserves (p : Platform π) : Prop := ∀ maxPages env,
  (p.reservePages maxPages env).1 ≠ 0 → maxPages ≠ 0 ∧
    (p.reservePages maxPages env).1.toNat + maxPages.toNat * pageSize.toNat < 2 ^ 64

/-- An address is in a page that is committed. -/
def PageTable.IsCommitted (table : PageTable) (address : ℕ) : Prop :=
  ∃ page ∈ table.committed, page.1.toNat + page.2 * pageSize.toNat ≤ address ∧
    address < page.1.toNat + (page.2 + 1) * pageSize.toNat

namespace MemoryRegion

variable {p : Platform π} {r : MemoryRegion} {size : UInt64} {env : π}

/-- The region has room for more bytes, and the platform reserves and commits what they take. -/
def Granted (p : Platform π) (r : MemoryRegion) (size : UInt64) (env : π) : Prop :=
  (r.reserve p env).1.memory ≠ 0 ∧ size + r.currentSize ≤ r.maxSize ∧
    (pagesOf (size + r.currentSize) > pagesOf r.currentSize →
      (p.commitPages (r.reserve p env).1.memory (pagesOf r.currentSize)
        (pagesOf (size + r.currentSize) - pagesOf r.currentSize) (r.reserve p env).2).1 = true)

instance : Decidable (r.Granted p size env) := by
  unfold Granted
  infer_instance

/-- `grow` succeeds iff the growth is granted. -/
theorem grow_ne_zero_iff (r : MemoryRegion) (p : Platform π) (size : UInt64) (env : π) :
    (r.grow p size env).1 ≠ 0 ↔ r.Granted p size env := by
  obtain ⟨memory, hreserve, -⟩ := r.reserve_eq p env
  unfold grow Granted
  dsimp only
  rw [hreserve]
  dsimp only
  by_cases hmemory : memory = 0
  · rw [if_pos hmemory]
    exact iff_of_false (fun h => h rfl) fun h => h.1 hmemory
  rw [if_neg hmemory]
  rcases commit_spec { r with memory := memory } p size (r.reserve p env).2 with
    ⟨hmax, heq⟩ | ⟨hle, hmore, heq⟩ | ⟨hle, hmore, hok, heq⟩ | ⟨hle, hmore, hok, heq⟩
  · rw [heq]
    exact iff_of_false (fun h => h rfl) fun h => UInt64.not_le.mpr hmax h.2.1
  · rw [heq]
    exact iff_of_true hmemory ⟨hmemory, hle, fun h => absurd h hmore⟩
  · rw [heq]
    exact iff_of_true hmemory ⟨hmemory, hle, fun _ => hok⟩
  · rw [heq]
    exact iff_of_false (fun h => h rfl) fun h => absurd ((h.2.2 hmore).symm.trans hok) (by simp)

/-- A region whose size the platform's unit does not fit above is taken to have no pages. -/
theorem reservedPages_eq_zero (h : 2 ^ 64 - 65536 < r.maxSize.toNat) :
    r.reservedSize / pageSize = 0 := by
  have hlt := r.maxSize.toNat_lt
  have hmax : r.maxSize ≠ 0 := by
    intro hzero
    rw [hzero] at h
    exact absurd h (by decide)
  have hlow := toNat_sub_one (toNat_pos hmax)
  have hround : (minimumSize r.maxSize).toNat = 0 := by
    unfold minimumSize roundUp
    rw [UInt64.toNat_sub, UInt64.toNat_add, UInt64.toNat_mod, hlow]
    show (2 ^ 64 - (r.maxSize.toNat - 1) % 65536 + (r.maxSize.toNat + 65535) % 2 ^ 64) % 2 ^ 64 = 0
    omega
  rw [reservedSize, if_neg hmax]
  refine UInt64.toNat_inj.mp ?_
  rw [UInt64.toNat_div, hround, Nat.zero_div]
  rfl

/-- The memory of a region that grows is what reserving it gives. -/
theorem memory_grow (p : Platform π) (r : MemoryRegion) (size : UInt64) (env : π) :
    (r.grow p size env).2.1.memory = (r.reserve p env).1.memory := by
  unfold grow
  rcases r.reserve p env with ⟨r', env'⟩
  dsimp only
  split_ifs with hmemory
  · rfl
  · rcases commit_cases r' p size env' with ⟨-, hkeep⟩ | ⟨-, -, hgrown⟩
    · rw [hkeep]
    · rw [hgrown]

theorem maxSize_grow (p : Platform π) (r : MemoryRegion) (size : UInt64) (env : π) :
    (r.grow p size env).2.1.maxSize = r.maxSize := by
  obtain ⟨memory, -, ⟨-, heq⟩ | ⟨-, -, -, heq⟩⟩ := r.grow_cases p size env
  · rw [heq]
  · rw [heq]

end MemoryRegion

/-! ## The region -/

namespace RegionRun

variable {p : Platform π} {r : MemoryRegion} {env : π × PageTable} {size : UInt64}

/-- **A region lies in the address space**, and its pages are accounted for. One that is too large
for a reservation has no memory. -/
structure Placed (s : RegionRun π) : Prop where
  sized : s.region.Sized
  inv : s.region.maxSize.toNat ≤ 2 ^ 64 - 65536 → s.Inv
  maxSize_le : s.region.memory ≠ 0 → s.region.maxSize.toNat ≤ 2 ^ 64 - 65536
  inSpace : s.region.memory ≠ 0 → s.region.memory.toNat +
    (s.region.reservedSize / pageSize).toNat * pageSize.toNat < 2 ^ 64

theorem placed_start (maxSize : UInt64) (env : π) : (start maxSize env).Placed where
  sized := MemoryRegion.sized_create maxSize
  inv hmax := inv_start hmax env
  maxSize_le hmemory := absurd rfl hmemory
  inSpace hmemory := absurd rfl hmemory

/-- A region that is reserved is where the platform promises it to be. -/
theorem Placed.reserve (hp : p.Reserves) (h : Placed ⟨r, env⟩)
    (hmemory : (r.reserve p.tracked env).1.memory ≠ 0) :
    r.maxSize.toNat ≤ 2 ^ 64 - 65536 ∧ (r.reserve p.tracked env).1.memory.toNat +
      (r.reservedSize / pageSize).toNat * pageSize.toNat < 2 ^ 64 := by
  unfold MemoryRegion.reserve at *
  by_cases hzero : r.memory = 0
  swap
  · rw [if_neg hzero] at *
    exact ⟨h.maxSize_le hzero, h.inSpace hzero⟩
  rw [if_pos hzero] at *
  by_cases hmax : r.maxSize = 0
  · rw [if_pos hmax] at hmemory
    exact absurd hzero hmemory
  rw [if_neg hmax] at *
  obtain ⟨hpages, hspace⟩ := hp (r.reservedSize / pageSize) env.1 hmemory
  refine ⟨?_, hspace⟩
  by_contra hlarge
  exact hpages (MemoryRegion.reservedPages_eq_zero (Nat.not_le.mp hlarge))

/-- **`grow` keeps a region placed**, if the size that results does not wrap. -/
theorem Placed.grow (hp : p.Reserves) (h : Placed ⟨r, env⟩)
    (hbound : r.currentSize.toNat + size.toNat < 2 ^ 64) :
    Placed ⟨(r.grow p.tracked size env).2.1, (r.grow p.tracked size env).2.2⟩ := by
  have hmax := r.maxSize_grow p.tracked size env
  have hmemory := r.memory_grow p.tracked size env
  refine ⟨h.sized.grow size env, fun hle => ?_, fun hne => ?_, fun hne => ?_⟩
  · rw [hmax] at hle
    exact ((h.inv hle).grow hbound).1
  · rw [hmax]
    exact (h.reserve hp (hmemory ▸ hne)).1
  · rw [MemoryRegion.reservedSize, hmax, hmemory]
    exact (h.reserve hp (hmemory ▸ hne)).2

/-- What a region has grown to lies in the pages that are reserved. -/
theorem Placed.currentSize_lt {s : RegionRun π} (h : s.Placed) (hmemory : s.region.memory ≠ 0) :
    s.region.memory.toNat + s.region.currentSize.toNat < 2 ^ 64 := by
  have hmax := h.maxSize_le hmemory
  have hinv := h.inv hmax
  have hspace := h.inSpace hmemory
  have hsize := UInt64.le_iff_toNat_le.mp hinv.size_le
  have hround : s.region.maxSize.toNat ≤ alignUp s.region.maxSize.toNat 65536 :=
    le_alignUp (by decide)
  obtain ⟨k, hk⟩ := dvd_alignUp s.region.maxSize.toNat 65536
  have hpage : pageSize.toNat = 4096 := rfl
  rw [MemoryRegion.toNat_reservedPages (hinv.reserved hmemory).1 hmax, hpage] at hspace
  omega

/-- **All that a region has grown to is committed.** -/
theorem Placed.isCommitted {s : RegionRun π} (h : s.Placed) (hmemory : s.region.memory ≠ 0)
    {offset : ℕ} (hoffset : offset < s.region.currentSize.toNat) :
    s.env.2.IsCommitted (s.region.memory.toNat + offset) := by
  have hpage : pageSize.toNat = 4096 := rfl
  have hmem : (s.region.memory, offset / 4096) ∈ s.env.2.committed := by
    rw [(h.inv (h.maxSize_le hmemory)).committed, mem_pages, pageCount_eq]
    exact ⟨rfl, Nat.zero_le _, by omega⟩
  refine ⟨_, hmem, ?_, ?_⟩
  · rw [hpage]
    dsimp only
    omega
  · rw [hpage]
    dsimp only
    omega

/-- A size that wraps is granted, as it takes no page more. -/
theorem Placed.granted_of_wraps (h : Placed ⟨r, env⟩)
    (hwraps : 2 ^ 64 ≤ r.currentSize.toNat + size.toNat) : r.Granted p.tracked size env := by
  have hsize := size.toNat_lt
  have hmemory : r.memory ≠ 0 := by
    intro hzero
    have hcurrent : r.currentSize.toNat = 0 := by
      rw [h.sized.unreserved hzero]
      rfl
    omega
  have hmax : r.maxSize.toNat ≤ 2 ^ 64 - 65536 := h.maxSize_le hmemory
  have hle : r.currentSize.toNat ≤ r.maxSize.toNat := UInt64.le_iff_toNat_le.mp h.sized.le_max
  have hnew : (size + r.currentSize).toNat < r.currentSize.toNat := by
    rw [UInt64.toNat_add]
    omega
  have hreserve : r.reserve p.tracked env = (r, env) := if_neg hmemory
  unfold MemoryRegion.Granted
  rw [hreserve]
  refine ⟨hmemory, UInt64.le_iff_toNat_le.mpr (by omega), fun hmore => ?_⟩
  rw [gt_iff_lt, UInt64.lt_iff_toNat_lt, toNat_pagesOf (by omega), toNat_pagesOf (by omega),
    pageCount_eq, pageCount_eq] at hmore
  omega

/-- **No page is committed outside the reservation.** This lasts when a size wraps as well. -/
structure Within (s : RegionRun π) : Prop where
  memory : s.region.memory ≠ 0
  maxSize_ne : s.region.maxSize ≠ 0
  maxSize_le : s.region.maxSize.toNat ≤ 2 ^ 64 - 65536
  size_le : s.region.currentSize ≤ s.region.maxSize
  inSpace : s.region.memory.toNat +
    (s.region.reservedSize / pageSize).toNat * pageSize.toNat < 2 ^ 64
  committed : s.env.2.committed ⊆
    pages s.region.memory 0 (s.region.reservedSize / pageSize).toNat

theorem Placed.within {s : RegionRun π} (h : s.Placed) (hmemory : s.region.memory ≠ 0) :
    s.Within where
  memory := hmemory
  maxSize_ne := ((h.inv (h.maxSize_le hmemory)).reserved hmemory).1
  maxSize_le := h.maxSize_le hmemory
  size_le := h.sized.le_max
  inSpace := h.inSpace hmemory
  committed := by
    have hmax := h.maxSize_le hmemory
    have hinv := h.inv hmax
    have hcount := MemoryRegion.pageCount_le_reservedPages (hinv.reserved hmemory).1 hmax
      hinv.size_le
    rw [hinv.committed]
    exact fun page hpage => ⟨hpage.1, hpage.2.1, by have := hpage.2.2; omega⟩

/-- The addresses that are committed are those of the machine. -/
theorem Within.lt_of_isCommitted {s : RegionRun π} (h : s.Within) {address : ℕ}
    (haddress : s.env.2.IsCommitted address) : address < 2 ^ 64 := by
  obtain ⟨page, hpage, -, hlt⟩ := haddress
  obtain ⟨hbase, -, hindex⟩ := mem_pages.mp (h.committed hpage)
  rw [Nat.zero_add] at hindex
  have hspace := h.inSpace
  have hle := Nat.mul_le_mul_right pageSize.toNat (show page.2 + 1 ≤ _ from hindex)
  rw [hbase] at hlt
  omega

/-- `grow` commits pages of the reservation only, whatever size it is asked for. -/
theorem Within.grow (h : Within ⟨r, env⟩) (p : Platform π) (size : UInt64) :
    Within ⟨(r.grow p.tracked size env).2.1, (r.grow p.tracked size env).2.2⟩ := by
  obtain ⟨hmemory, hne, hmax, hsize, hspace, hcommitted⟩ := h
  rw [MemoryRegion.grow_of_reserved hmemory]
  rcases r.commit_spec p.tracked size env with ⟨-, heq⟩ | ⟨hnew, -, heq⟩ |
    ⟨hnew, hmore, hok, heq⟩ | ⟨-, -, hok, heq⟩
  · rw [heq]
    exact ⟨hmemory, hne, hmax, hsize, hspace, hcommitted⟩
  · rw [heq]
    exact ⟨hmemory, hne, hmax, hnew, hspace, hcommitted⟩
  · rw [heq]
    refine ⟨hmemory, hne, hmax, hnew, hspace, ?_⟩
    rw [committed_commitPages, if_pos hok]
    refine Set.union_subset hcommitted fun page hpage => ?_
    obtain ⟨hbase, -, hlt⟩ := mem_pages.mp hpage
    have hle := UInt64.le_iff_toNat_le.mp (UInt64.le_of_lt hmore)
    have hreserved := MemoryRegion.pageCount_le_reservedPages hne hmax hnew
    rw [← toNat_pagesOf ((UInt64.le_iff_toNat_le.mp hnew).trans hmax)] at hreserved
    rw [UInt64.toNat_sub_of_le _ _ (UInt64.le_of_lt hmore)] at hlt
    refine ⟨hbase, Nat.zero_le _, ?_⟩
    dsimp only at hreserved
    show page.2 < 0 + (r.reservedSize / pageSize).toNat
    omega
  · rw [heq]
    refine ⟨hmemory, hne, hmax, hsize, hspace, ?_⟩
    rw [committed_commitPages, hok]
    exact hcommitted

end RegionRun

/-! ## The pool -/

namespace MemoryArenaPool

variable {p : Platform π} {pool pool' : MemoryArenaPool} {env env' : π × PageTable} {i : ℕ}

/-- **An allocation is safe**: if the growth of the region is granted, there is a record for the
arena and the size of the region does not wrap. There are no records if `records` is null. -/
def AllocatesSafely (p : Platform π) (pool : MemoryArenaPool) (env : π) : Prop :=
  pool.arenaCount < pool.arenaReserved → pool.memoryRegion.Granted p pool.arenaSize env →
    pool.arenaCount.toNat < pool.capacity ∧
      pool.memoryRegion.currentSize.toNat + pool.arenaSize.toNat < 2 ^ 64

/-- The allocations that the loop of `reserve` makes are safe. -/
def ReservesSafely (p : Platform π) : ℕ → MemoryArenaPool → π → Prop
  | 0, _, _ => True
  | count + 1, pool, env => pool.AllocatesSafely p env ∧
    ∀ pool' env', pool.allocateArena p env = some (true, pool', env') →
      ReservesSafely p count pool' env'

instance (p : Platform π) (pool : MemoryArenaPool) (env : π) :
    Decidable (pool.AllocatesSafely p env) := by
  unfold AllocatesSafely
  infer_instance

/-- The allocations of a loop can be decided to be safe. -/
instance decidableReservesSafely (p : Platform π) :
    ∀ (count : ℕ) (pool : MemoryArenaPool) (env : π), Decidable (ReservesSafely p count pool env)
  | 0, _, _ => isTrue trivial
  | count + 1, pool, env =>
    match h : pool.allocateArena p env with
    | some (true, pool', env') =>
      have := decidableReservesSafely p count pool' env'
      decidable_of_iff (pool.AllocatesSafely p env ∧ ReservesSafely p count pool' env')
        (and_congr_right fun _ => ⟨fun hrest pool₁ env₁ h₁ => by
          obtain ⟨rfl, rfl⟩ : pool' = pool₁ ∧ env' = env₁ := by simpa using h.symm.trans h₁
          exact hrest, fun hrest => hrest pool' env' h⟩)
    | some (false, _, _) => decidable_of_iff (pool.AllocatesSafely p env)
        ⟨fun hsafe => ⟨hsafe, fun _ _ h₁ => by simpa using h.symm.trans h₁⟩, And.left⟩
    | none => decidable_of_iff (pool.AllocatesSafely p env)
        ⟨fun hsafe => ⟨hsafe, fun _ _ h₁ => by simpa using h.symm.trans h₁⟩, And.left⟩

/-- The records are at the start of the region and the arenas behind them, as far as it has
grown. -/
structure Built (pool : MemoryArenaPool) : Prop where
  memory : pool.memoryRegion.memory ≠ 0
  arenaPool : pool.arenaPool.toNat =
    pool.memoryRegion.memory.toNat + (recordSize pool.arenaReserved).toNat
  currentSize : pool.memoryRegion.currentSize.toNat =
    (recordSize pool.arenaReserved).toNat + pool.arenaCount.toNat * pool.arenaSize.toNat

/-- **What lasts in a run**: the region is placed, it is built if there are records, and the records
that are allocated are there and say where the arenas are. -/
structure Kept (pool : MemoryArenaPool) (env : π × PageTable) : Prop where
  placed : RegionRun.Placed ⟨pool.memoryRegion, env⟩
  tabled : pool.arenaCount.toNat ≤ pool.capacity
  built : 0 < pool.capacity → pool.Built
  base : ∀ i < pool.arenaCount.toNat, (pool.record i).base.toNat = pool.arenaBase i
  free : pool.FreeListed

/-- An allocation that fails leaves the arenas. -/
theorem Kept.region (h : pool.Kept env) {r : MemoryRegion} (hplaced : RegionRun.Placed ⟨r, env'⟩)
    (hmemory : pool.memoryRegion.memory ≠ 0 → r.memory = pool.memoryRegion.memory)
    (hsize : r.currentSize = pool.memoryRegion.currentSize) :
    Kept { pool with memoryRegion := r } env' := by
  refine ⟨hplaced, h.tabled, fun hpos => ?_, h.base, ⟨h.free.head, h.free.links⟩⟩
  obtain ⟨hne, hpool, hcurrent⟩ := h.built hpos
  have hsame := hmemory hne
  refine ⟨?_, ?_, ?_⟩
  · show r.memory ≠ 0
    rw [hsame]
    exact hne
  · show pool.arenaPool.toNat = r.memory.toNat + _
    rw [hsame]
    exact hpool
  · show r.currentSize.toNat = _
    rw [hsize]
    exact hcurrent

/-- **Another arena is kept**, at the end of what the region had grown to. -/
theorem Kept.withArena (h : pool.Kept env) (hlt : pool.arenaCount.toNat < pool.arenaReserved.toNat)
    (hcapacity : pool.arenaCount.toNat < pool.capacity)
    (hbound : pool.memoryRegion.currentSize.toNat + pool.arenaSize.toNat < 2 ^ 64)
    (hplaced : RegionRun.Placed ⟨pool.grownRegion, env'⟩) :
    (pool.withArena pool.grownRegion).Kept env' := by
  obtain ⟨hmemory, hpool, hcurrent⟩ := h.built (Nat.zero_lt_of_lt hcapacity)
  have hcount := toNat_arenaCount_withArena hlt pool.grownRegion
  have hgrown : pool.grownRegion.currentSize.toNat =
      pool.memoryRegion.currentSize.toNat + pool.arenaSize.toNat := by
    show (pool.arenaSize + pool.memoryRegion.currentSize).toNat = _
    rw [UInt64.toNat_add, Nat.add_comm, Nat.mod_eq_of_lt hbound]
  have hspace : pool.memoryRegion.memory.toNat + pool.grownRegion.currentSize.toNat < 2 ^ 64 :=
    hplaced.currentSize_lt hmemory
  refine ⟨hplaced, ?_, fun _ => ⟨hmemory, hpool, ?_⟩, fun i hi => ?_,
    h.free.withArena hcapacity hlt _⟩
  · have hsame : (pool.withArena pool.grownRegion).capacity = pool.capacity := capacity_set
    omega
  · rw [hcount, Nat.succ_mul]
    show pool.grownRegion.currentSize.toNat = (recordSize pool.arenaReserved).toNat +
      (pool.arenaCount.toNat * pool.arenaSize.toNat + pool.arenaSize.toNat)
    omega
  · rw [record_withArena hcapacity]
    by_cases hnew : i = pool.arenaCount.toNat
    · have hbase :
          pool.arenaPool.toNat + pool.arenaCount.toNat * pool.arenaSize.toNat < 2 ^ 64 := by
        omega
      rw [hnew, Function.update_self]
      dsimp only
      rw [UInt64.toNat_add, UInt64.toNat_mul, Nat.add_mod_mod, Nat.mod_eq_of_lt hbase]
      rfl
    · rw [Function.update_of_ne hnew]
      exact h.base i (by omega)

/-- **A safe allocation** is defined, and keeps the arenas. -/
theorem Kept.allocateArena (hp : p.Reserves) (h : pool.Kept env)
    (hsafe : pool.AllocatesSafely p.tracked env) :
    ∃ ok pool' env', pool.allocateArena p.tracked env = some (ok, pool', env') ∧
      pool'.Kept env' ∧ (ok = true → ∃ i, pool'.nextFreeArena = some i) := by
  unfold MemoryArenaPool.allocateArena
  by_cases hlt : pool.arenaCount < pool.arenaReserved
  swap
  · rw [if_neg hlt]
    exact ⟨false, pool, env, rfl, h, nofun⟩
  have hbound : pool.memoryRegion.currentSize.toNat + pool.arenaSize.toNat < 2 ^ 64 := by
    by_contra hwraps
    exact hwraps (hsafe hlt (h.placed.granted_of_wraps (Nat.not_lt.mp hwraps))).2
  have hplaced := h.placed.grow hp hbound
  have hgranted := pool.memoryRegion.grow_ne_zero_iff p.tracked pool.arenaSize env
  obtain ⟨memory, hsame, hcases⟩ :=
    pool.memoryRegion.grow_cases p.tracked pool.arenaSize env
  rw [if_pos hlt]
  rcases hgrow : pool.memoryRegion.grow p.tracked pool.arenaSize env with ⟨base, region, env'⟩
  rw [hgrow] at hcases hplaced hgranted
  dsimp only at hcases hplaced hgranted ⊢
  rcases hcases with ⟨hbase, hregion⟩ | ⟨hmemory, hbase, -, hregion⟩
  · rw [if_neg (not_not.mpr hbase)]
    refine ⟨false, _, env', rfl, h.region hplaced ?_ ?_, nofun⟩
    · rw [hregion]
      exact hsame
    · rw [hregion]
  · have hne : base ≠ 0 := hbase ▸ hmemory
    have hcapacity := (hsafe hlt (hgranted.mp hne)).1
    have hcapacity' : pool.arenaCount.toNat <
        ({ pool with memoryRegion := region } : MemoryArenaPool).capacity := hcapacity
    obtain rfl := hsame (h.built (Nat.zero_lt_of_lt hcapacity)).memory
    have hgrown : region = pool.grownRegion := hregion
    rw [if_pos hne, modifyRecord_eq hcapacity']
    subst hgrown
    exact ⟨true, _, env', rfl, h.withArena (UInt64.lt_iff_toNat_lt.mp hlt) hcapacity hbound hplaced,
      fun _ => ⟨_, rfl⟩⟩

/-- **`reserve` keeps the arenas**, if its allocations are safe. -/
theorem Kept.reserveLoop (hp : p.Reserves) (h : pool.Kept env) (count : ℕ) (reserved : UInt64)
    (hsafe : ReservesSafely p.tracked count pool env) :
    ∃ n pool' env', reserveLoop p.tracked count reserved pool env = some (n, pool', env') ∧
      pool'.Kept env' := by
  induction count generalizing reserved pool env with
  | zero => exact ⟨reserved, pool, env, rfl, h⟩
  | succ count ih =>
    obtain ⟨ok, pool₁, env₁, hrun, h₁, -⟩ := h.allocateArena hp hsafe.1
    rw [MemoryArenaPool.reserveLoop, hrun, Option.bind_eq_bind, Option.bind_some]
    cases ok with
    | true => exact ih h₁ (reserved + 1) (hsafe.2 pool₁ env₁ hrun)
    | false => exact ⟨reserved, pool₁, env₁, rfl, h₁⟩

/-- **The pool has outgrown its pages**: an arena ends past the address space, and no page is
committed outside the reservation. -/
structure Overrun (pool : MemoryArenaPool) (env : π × PageTable) : Prop where
  within : RegionRun.Within ⟨pool.memoryRegion, env⟩
  past : ∃ i < pool.arenaCount.toNat, 2 ^ 64 < (pool.record i).base.toNat + pool.arenaSize.toNat

/-- An allocation that is not safe is not defined, or the pool has outgrown its pages after it. -/
theorem Kept.overrun (h : pool.Kept env) (hdefect : ¬ pool.AllocatesSafely p.tracked env)
    {ok : Bool} (hrun : pool.allocateArena p.tracked env = some (ok, pool', env')) :
    ok = true ∧ pool'.Overrun env' := by
  unfold AllocatesSafely at hdefect
  push Not at hdefect
  obtain ⟨hlt, hgranted, hbound⟩ := hdefect
  rcases allocateArena_eq_some hrun with ⟨hge, -⟩ | ⟨hnull, -⟩ | ⟨-, hcapacity, rfl, rfl, rfl⟩
  · exact absurd hlt hge
  · exact absurd hnull ((pool.memoryRegion.grow_ne_zero_iff _ _ _).mpr hgranted)
  have hwraps := hbound hcapacity
  obtain ⟨hmemory, hpool, hcurrent⟩ := h.built (Nat.zero_lt_of_lt hcapacity)
  have hspace : pool.memoryRegion.memory.toNat + pool.memoryRegion.currentSize.toNat < 2 ^ 64 :=
    h.placed.currentSize_lt hmemory
  have hlt' := UInt64.lt_iff_toNat_lt.mp hlt
  refine ⟨rfl, (h.placed.within hmemory).grow p pool.arenaSize, pool.arenaCount.toNat, ?_, ?_⟩
  · rw [toNat_arenaCount_withArena hlt']
    exact Nat.lt_succ_self _
  · -- the arena starts where the region had ended
    have hbase : pool.arenaPool.toNat + pool.arenaCount.toNat * pool.arenaSize.toNat < 2 ^ 64 := by
      omega
    have hpositive := toNat_pos hmemory
    rw [record_withArena hcapacity, Function.update_self]
    show 2 ^ 64 < (pool.arenaPool + pool.arenaCount * pool.arenaSize).toNat + pool.arenaSize.toNat
    rw [UInt64.toNat_add, UInt64.toNat_mul, Nat.add_mod_mod, Nat.mod_eq_of_lt hbase]
    omega

/-- A pool that has outgrown its pages stays so. -/
theorem Overrun.allocateArena (h : pool.Overrun env) {ok : Bool}
    (hrun : pool.allocateArena p.tracked env = some (ok, pool', env')) : pool'.Overrun env' := by
  obtain ⟨hwithin, i, hi, hpast⟩ := h
  rcases allocateArena_eq_some hrun with ⟨-, -, rfl, rfl⟩ | ⟨-, -, rfl, rfl⟩ |
    ⟨hlt, hcapacity, -, rfl, rfl⟩
  · exact ⟨hwithin, i, hi, hpast⟩
  · exact ⟨hwithin.grow p pool.arenaSize, i, hi, hpast⟩
  · refine ⟨hwithin.grow p pool.arenaSize, i, ?_, ?_⟩
    · rw [toNat_arenaCount_withArena (UInt64.lt_iff_toNat_lt.mp hlt)]
      omega
    · rw [record_withArena hcapacity, Function.update_of_ne (Nat.ne_of_lt hi)]
      exact hpast

theorem Overrun.reserveLoop (count : ℕ) {reserved n : UInt64} (h : pool.Overrun env)
    (hrun : reserveLoop p.tracked count reserved pool env = some (n, pool', env')) :
    pool'.Overrun env' := by
  induction count generalizing reserved pool env with
  | zero =>
    obtain ⟨-, rfl, rfl⟩ : _ ∧ pool = pool' ∧ env = env' := by
      simpa [MemoryArenaPool.reserveLoop] using hrun
    exact h
  | succ count ih =>
    obtain ⟨⟨ok, pool₁, env₁⟩, halloc, hrest⟩ := Option.bind_eq_some_iff.mp hrun
    have h₁ := h.allocateArena halloc
    cases ok with
    | true => exact ih h₁ hrest
    | false =>
      obtain ⟨-, rfl, rfl⟩ : _ ∧ pool₁ = pool' ∧ env₁ = env' := by simpa using hrest
      exact h₁

/-- **A loop of `reserve` that does not outgrow the pages allocates safely.** -/
theorem Kept.reservesSafely (hp : p.Reserves) (h : pool.Kept env) (count : ℕ) {reserved n : UInt64}
    (hrun : MemoryArenaPool.reserveLoop p.tracked count reserved pool env = some (n, pool', env'))
    (hwithin : ¬ pool'.Overrun env') : ReservesSafely p.tracked count pool env := by
  induction count generalizing reserved pool env with
  | zero => trivial
  | succ count ih =>
    obtain ⟨⟨ok, pool₁, env₁⟩, halloc, hrest⟩ := Option.bind_eq_some_iff.mp hrun
    have hsafe : pool.AllocatesSafely p.tracked env := by
      by_contra hdefect
      obtain ⟨rfl, h₁⟩ := h.overrun hdefect halloc
      exact hwithin (h₁.reserveLoop count hrest)
    refine ⟨hsafe, fun pool₂ env₂ halloc' => ?_⟩
    obtain ⟨rfl, rfl, rfl⟩ : ok = true ∧ pool₁ = pool₂ ∧ env₁ = env₂ := by
      simpa using halloc.symm.trans halloc'
    obtain ⟨ok', pool₃, env₃, halloc₃, h₁, -⟩ := h.allocateArena hp hsafe
    obtain ⟨-, rfl, rfl⟩ : _ ∧ pool₁ = pool₃ ∧ env₁ = env₃ := by
      simpa using halloc.symm.trans halloc₃
    exact ih h₁ hrest

/-- **`take_arena` on an empty free list allocates safely** if it does not outgrow the pages. -/
theorem Kept.takesSafely (h : pool.Kept env) (hnext : pool.nextFreeArena = none)
    {record : Option ℕ} (hrun : pool.takeArena p.tracked env = some (record, pool', env'))
    (hwithin : ¬ pool'.Overrun env') : pool.AllocatesSafely p.tracked env := by
  by_contra hdefect
  unfold MemoryArenaPool.takeArena at hrun
  rw [if_pos hnext] at hrun
  obtain ⟨⟨ok, pool₁, env₁⟩, halloc, hrest⟩ := Option.bind_eq_some_iff.mp hrun
  obtain ⟨rfl, h₁⟩ := h.overrun hdefect halloc
  obtain ⟨⟨i, pool₂⟩, hunlink, heq⟩ := Option.bind_eq_some_iff.mp hrest
  obtain ⟨-, rfl, rfl⟩ : _ ∧ pool₂ = pool' ∧ env₁ = env' := by simpa using heq
  obtain ⟨i', -, hunlink'⟩ := Option.bind_eq_some_iff.mp hunlink
  obtain ⟨r, -, heq'⟩ := Option.bind_eq_some_iff.mp hunlink'
  obtain ⟨-, rfl⟩ := Prod.mk.inj (Option.some.inj heq')
  exact hwithin ⟨h₁.within, h₁.past⟩

/-- The head of the free list is unlinked, and is a record that is allocated. -/
theorem Kept.unlinkArena (h : pool.Kept env) (hi : pool.nextFreeArena = some i) :
    ∃ pool', pool.unlinkArena = some (i, pool') ∧ pool'.Kept env ∧
      i < pool'.arenaCount.toNat := by
  have hlt := h.free.head i hi
  have hbuilt (hpos : 0 < pool.capacity) := h.built hpos
  exact ⟨_, unlinkArena_eq hi (Nat.lt_of_lt_of_le hlt h.tabled),
    ⟨h.placed, h.tabled, fun hpos => ⟨(hbuilt hpos).memory, (hbuilt hpos).arenaPool,
      (hbuilt hpos).currentSize⟩, h.base, h.free.unlinkArena hlt⟩, hlt⟩

/-- **`take_arena` keeps the arenas**, if it allocates safely, and takes a record that is
allocated. -/
theorem Kept.takeArena (hp : p.Reserves) (h : pool.Kept env)
    (hsafe : pool.nextFreeArena = none → pool.AllocatesSafely p.tracked env) :
    ∃ record pool' env', pool.takeArena p.tracked env = some (record, pool', env') ∧
      pool'.Kept env' ∧ ∀ i, record = some i → i < pool'.arenaCount.toNat := by
  unfold MemoryArenaPool.takeArena
  cases hnext : pool.nextFreeArena with
  | none =>
    obtain ⟨ok, pool₁, env₁, hrun, h₁, hok⟩ := h.allocateArena hp (hsafe hnext)
    rw [if_pos rfl, hrun, Option.bind_eq_bind, Option.bind_some]
    cases ok with
    | true =>
      obtain ⟨i, hi⟩ := hok rfl
      obtain ⟨pool₂, hunlink, h₂, hlt⟩ := h₁.unlinkArena hi
      dsimp only
      rw [if_pos rfl, hunlink]
      exact ⟨some i, pool₂, env₁, rfl, h₂, fun j hj => Option.some.inj hj ▸ hlt⟩
    | false => exact ⟨none, pool₁, env₁, rfl, h₁, nofun⟩
  | some i =>
    obtain ⟨pool₁, hunlink, h₁, hlt⟩ := h.unlinkArena hnext
    rw [if_neg (by simp), hunlink]
    exact ⟨some i, pool₁, env, rfl, h₁, fun j hj => Option.some.inj hj ▸ hlt⟩

/-- **`give_arena` keeps the arenas.** -/
theorem Kept.giveArena (h : pool.Kept env) (hlt : i < pool.arenaCount.toNat) :
    ∃ pool', pool.giveArena i = some pool' ∧ pool'.Kept env := by
  have hcapacity := Nat.lt_of_lt_of_le hlt h.tabled
  have hrun := giveArena_eq hcapacity
  have hbuilt (hpos : 0 < pool.capacity) := h.built hpos
  refine ⟨_, hrun, h.placed, ?_, fun hpos => ?_, fun j hj => ?_,
    h.free.giveArena hcapacity hlt hrun⟩
  · exact h.tabled.trans (Nat.le_of_eq capacity_set.symm)
  · have hpos' : 0 < pool.capacity := Nat.lt_of_lt_of_eq hpos capacity_set
    exact ⟨(hbuilt hpos').memory, (hbuilt hpos').arenaPool, (hbuilt hpos').currentSize⟩
  · show ((pool.set i _).record j).base.toNat = _
    rw [record_set hcapacity]
    by_cases hsame : j = i
    · rw [hsame, Function.update_self]
      exact h.base i hlt
    · rw [Function.update_of_ne hsame]
      exact h.base j hj

/-- **A new pool**, built or not. -/
theorem kept_create (hp : p.Reserves) (arenaSizeHint arenaCountHint : UInt64) (env : π) :
    (create p.tracked arenaSizeHint arenaCountHint (env, ⟨∅, ∅, ∅⟩)).1.Kept
      (create p.tracked arenaSizeHint arenaCountHint (env, ⟨∅, ∅, ∅⟩)).2 := by
  unfold create
  dsimp only
  generalize recordSize arenaCountHint + arenaSizeHint * arenaCountHint = maxSize
  have hbound : (MemoryRegion.create maxSize).currentSize.toNat +
      (recordSize arenaCountHint).toNat < 2 ^ 64 := by
    show 0 + (recordSize arenaCountHint).toNat < 2 ^ 64
    rw [Nat.zero_add]
    exact UInt64.toNat_lt _
  have hplaced := (RegionRun.placed_start maxSize env).grow hp hbound
  have hcases :=
    (MemoryRegion.create maxSize).grow_cases p.tracked (recordSize arenaCountHint) (env, ⟨∅, ∅, ∅⟩)
  rcases hgrow : (MemoryRegion.create maxSize).grow p.tracked (recordSize arenaCountHint)
    (env, ⟨∅, ∅, ∅⟩) with ⟨base, region, env'⟩
  rw [hgrow] at hplaced hcases
  obtain ⟨memory, -, hcases⟩ := hcases
  dsimp only at hplaced hcases ⊢
  rcases hcases with ⟨hnull, -⟩ | ⟨hmemory, hbase, -, hregion⟩
  · rw [if_pos hnull]
    exact ⟨hplaced, Nat.le_refl _, fun hpos => absurd hpos (Nat.lt_irrefl 0), nofun, nofun, nofun⟩
  · rw [if_neg (hbase ▸ hmemory), hbase]
    have hsize : region.currentSize = recordSize arenaCountHint := by
      rw [hregion]
      exact UInt64.add_zero _
    have hsame : region.memory = memory := by rw [hregion]
    have hspace := hplaced.currentSize_lt (show region.memory ≠ 0 from hsame ▸ hmemory)
    dsimp only at hspace
    rw [hsame, hsize] at hspace
    refine ⟨hplaced, Nat.zero_le _, fun _ => ⟨?_, ?_, ?_⟩, nofun, nofun, nofun⟩
    · exact hsame ▸ hmemory
    · show (memory + recordSize arenaCountHint).toNat = region.memory.toNat + _
      rw [UInt64.toNat_add, Nat.mod_eq_of_lt hspace, hsame]
    · show region.currentSize.toNat = _ + 0 * arenaSizeHint.toNat
      rw [hsize, Nat.zero_mul, Nat.add_zero]

end MemoryArenaPool

/-! ## Runs -/

namespace PoolRun

open MemoryArenaPool

variable {p : Platform π} {s s' : PoolRun (π × PageTable)} {call : ArenaCall}

/-- The whole arena of a record lies in committed pages, and outside the records. -/
def InCommitted (s : PoolRun (π × PageTable)) (i : ℕ) : Prop :=
  ∀ offset < s.pool.arenaSize.toNat,
    s.env.2.IsCommitted ((s.pool.record i).base.toNat + offset) ∧
      (s.pool.memoryRegion.memory.toNat + (recordSize s.pool.arenaReserved).toNat ≤
          (s.pool.record i).base.toNat + offset ∨
        (s.pool.record i).base.toNat + offset < s.pool.memoryRegion.memory.toNat)

/-- **A call accesses no record through null or past the table**, and `take_arena` returns null or
an allocated record. The arenas of those lie in committed pages. -/
def KeepsCommitted (p : Platform π) (s : PoolRun (π × PageTable)) (call : ArenaCall) : Prop :=
  ∃ result s', s.step p.tracked call = some (result, s') ∧
    (∀ i, result = .took (some i) → i < s'.pool.arenaCount.toNat) ∧
      ∀ i < s'.pool.arenaCount.toNat, s'.InCommitted i

/-- **The condition**: what the call allocates is allocated safely. -/
def AllocatesSafely (p : Platform π) (s : PoolRun (π × PageTable)) : ArenaCall → Prop
  | .reserve count => ReservesSafely p.tracked count.toNat s.pool s.env
  | .take => s.pool.nextFreeArena = none → s.pool.AllocatesSafely p.tracked s.env
  | .give _ => True

/-- What is kept lies in committed pages. -/
theorem inCommitted_of_kept (h : s.pool.Kept s.env) {i : ℕ} (hi : i < s.pool.arenaCount.toNat) :
    s.InCommitted i := by
  intro offset hoffset
  obtain ⟨hmemory, hpool, hcurrent⟩ := h.built (Nat.lt_of_lt_of_le (Nat.zero_lt_of_lt hi) h.tabled)
  have hle := Nat.mul_le_mul_right s.pool.arenaSize.toNat (Nat.succ_le_of_lt hi)
  rw [Nat.succ_mul] at hle
  have hwithin := h.placed.isCommitted hmemory
    (show (recordSize s.pool.arenaReserved).toNat + i * s.pool.arenaSize.toNat + offset <
      s.pool.memoryRegion.currentSize.toNat by omega)
  have hbase := h.base i hi
  rw [arenaBase, hpool] at hbase
  have haddress : (s.pool.record i).base.toNat + offset = s.pool.memoryRegion.memory.toNat +
      ((recordSize s.pool.arenaReserved).toNat + i * s.pool.arenaSize.toNat + offset) := by
    omega
  exact ⟨haddress ▸ hwithin, .inl (by omega)⟩

/-- **What one call keeps**, if it allocates safely. -/
theorem kept_step (hp : p.Reserves) (h : s.pool.Kept s.env) (hlegal : s.GivesAllocated call)
    (hsafe : s.AllocatesSafely p call) :
    ∃ result s', s.step p.tracked call = some (result, s') ∧ s'.pool.Kept s'.env ∧
      ∀ i, result = .took (some i) → i < s'.pool.arenaCount.toNat := by
  cases call with
  | reserve count =>
    obtain ⟨n, pool', env', hrun, h'⟩ := h.reserveLoop hp count.toNat 0 hsafe
    exact ⟨.reserved n, ⟨pool', env', s.held⟩, by rw [step, MemoryArenaPool.reserve, hrun]; rfl, h',
      fun _ hi => ArenaResult.noConfusion hi⟩
  | take =>
    obtain ⟨record, pool', env', hrun, h', htaken⟩ := h.takeArena hp hsafe
    exact ⟨.took record, ⟨pool', env', record.toList ++ s.held⟩, by rw [step, hrun]; rfl, h',
      fun i hi => htaken i (ArenaResult.took.inj hi)⟩
  | give record =>
    obtain ⟨pool', hrun, h'⟩ := h.giveArena hlegal
    exact ⟨.gave, ⟨pool', s.env, s.held.erase record⟩, by rw [step, hrun]; rfl, h',
      fun _ hi => ArenaResult.noConfusion hi⟩

/-- The arena that ends past the address space is not in committed pages. -/
theorem not_overrun_of_inCommitted (h : ∀ i < s.pool.arenaCount.toNat, s.InCommitted i) :
    ¬ s.pool.Overrun s.env := by
  rintro ⟨hwithin, i, hi, hpast⟩
  have hlt := (s.pool.record i).base.toNat_lt
  have hcommitted := (h i hi (2 ^ 64 - (s.pool.record i).base.toNat) (by omega)).1
  have := hwithin.lt_of_isCommitted hcommitted
  omega

/-- **A call keeps to committed pages iff what it allocates is allocated safely.** -/
theorem keepsCommitted_iff (hp : p.Reserves) (h : s.pool.Kept s.env)
    (hlegal : s.GivesAllocated call) : s.KeepsCommitted p call ↔ s.AllocatesSafely p call := by
  constructor
  · rintro ⟨result, s', hstep, -, hcommitted⟩
    have hwithin := not_overrun_of_inCommitted hcommitted
    cases call with
    | reserve count =>
      obtain ⟨⟨n, pool', env'⟩, hrun, heq⟩ := Option.bind_eq_some_iff.mp hstep
      obtain ⟨-, rfl⟩ := Prod.mk.inj (Option.some.inj heq)
      exact h.reservesSafely hp count.toNat hrun hwithin
    | take =>
      intro hnext
      obtain ⟨⟨record, pool', env'⟩, hrun, heq⟩ := Option.bind_eq_some_iff.mp hstep
      obtain ⟨-, rfl⟩ := Prod.mk.inj (Option.some.inj heq)
      exact h.takesSafely hnext hrun hwithin
    | give record => trivial
  · intro hsafe
    obtain ⟨result, s', hstep, h', htaken⟩ := kept_step hp h hlegal hsafe
    exact ⟨result, s', hstep, htaken, fun i hi => inCommitted_of_kept h' hi⟩

theorem kept_start (hp : p.Reserves) (arenaSizeHint arenaCountHint : UInt64) (env : π) :
    (start p.tracked arenaSizeHint arenaCountHint (env, ⟨∅, ∅, ∅⟩)).pool.Kept
      (start p.tracked arenaSizeHint arenaCountHint (env, ⟨∅, ∅, ∅⟩)).env := by
  have hcreate := kept_create hp arenaSizeHint arenaCountHint env
  unfold start
  generalize create p.tracked arenaSizeHint arenaCountHint (env, ⟨∅, ∅, ∅⟩) = created at *
  exact hcreate

/-- **In every run each call keeps to committed pages iff what it allocates is allocated safely**,
whatever the platform refuses. -/
theorem run_keepsCommitted_iff (hp : p.Reserves) (arenaSizeHint arenaCountHint : UInt64) (env : π)
    (calls : List ArenaCall) (hlegal : Along (step p.tracked) GivesAllocated
      (start p.tracked arenaSizeHint arenaCountHint (env, ⟨∅, ∅, ∅⟩)) calls) :
    Along (step p.tracked) (KeepsCommitted p)
        (start p.tracked arenaSizeHint arenaCountHint (env, ⟨∅, ∅, ∅⟩)) calls ↔
      Along (step p.tracked) (AllocatesSafely p)
        (start p.tracked arenaSizeHint arenaCountHint (env, ⟨∅, ∅, ∅⟩)) calls := by
  refine along_congr (fun s => s.pool.Kept s.env)
    (fun s call h hlegal => keepsCommitted_iff hp h hlegal)
    (fun s call o s' h hlegal hsafe hstep => ?_) (kept_start hp arenaSizeHint arenaCountHint env)
    hlegal
  obtain ⟨result, s'', hstep', h', -⟩ := kept_step hp h hlegal hsafe
  obtain ⟨-, rfl⟩ := Prod.mk.inj (Option.some.inj (hstep'.symm.trans hstep))
  exact h'

instance (p : Platform π) (s : PoolRun (π × PageTable)) (call : ArenaCall) :
    Decidable (s.AllocatesSafely p call) :=
  match call with
  | .reserve count =>
    inferInstanceAs (Decidable (ReservesSafely p.tracked count.toNat s.pool s.env))
  | .take => inferInstanceAs
      (Decidable (s.pool.nextFreeArena = none → s.pool.AllocatesSafely p.tracked s.env))
  | .give _ => isTrue trivial

/-- A platform that reserves at the granularity and commits as it is told, and always after that. -/
def scripted : Platform (List Bool) where
  pushException _ env := env
  reservePages maxPages env :=
    (if maxPages = 0 ∨ maxPages > 0x100000 then 0 else granularity, env)
  releasePages _ _ _ env := env
  commitPages _ _ _ env := (env.headD true, env.tail)
  decommitPages _ _ _ env := env

theorem reserves_scripted : scripted.Reserves := by
  intro maxPages env hne
  unfold scripted at *
  dsimp only at *
  split_ifs at * with hrange
  · exact absurd rfl hne
  · push Not at hrange
    have hle := UInt64.le_iff_toNat_le.mp (UInt64.not_lt.mp hrange.2)
    refine ⟨hrange.1, ?_⟩
    show 65536 + maxPages.toNat * 4096 < 2 ^ 64
    have : (0x100000 : UInt64).toNat = 0x100000 := rfl
    omega

/-- A run in which a commit fails, an arena is taken, and another commit fails. -/
theorem run_keepsCommitted_iff_refused : Along (step scripted.tracked) (KeepsCommitted scripted)
    (start scripted.tracked 0x1000 2 ([true, false, true, false], ⟨∅, ∅, ∅⟩))
      [.reserve 1, .take, .take, .give 0] := by
  refine (run_keepsCommitted_iff reserves_scripted 0x1000 2 [true, false, true, false] _ ?_).mpr ?_
  · decide
  · decide

/-- **The records are accessed through null**: the constructor's commit fails, and the next one does
not. -/
theorem not_keepsCommitted : ¬ ∀ (p : Platform (List Bool)) (env : List Bool)
    (calls : List ArenaCall), p.Reserves →
      Along (step p.tracked) GivesAllocated (start p.tracked 0x1000 2 (env, ⟨∅, ∅, ∅⟩)) calls →
        Along (step p.tracked) (KeepsCommitted p) (start p.tracked 0x1000 2 (env, ⟨∅, ∅, ∅⟩))
          calls := by
  intro hall
  have h := hall scripted [false] [.take] reserves_scripted (by decide)
  obtain ⟨result, s', hstep, -⟩ := h.1
  exact nomatch (show (none : Option (ArenaResult × PoolRun _)) = some (result, s') from hstep)

end PoolRun

end Hologine.Memory
