import Hologine.Library.Run
import Hologine.Memory.MemoryRegion
import Mathlib.Algebra.Order.Floor.Div
import Mathlib.Data.Set.Insert

/-!
# The pages of a memory region

`memory_region` (`core/memory/memory_region.cpp:57-190`) over a platform whose answers are
arbitrary and whose pages are counted: a `PageTable` follows the requests that succeed, and keeps
the pages a commit request should not have named.

Results:
* `RegionRun.Inv.grow`, `RegionRun.Inv.reset`: what each call does to the pages.
* `RegionRun.run_accounted`: after every run the reserved and the committed pages are the ones the
  region's fields say, and calls that fail change neither its size nor what is committed.
-/

namespace Hologine.Memory

open Hologine.Library.Align Hologine.Library.Bits Hologine.Library.Run Hologine.Math

/-- A page: the base of its reservation and its index there. -/
abbrev Page := UInt64 × ℕ

/-- `count` pages from `index` on. -/
def pages (base : UInt64) (index count : ℕ) : Set Page :=
  {page | page.1 = base ∧ index ≤ page.2 ∧ page.2 < index + count}

/-- The pages that are reserved and committed, and those that a commit request named while they were
not reserved or were committed before. -/
structure PageTable where
  reserved : Set Page
  committed : Set Page
  strays : Set Page

/-- The number of pages that `size` bytes take. -/
def pageCount (size : UInt64) : ℕ := size.toNat ⌈/⌉ pageSize.toNat

variable {π : Type}

/-- A platform with its pages counted. Reserving and committing may fail, and do nothing then. -/
def Platform.tracked (p : Platform π) : Platform (π × PageTable) where
  pushException code env := (p.pushException code env.1, env.2)
  reservePages maxPages env :=
    let (base, inner) := p.reservePages maxPages env.1
    (base, inner, if base = 0 then env.2
      else { env.2 with reserved := env.2.reserved ∪ pages base 0 maxPages.toNat })
  releasePages base index count env :=
    let released := pages base index.toNat count.toNat
    (p.releasePages base index count env.1,
      { env.2 with reserved := env.2.reserved \ released, committed := env.2.committed \ released })
  commitPages base index count env :=
    let (ok, inner) := p.commitPages base index count env.1
    let asked := pages base index.toNat count.toNat
    (ok, inner,
      { env.2 with
        committed := if ok then env.2.committed ∪ asked else env.2.committed
        strays := env.2.strays ∪ (asked \ (env.2.reserved \ env.2.committed)) })
  decommitPages base index count env :=
    (p.decommitPages base index count env.1,
      { env.2 with committed := env.2.committed \ pages base index.toNat count.toNat })

section Tracked

variable {p : Platform π} {base index count : UInt64} {env : π × PageTable}

@[simp] theorem reserved_commitPages :
    (p.tracked.commitPages base index count env).2.2.reserved = env.2.reserved := rfl

theorem strays_commitPages : (p.tracked.commitPages base index count env).2.2.strays =
    env.2.strays ∪
      (pages base index.toNat count.toNat \ (env.2.reserved \ env.2.committed)) := rfl

theorem committed_commitPages : (p.tracked.commitPages base index count env).2.2.committed =
    if (p.tracked.commitPages base index count env).1
      then env.2.committed ∪ pages base index.toNat count.toNat else env.2.committed := rfl

end Tracked

/-- The calls on a region. -/
inductive RegionCall where
  | grow (size : UInt64)
  | claim
  | reset (release : Bool)
  deriving Repr, DecidableEq

/-- A region and the platform with its pages. -/
structure RegionRun (π : Type) where
  region : MemoryRegion
  env : π × PageTable

namespace RegionRun

/-- A region of `maxSize` bytes while no page is reserved. -/
def start (maxSize : UInt64) (env : π) : RegionRun π := ⟨.create maxSize, env, ∅, ∅, ∅⟩

/-- One call: what `grow` and `claim` return, and the next state. -/
def step (p : Platform π) (s : RegionRun π) : RegionCall → Option (Option UInt64 × RegionRun π)
  | .grow size =>
    let (base, region, env) := s.region.grow p.tracked size s.env
    some (some base, ⟨region, env⟩)
  | .claim =>
    let (base, region, env) := s.region.claim p.tracked s.env
    some (some base, ⟨region, env⟩)
  | .reset release =>
    let (region, env) := s.region.reset p.tracked release s.env
    some (none, ⟨region, env⟩)

/-- A region is asked to grow to a size that exists. -/
def Bounded (s : RegionRun π) : RegionCall → Prop
  | .grow size => s.region.currentSize.toNat + size.toNat < 2 ^ 64
  | _ => True

/-- The pages are those that the fields of the region say. -/
structure Accounted (s : RegionRun π) : Prop where
  size_le : s.region.currentSize ≤ s.region.maxSize
  memory_eq_zero_iff : s.region.memory = 0 ↔ s.env.2.reserved = ∅
  size_of_unreserved : s.region.memory = 0 → s.region.currentSize = 0
  reserved : s.region.memory ≠ 0 →
    s.env.2.reserved = pages s.region.memory 0 (s.region.reservedSize / pageSize).toNat
  committed : s.region.memory ≠ 0 →
    s.env.2.committed = pages s.region.memory 0 (pageCount s.region.currentSize)
  requests : s.env.2.strays = ∅

/-- A call that returns null changes neither the size nor the committed pages. -/
def FailsQuietly (p : Platform π) (s : RegionRun π) (call : RegionCall) : Prop :=
  ∀ s', s.step p call = some (some 0, s') →
    s'.region.currentSize = s.region.currentSize ∧ s'.env.2.committed = s.env.2.committed

end RegionRun

section Pages

variable {base : UInt64} {size : UInt64} {m n : ℕ}

theorem mem_pages {page : Page} {index count : ℕ} :
    page ∈ pages base index count ↔ page.1 = base ∧ index ≤ page.2 ∧ page.2 < index + count :=
  Iff.rfl

theorem pages_zero : pages base n 0 = ∅ := by
  refine Set.eq_empty_iff_forall_notMem.mpr fun page hpage => ?_
  obtain ⟨-, hle, hlt⟩ := mem_pages.mp hpage
  omega

theorem pages_eq_empty_iff : pages base 0 n = ∅ ↔ n = 0 := by
  refine ⟨fun h => ?_, fun h => by rw [h, pages_zero]⟩
  by_contra hn
  have hmem : (base, 0) ∈ pages base 0 n := ⟨rfl, Nat.le_refl 0, by omega⟩
  rw [h] at hmem
  exact hmem

theorem pages_union (h : m ≤ n) : pages base 0 m ∪ pages base m (n - m) = pages base 0 n := by
  ext page
  rw [Set.mem_union, mem_pages, mem_pages, mem_pages]
  constructor
  · rintro (⟨hbase, -, hlt⟩ | ⟨hbase, hle, hlt⟩)
    · exact ⟨hbase, Nat.zero_le _, by omega⟩
    · exact ⟨hbase, Nat.zero_le _, by omega⟩
  · rintro ⟨hbase, -, hlt⟩
    rcases Nat.lt_or_ge page.2 m with hm | hm
    · exact .inl ⟨hbase, Nat.zero_le _, by omega⟩
    · exact .inr ⟨hbase, hm, by omega⟩

/-- The next pages of a reservation are reserved and not committed. -/
theorem pages_strays {count : ℕ} (h : m ≤ n) (hcount : n ≤ count) :
    pages base m (n - m) \ (pages base 0 count \ pages base 0 m) = ∅ := by
  refine Set.sdiff_eq_empty.mpr fun page hpage => ?_
  obtain ⟨hbase, hle, hlt⟩ := mem_pages.mp hpage
  refine ⟨⟨hbase, Nat.zero_le _, by omega⟩, fun hpage' => ?_⟩
  have := (mem_pages.mp hpage').2.2
  omega

theorem pageCount_eq (size : UInt64) : pageCount size = (size.toNat + 4095) / 4096 :=
  Nat.ceilDiv_eq_add_pred_div size.toNat 4096

theorem pageCount_zero : pageCount 0 = 0 := by
  rw [pageCount_eq]
  rfl

/-- The page counts of `grow` are the numbers of pages. -/
theorem toNat_pagesOf (h : size.toNat ≤ 2 ^ 64 - 65536) :
    (MemoryRegion.pagesOf size).toNat = pageCount size := by
  unfold MemoryRegion.pagesOf
  split_ifs with hsize
  · rw [hsize, pageCount_zero]
    rfl
  · have hpos := toNat_pos hsize
    have hpage : pageSize.toNat = 4096 := rfl
    rw [toNat_multipleOf hpos (by omega) (by omega), pageCount_eq, hpage]

end Pages

namespace MemoryRegion

variable {r : MemoryRegion} {size : UInt64}

/-- The pages of a region that is not empty. -/
theorem toNat_reservedPages (hmax : r.maxSize ≠ 0) (hle : r.maxSize.toNat ≤ 2 ^ 64 - 65536) :
    (r.reservedSize / pageSize).toNat = alignUp r.maxSize.toNat 65536 / 4096 := by
  have hpos := toNat_pos hmax
  have hunit : (max pageSize granularity).toNat = 65536 := rfl
  rw [reservedSize, if_neg hmax, UInt64.toNat_div, minimumSize,
    toNat_roundUp hpos (by omega) (by omega), hunit]
  rfl

theorem reservedPages_ne_zero (hmax : r.maxSize ≠ 0) (hle : r.maxSize.toNat ≤ 2 ^ 64 - 65536) :
    (r.reservedSize / pageSize).toNat ≠ 0 := by
  have hpos := toNat_pos hmax
  have hround : r.maxSize.toNat ≤ alignUp r.maxSize.toNat 65536 := le_alignUp (by decide)
  obtain ⟨k, hk⟩ := dvd_alignUp r.maxSize.toNat 65536
  rw [toNat_reservedPages hmax hle]
  omega

/-- A size within the region takes pages that are reserved. -/
theorem pageCount_le_reservedPages (hmax : r.maxSize ≠ 0)
    (hle : r.maxSize.toNat ≤ 2 ^ 64 - 65536) (hsize : size ≤ r.maxSize) :
    pageCount size ≤ (r.reservedSize / pageSize).toNat := by
  have hround : r.maxSize.toNat ≤ alignUp r.maxSize.toNat 65536 := le_alignUp (by decide)
  obtain ⟨k, hk⟩ := dvd_alignUp r.maxSize.toNat 65536
  have := UInt64.le_iff_toNat_le.mp hsize
  rw [toNat_reservedPages hmax hle, pageCount_eq]
  omega

end MemoryRegion

namespace RegionRun

/-- What holds of a region and its pages in every state. -/
structure Inv (s : RegionRun π) : Prop where
  maxSize_le : s.region.maxSize.toNat ≤ 2 ^ 64 - 65536
  size_le : s.region.currentSize ≤ s.region.maxSize
  unreserved : s.region.memory = 0 → s.region.currentSize = 0 ∧ s.env.2.reserved = ∅
  reserved : s.region.memory ≠ 0 → s.region.maxSize ≠ 0 ∧
    s.env.2.reserved = pages s.region.memory 0 (s.region.reservedSize / pageSize).toNat
  committed : s.env.2.committed = pages s.region.memory 0 (pageCount s.region.currentSize)
  requests : s.env.2.strays = ∅

/-- Two states of one size, with the same pages committed. -/
def SameSize (s s' : RegionRun π) : Prop :=
  s'.region.currentSize = s.region.currentSize ∧ s'.env.2.committed = s.env.2.committed

variable {p : Platform π} {r : MemoryRegion} {env : π × PageTable} {size : UInt64}

theorem Inv.accounted {s : RegionRun π} (hinv : s.Inv) : s.Accounted where
  size_le := hinv.size_le
  memory_eq_zero_iff := by
    refine ⟨fun hmemory => (hinv.unreserved hmemory).2, fun hempty => ?_⟩
    by_contra hmemory
    obtain ⟨hmax, hreserved⟩ := hinv.reserved hmemory
    rw [hempty] at hreserved
    exact MemoryRegion.reservedPages_ne_zero hmax hinv.maxSize_le
      (pages_eq_empty_iff.mp hreserved.symm)
  size_of_unreserved hmemory := (hinv.unreserved hmemory).1
  reserved hmemory := (hinv.reserved hmemory).2
  committed _ := hinv.committed
  requests := hinv.requests

theorem inv_start {maxSize : UInt64} (hmax : maxSize.toNat ≤ 2 ^ 64 - 65536) (env : π) :
    (start maxSize env).Inv where
  maxSize_le := hmax
  size_le := UInt64.zero_le
  unreserved _ := ⟨rfl, rfl⟩
  reserved hmemory := absurd rfl hmemory
  committed := by
    change (∅ : Set Page) = pages 0 0 (pageCount 0)
    rw [pageCount_zero, pages_zero]
  requests := rfl

/-- **Reserving** keeps the size and the committed pages. -/
theorem Inv.reserve (hinv : Inv ⟨r, env⟩) :
    Inv ⟨(r.reserve p.tracked env).1, (r.reserve p.tracked env).2⟩ ∧
      SameSize ⟨r, env⟩ ⟨(r.reserve p.tracked env).1, (r.reserve p.tracked env).2⟩ := by
  unfold MemoryRegion.reserve
  by_cases hmemory : r.memory = 0
  swap
  · rw [if_neg hmemory]
    exact ⟨hinv, rfl, rfl⟩
  rw [if_pos hmemory]
  by_cases hmax : r.maxSize = 0
  · rw [if_pos hmax]
    exact ⟨hinv, rfl, rfl⟩
  rw [if_neg hmax]
  obtain ⟨hsize, hreserved⟩ := hinv.unreserved hmemory
  have hcommitted (base : UInt64) :
      env.2.committed = pages base 0 (pageCount r.currentSize) := by
    rw [hinv.committed]
    change pages _ 0 (pageCount r.currentSize) = _
    rw [hsize, pageCount_zero, pages_zero, pages_zero]
  rcases hanswer : p.reservePages (r.reservedSize / pageSize) env.1 with ⟨base, inner⟩
  simp only [Platform.tracked, hanswer]
  by_cases hbase : base = 0
  · rw [if_pos hbase]
    exact ⟨{ hinv with
      unreserved := fun _ => ⟨hsize, hreserved⟩
      reserved := fun hne => absurd hbase hne
      committed := hcommitted base }, rfl, rfl⟩
  · rw [if_neg hbase]
    refine ⟨{ hinv with
      unreserved := fun hzero => absurd hzero hbase
      reserved := fun _ => ⟨hmax, ?_⟩
      committed := hcommitted base }, rfl, rfl⟩
    change env.2.reserved ∪ pages base 0 (r.reservedSize / pageSize).toNat = _
    rw [hreserved, Set.empty_union]
    rfl

/-- The pages of a size within the region. -/
theorem Inv.toNat_pagesOf_of_le {s : RegionRun π} (hinv : s.Inv) (h : size ≤ s.region.maxSize) :
    (MemoryRegion.pagesOf size).toNat = pageCount size :=
  toNat_pagesOf ((UInt64.le_iff_toNat_le.mp h).trans hinv.maxSize_le)

/-- **A request for more pages** names the next pages of the region only. -/
theorem Inv.request (hinv : Inv ⟨r, env⟩) (hmemory : r.memory ≠ 0)
    (hbound : r.currentSize.toNat + size.toNat < 2 ^ 64) (hnew : size + r.currentSize ≤ r.maxSize) :
    let asked := pages r.memory (MemoryRegion.pagesOf r.currentSize).toNat
      (MemoryRegion.pagesOf (size + r.currentSize) - MemoryRegion.pagesOf r.currentSize).toNat
    MemoryRegion.pagesOf (size + r.currentSize) > MemoryRegion.pagesOf r.currentSize →
      env.2.committed ∪ asked = pages r.memory 0 (pageCount (size + r.currentSize)) ∧
        asked \ (env.2.reserved \ env.2.committed) = ∅ := by
  intro asked hmore
  obtain ⟨hmax, hreserved⟩ := hinv.reserved hmemory
  have hcommitted : env.2.committed = pages r.memory 0 (pageCount r.currentSize) := hinv.committed
  have hcount : pageCount r.currentSize ≤ pageCount (size + r.currentSize) := by
    rw [pageCount_eq, pageCount_eq, UInt64.toNat_add, Nat.add_comm size.toNat,
      Nat.mod_eq_of_lt hbound]
    omega
  have hasked : asked = pages r.memory (pageCount r.currentSize)
      (pageCount (size + r.currentSize) - pageCount r.currentSize) := by
    show pages _ _ _ = _
    rw [UInt64.toNat_sub_of_le _ _ (UInt64.le_of_lt hmore), hinv.toNat_pagesOf_of_le hnew,
      hinv.toNat_pagesOf_of_le hinv.size_le]
  rw [hasked, hreserved, hcommitted, pages_union hcount]
  exact ⟨rfl, pages_strays hcount
    (MemoryRegion.pageCount_le_reservedPages hmax hinv.maxSize_le hnew)⟩

/-- **Committing** asks for the next pages of the region only, and changes nothing when it fails. -/
theorem Inv.commit (hinv : Inv ⟨r, env⟩) (hmemory : r.memory ≠ 0)
    (hbound : r.currentSize.toNat + size.toNat < 2 ^ 64) :
    Inv ⟨(r.commit p.tracked size env).2.1, (r.commit p.tracked size env).2.2⟩ ∧
      ((r.commit p.tracked size env).1 = 0 → SameSize ⟨r, env⟩
        ⟨(r.commit p.tracked size env).2.1, (r.commit p.tracked size env).2.2⟩) := by
  rcases r.commit_spec p.tracked size env with ⟨-, heq⟩ | ⟨hnew, hmore, heq⟩ |
    ⟨hnew, hmore, hok, heq⟩ | ⟨hnew, hmore, hok, heq⟩
  · rw [heq]
    exact ⟨{ hinv with }, fun _ => ⟨rfl, rfl⟩⟩
  · -- no page more is needed
    rw [heq]
    have hsame : pageCount (size + r.currentSize) = pageCount r.currentSize := by
      have hle := UInt64.le_iff_toNat_le.mp (UInt64.not_lt.mp hmore)
      rw [hinv.toNat_pagesOf_of_le hnew, hinv.toNat_pagesOf_of_le hinv.size_le] at hle
      rw [pageCount_eq, pageCount_eq, UInt64.toNat_add, Nat.add_comm size.toNat,
        Nat.mod_eq_of_lt hbound] at hle ⊢
      dsimp only at hle ⊢
      omega
    refine ⟨{ hinv with
      size_le := hnew
      unreserved := fun hzero => absurd hzero hmemory
      committed := ?_ }, fun hzero => absurd hzero hmemory⟩
    change env.2.committed = pages r.memory 0 (pageCount (size + r.currentSize))
    rw [hsame]
    exact hinv.committed
  · rw [heq]
    obtain ⟨hcommitted, hstrays⟩ := hinv.request hmemory hbound hnew hmore
    refine ⟨{ hinv with
      size_le := hnew
      unreserved := fun hzero => absurd hzero hmemory
      committed := ?_
      requests := ?_ }, fun hzero => absurd hzero hmemory⟩
    · rw [committed_commitPages, if_pos hok]
      exact hcommitted
    · rw [strays_commitPages, hstrays, Set.union_empty]
      exact hinv.requests
  · rw [heq]
    obtain ⟨-, hstrays⟩ := hinv.request hmemory hbound hnew hmore
    have hsame : (p.tracked.commitPages r.memory (MemoryRegion.pagesOf r.currentSize)
        (MemoryRegion.pagesOf (size + r.currentSize) - MemoryRegion.pagesOf r.currentSize)
          env).2.2.committed = env.2.committed := by
      rw [committed_commitPages, hok]
      rfl
    refine ⟨{ hinv with
      committed := hsame.trans hinv.committed
      requests := ?_ }, fun _ => ⟨rfl, hsame⟩⟩
    rw [strays_commitPages, hstrays, Set.union_empty]
    exact hinv.requests

theorem Inv.grow (hinv : Inv ⟨r, env⟩) (hbound : r.currentSize.toNat + size.toNat < 2 ^ 64) :
    Inv ⟨(r.grow p.tracked size env).2.1, (r.grow p.tracked size env).2.2⟩ ∧
      ((r.grow p.tracked size env).1 = 0 → SameSize ⟨r, env⟩
        ⟨(r.grow p.tracked size env).2.1, (r.grow p.tracked size env).2.2⟩) := by
  obtain ⟨hreserve, hsame⟩ := hinv.reserve (p := p)
  unfold MemoryRegion.grow
  rcases hanswer : r.reserve p.tracked env with ⟨r', env'⟩
  rw [hanswer] at hreserve hsame
  dsimp only
  by_cases hmemory : r'.memory = 0
  · rw [if_pos hmemory]
    exact ⟨hreserve, fun _ => hsame⟩
  rw [if_neg hmemory]
  have hsize : r'.currentSize = r.currentSize := hsame.1
  have hbound' : r'.currentSize.toNat + size.toNat < 2 ^ 64 := by rwa [hsize]
  obtain ⟨hcommit, hfail⟩ := hreserve.commit (p := p) hmemory hbound'
  exact ⟨hcommit, fun hnull => ⟨(hfail hnull).1.trans hsame.1, (hfail hnull).2.trans hsame.2⟩⟩

/-- `claim` asks for a size that exists, whatever was committed. -/
theorem Inv.claim (hinv : Inv ⟨r, env⟩) :
    Inv ⟨(r.claim p.tracked env).2.1, (r.claim p.tracked env).2.2⟩ ∧
      ((r.claim p.tracked env).1 = 0 → SameSize ⟨r, env⟩
        ⟨(r.claim p.tracked env).2.1, (r.claim p.tracked env).2.2⟩) := by
  unfold MemoryRegion.claim
  dsimp only
  by_cases hfull : r.maxSize - r.currentSize = 0
  · rw [if_pos hfull]
    exact ⟨{ hinv with }, fun _ => ⟨rfl, rfl⟩⟩
  rw [if_neg hfull]
  have hle : r.currentSize ≤ r.maxSize := hinv.size_le
  refine hinv.grow ?_
  have := UInt64.le_iff_toNat_le.mp hle
  have := r.maxSize.toNat_lt
  rw [UInt64.toNat_sub_of_le _ _ hle]
  omega

theorem Inv.decommit (hinv : Inv ⟨r, env⟩) (hmemory : r.memory ≠ 0) (hsize : r.currentSize ≠ 0) :
    Inv ⟨{ r with currentSize := 0 },
      p.tracked.decommitPages r.memory 0 (multipleOf r.currentSize pageSize) env⟩ := by
  have hold : r.currentSize ≤ r.maxSize := hinv.size_le
  have hcount := hinv.toNat_pagesOf_of_le hold
  rw [MemoryRegion.pagesOf, if_neg hsize] at hcount
  have hcommitted : env.2.committed = pages r.memory 0 (pageCount r.currentSize) := hinv.committed
  refine { hinv with
    size_le := UInt64.zero_le
    unreserved := fun hzero => absurd hzero hmemory
    committed := ?_ }
  change env.2.committed \ pages r.memory 0 (multipleOf r.currentSize pageSize).toNat =
    pages r.memory 0 (pageCount 0)
  rw [hcommitted, hcount, Set.sdiff_self, pageCount_zero, pages_zero]

theorem Inv.release (hinv : Inv ⟨r, env⟩) (hmemory : r.memory ≠ 0) (hsize : r.currentSize = 0) :
    Inv ⟨{ r with memory := 0 },
      p.tracked.releasePages r.memory 0 (r.reservedSize / pageSize) env⟩ := by
  have hcommitted : env.2.committed = pages r.memory 0 (pageCount r.currentSize) := hinv.committed
  have hreserved : env.2.reserved = pages r.memory 0 (r.reservedSize / pageSize).toNat :=
    (hinv.reserved hmemory).2
  refine { hinv with
    unreserved := fun _ => ⟨hsize, ?_⟩
    reserved := fun hne => absurd rfl hne
    committed := ?_ }
  · change env.2.reserved \ pages r.memory 0 (r.reservedSize / pageSize).toNat = ∅
    rw [hreserved, Set.sdiff_self]
  · change env.2.committed \ pages r.memory 0 (r.reservedSize / pageSize).toNat =
      pages 0 0 (pageCount r.currentSize)
    rw [hcommitted, hsize, pageCount_zero, pages_zero, pages_zero, Set.empty_sdiff]

/-- **Resetting** gives back what was committed, and what was reserved if it is to be released. -/
theorem Inv.reset (hinv : Inv ⟨r, env⟩) (release : Bool) :
    Inv ⟨(r.reset p.tracked release env).1, (r.reset p.tracked release env).2⟩ := by
  unfold MemoryRegion.reset
  by_cases hmemory : r.memory = 0
  · rw [if_pos hmemory]
    exact hinv
  rw [if_neg hmemory]
  by_cases hsize : r.currentSize > 0
  · have hdecommit := hinv.decommit (p := p) hmemory (UInt64.ne_of_lt hsize).symm
    simp only [if_pos hsize]
    cases release with
    | false => exact hdecommit
    | true => exact hdecommit.release hmemory rfl
  · have hzero : r.currentSize = 0 := UInt64.le_zero_iff.mp (UInt64.not_lt.mp hsize)
    simp only [if_neg hsize]
    cases release with
    | false => exact hinv
    | true => exact hinv.release hmemory hzero

/-- One call keeps the account, and changes nothing if it fails. -/
theorem Inv.step (s : RegionRun π) (call : RegionCall) (hinv : s.Inv) (hlegal : s.Bounded call) :
    ∃ o s', s.step p call = some (o, s') ∧ s'.Inv ∧ s.FailsQuietly p call := by
  cases call with
  | grow size =>
    obtain ⟨hnext, hfail⟩ := Inv.grow (p := p) hinv hlegal
    refine ⟨_, _, rfl, hnext, fun s' hstep => ?_⟩
    obtain ⟨hnull, rfl⟩ := Prod.mk.inj (Option.some.inj hstep)
    exact hfail (Option.some.inj hnull)
  | claim =>
    obtain ⟨hnext, hfail⟩ := Inv.claim (p := p) hinv
    refine ⟨_, _, rfl, hnext, fun s' hstep => ?_⟩
    obtain ⟨hnull, rfl⟩ := Prod.mk.inj (Option.some.inj hstep)
    exact hfail (Option.some.inj hnull)
  | reset release =>
    refine ⟨_, _, rfl, Inv.reset (p := p) hinv release, fun s' hstep => ?_⟩
    obtain ⟨hnull, -⟩ := Prod.mk.inj (Option.some.inj hstep)
    exact absurd hnull (by simp)

/-- **The pages of a region are accounted for after every run**, whatever the platform refuses, and
a call that fails leaves the size and the committed pages as they were. -/
theorem run_accounted (p : Platform π) (maxSize : UInt64)
    (hmax : maxSize.toNat ≤ 2 ^ 64 - 65536) (env : π) (calls : List RegionCall)
    (hlegal : Along (step p) Bounded (start maxSize env) calls) :
    (∃ os s, exec (step p) (start maxSize env) calls = some (os, s) ∧ s.Accounted) ∧
      Along (step p) (FailsQuietly p) (start maxSize env) calls := by
  have hstart := inv_start hmax env
  constructor
  · obtain ⟨os, s, hexec, hinv⟩ := exec_of_defined Inv
      (fun s call hinv hlegal => by
        obtain ⟨o, s', hstep, hnext, -⟩ := hinv.step (p := p) s call hlegal
        exact ⟨o, s', hstep, hnext⟩) hstart hlegal
    exact ⟨os, s, hexec, hinv.accounted⟩
  · exact Along.of_defined Inv Inv.step hstart hlegal

/-- A region of three pages that grows, is reset, grows by nothing and is claimed. -/
theorem run_accounted_reset :
    (∃ os s, exec (step Platform.granting) (start 0x3000 ())
        [.grow 1, .reset false, .grow 0, .grow 0x1000, .claim] = some (os, s) ∧ s.Accounted) ∧
      Along (step Platform.granting) (FailsQuietly Platform.granting) (start 0x3000 ())
        [.grow 1, .reset false, .grow 0, .grow 0x1000, .claim] := by
  refine run_accounted Platform.granting 0x3000 (by decide) () _ ?_
  refine (along_cons rfl).mpr ⟨show 0 + 1 < 2 ^ 64 by decide, ?_⟩
  refine (along_cons rfl).mpr ⟨trivial, ?_⟩
  refine (along_cons rfl).mpr ⟨show 0 + 0 < 2 ^ 64 by decide, ?_⟩
  refine (along_cons rfl).mpr ⟨show 0 + 0x1000 < 2 ^ 64 by decide, ?_⟩
  exact (along_cons rfl).mpr ⟨trivial, trivial⟩

end RegionRun

end Hologine.Memory
