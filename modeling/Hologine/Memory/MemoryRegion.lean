import Hologine.Exception
import Hologine.Math.Util
import Mathlib.Tactic.SplitIfs

/-!
# Memory regions

Model of `memory_region` (`core/memory/memory_region.cpp`) over the platform it runs on. The
platform and the exception stack of the thread are a state of any type, and `Platform` holds the
calls that read and change it; nothing is assumed of them here. The sizes are those of
`windows/core/memory/memory_region_base.cpp:65-79`. Pointers and `std::size_t` are `UInt64`, `0`
being null.

* `MemoryRegion.commit_spec`: the four ways in which `grow` ends once the region is reserved.
* `MemoryRegion.grow_cases`: a region that grows is where it was and has the size added.
* `MemoryRegion.grow_of_commits`: one that has room grows, if the platform commits the pages.
-/

namespace Hologine.Memory

open Hologine.Math

/-- The platform's calls for memory, and `push_exception`. -/
structure Platform (π : Type) where
  pushException : ExceptionCode → π → π
  reservePages (maxPages : UInt64) : π → UInt64 × π
  releasePages (base index count : UInt64) : π → π
  commitPages (base index count : UInt64) : π → Bool × π
  decommitPages (base index count : UInt64) : π → π

/-- The platform commits all pages that it is asked to. -/
def Platform.Commits {π : Type} (p : Platform π) : Prop :=
  ∀ base index count env, (p.commitPages base index count env).1 = true

/-- `get_page_size`. -/
def pageSize : UInt64 := 0x1000

/-- `get_granularity`. -/
def granularity : UInt64 := 0x10000

/-- A platform without exceptions that grants everything, its memory at the granularity. -/
def Platform.granting : Platform Unit where
  pushException _ env := env
  reservePages _ env := (granularity, env)
  releasePages _ _ _ env := env
  commitPages _ _ _ env := (true, env)
  decommitPages _ _ _ env := env

/-- A region: its maximum and current size, and where it is once reserved. -/
structure MemoryRegion where
  maxSize : UInt64
  currentSize : UInt64
  memory : UInt64
  deriving Repr, DecidableEq

namespace MemoryRegion

/-- The constructor. -/
def create (maxSize : UInt64) : MemoryRegion := ⟨maxSize, 0, 0⟩

/-- `get_minimum_size`. -/
def minimumSize (hint : UInt64) : UInt64 := roundUp hint (max pageSize granularity)

/-- `get_reserved_size`. -/
def reservedSize (r : MemoryRegion) : UInt64 := if r.maxSize = 0 then 0 else minimumSize r.maxSize

variable {π : Type} (p : Platform π)

/-- The part of `grow` that reserves the region on its first use. -/
def reserve (r : MemoryRegion) (env : π) : MemoryRegion × π :=
  if r.memory = 0 then
    if r.maxSize = 0 then (r, env)
    else
      let (memory, env) := p.reservePages (r.reservedSize / pageSize) env
      ({ r with memory := memory }, env)
  else (r, env)

/-- The part of `grow` that commits pages for `size` more bytes. -/
def commit (r : MemoryRegion) (size : UInt64) (env : π) : UInt64 × MemoryRegion × π :=
  let newSize := size + r.currentSize
  if newSize > r.maxSize then (0, r, p.pushException .outOfMemory env)
  else
    let currentPageCount := if r.currentSize = 0 then 0 else multipleOf r.currentSize pageSize
    let newPageCount := if newSize = 0 then 0 else multipleOf newSize pageSize
    if newPageCount > currentPageCount then
      let (ok, env) :=
        p.commitPages r.memory currentPageCount (newPageCount - currentPageCount) env
      if ok then (r.memory, { r with currentSize := newSize }, env) else (0, r, env)
    else (r.memory, { r with currentSize := newSize }, env)

/-- `grow`: the base of the region, or null. -/
def grow (r : MemoryRegion) (size : UInt64) (env : π) : UInt64 × MemoryRegion × π :=
  let (r, env) := r.reserve p env
  if r.memory = 0 then (0, r, env) else r.commit p size env

/-- `claim`: the region grows to all of its size. -/
def claim (r : MemoryRegion) (env : π) : UInt64 × MemoryRegion × π :=
  let remainingSize := r.maxSize - r.currentSize
  if remainingSize = 0 then (0, r, p.pushException .invalidOperation env)
  else r.grow p remainingSize env

/-- `reset`: the committed pages are given back and, with `release`, the reserved ones too. -/
def reset (r : MemoryRegion) (release : Bool) (env : π) : MemoryRegion × π :=
  if r.memory = 0 then (r, env)
  else
    let (r, env) :=
      if r.currentSize > 0 then
        ({ r with currentSize := 0 },
          p.decommitPages r.memory 0 (multipleOf r.currentSize pageSize) env)
      else (r, env)
    if release then
      ({ r with memory := 0 }, p.releasePages r.memory 0 (r.reservedSize / pageSize) env)
    else (r, env)

/-- `get_current_size`. -/
def getCurrentSize (r : MemoryRegion) : UInt64 :=
  if r.currentSize = 0 then 0 else roundUp r.currentSize pageSize

/-- Reserving a region gives it a memory, if it has none. -/
theorem reserve_eq (r : MemoryRegion) (p : Platform π) (env : π) :
    ∃ memory, (r.reserve p env).1 = { r with memory := memory } ∧
      (r.memory ≠ 0 → memory = r.memory) := by
  unfold reserve
  split_ifs with hmemory hmax
  · exact ⟨r.memory, rfl, fun _ => rfl⟩
  · exact ⟨_, rfl, fun hne => absurd hmemory hne⟩
  · exact ⟨r.memory, rfl, fun _ => rfl⟩

/-- The pages that `grow` takes a size to need. -/
def pagesOf (size : UInt64) : UInt64 := if size = 0 then 0 else multipleOf size pageSize

/-- **The four ways of `commit`**: the region is exhausted, or it needs no page more, or the
platform commits the pages that it needs more, or refuses them. -/
theorem commit_spec (r : MemoryRegion) (p : Platform π) (size : UInt64) (env : π) :
    let more := p.commitPages r.memory (pagesOf r.currentSize)
      (pagesOf (size + r.currentSize) - pagesOf r.currentSize) env
    (size + r.currentSize > r.maxSize ∧
        r.commit p size env = (0, r, p.pushException .outOfMemory env)) ∨
      (size + r.currentSize ≤ r.maxSize ∧ ¬ pagesOf (size + r.currentSize) > pagesOf r.currentSize ∧
        r.commit p size env = (r.memory, { r with currentSize := size + r.currentSize }, env)) ∨
      (size + r.currentSize ≤ r.maxSize ∧ pagesOf (size + r.currentSize) > pagesOf r.currentSize ∧
        more.1 = true ∧ r.commit p size env =
          (r.memory, { r with currentSize := size + r.currentSize }, more.2)) ∨
      (size + r.currentSize ≤ r.maxSize ∧ pagesOf (size + r.currentSize) > pagesOf r.currentSize ∧
        more.1 = false ∧ r.commit p size env = (0, r, more.2)) := by
  intro more
  have hcommit : r.commit p size env =
      if size + r.currentSize > r.maxSize then (0, r, p.pushException .outOfMemory env)
      else if pagesOf (size + r.currentSize) > pagesOf r.currentSize then
        if more.1 then (r.memory, { r with currentSize := size + r.currentSize }, more.2)
        else (0, r, more.2)
      else (r.memory, { r with currentSize := size + r.currentSize }, env) := rfl
  rw [hcommit]
  by_cases hmax : size + r.currentSize > r.maxSize
  · rw [if_pos hmax]
    exact .inl ⟨hmax, rfl⟩
  have hle := UInt64.not_lt.mp hmax
  rw [if_neg hmax]
  by_cases hmore : pagesOf (size + r.currentSize) > pagesOf r.currentSize
  · rw [if_pos hmore]
    cases hok : more.1 with
    | true => exact .inr (.inr (.inl ⟨hle, hmore, rfl, rfl⟩))
    | false => exact .inr (.inr (.inr ⟨hle, hmore, rfl, rfl⟩))
  · rw [if_neg hmore]
    exact .inr (.inl ⟨hle, hmore, rfl⟩)

/-- **What committing pages does**: it answers null and keeps the region, or it answers the
region's memory and adds the size. -/
theorem commit_cases (r : MemoryRegion) (p : Platform π) (size : UInt64) (env : π) :
    ((r.commit p size env).1 = 0 ∧ (r.commit p size env).2.1 = r) ∨
      ((r.commit p size env).1 = r.memory ∧ size + r.currentSize ≤ r.maxSize ∧
        (r.commit p size env).2.1 = { r with currentSize := size + r.currentSize }) := by
  rcases r.commit_spec p size env with ⟨-, heq⟩ | ⟨hle, -, heq⟩ | ⟨hle, -, -, heq⟩ | ⟨-, -, -, heq⟩
  · rw [heq]
    exact .inl ⟨rfl, rfl⟩
  · rw [heq]
    exact .inr ⟨rfl, hle, rfl⟩
  · rw [heq]
    exact .inr ⟨rfl, hle, rfl⟩
  · rw [heq]
    exact .inl ⟨rfl, rfl⟩

/-- A region that is reserved only commits pages. -/
theorem grow_of_reserved {r : MemoryRegion} (hmemory : r.memory ≠ 0) (p : Platform π)
    (size : UInt64) (env : π) : r.grow p size env = r.commit p size env := by
  unfold grow reserve
  rw [if_neg hmemory]
  exact if_neg hmemory

/-- **What `grow` does**: it answers null and the size stays, or it answers the region's memory and
adds the size. -/
theorem grow_cases (r : MemoryRegion) (p : Platform π) (size : UInt64) (env : π) :
    ∃ memory, (r.memory ≠ 0 → memory = r.memory) ∧
      (((r.grow p size env).1 = 0 ∧ (r.grow p size env).2.1 = { r with memory := memory }) ∨
        (memory ≠ 0 ∧ (r.grow p size env).1 = memory ∧ size + r.currentSize ≤ r.maxSize ∧
          (r.grow p size env).2.1 =
            { r with memory := memory, currentSize := size + r.currentSize })) := by
  obtain ⟨memory, hreserve, hsame⟩ := r.reserve_eq p env
  refine ⟨memory, hsame, ?_⟩
  unfold grow
  dsimp only
  rw [hreserve]
  by_cases hmemory : memory = 0
  · rw [if_pos hmemory]
    exact .inl ⟨rfl, rfl⟩
  rw [if_neg hmemory]
  rcases commit_cases { r with memory := memory } p size (r.reserve p env).2 with
    ⟨hnull, hkeep⟩ | ⟨hbase, hle, hgrown⟩
  · exact .inl ⟨hnull, hkeep⟩
  · exact .inr ⟨hmemory, hbase, hle, hgrown⟩

/-- **A region that has room grows**, if the platform commits what it is asked to. -/
theorem grow_of_commits {r : MemoryRegion} {p : Platform π} {size : UInt64}
    (hcommits : p.Commits) (hmemory : r.memory ≠ 0)
    (hroom : size.toNat + r.currentSize.toNat ≤ r.maxSize.toNat) (env : π) : ∃ env',
      r.grow p size env = (r.memory, { r with currentSize := size + r.currentSize }, env') := by
  have hsum : (size + r.currentSize).toNat = size.toNat + r.currentSize.toNat := by
    rw [UInt64.toNat_add, Nat.mod_eq_of_lt (Nat.lt_of_le_of_lt hroom r.maxSize.toNat_lt)]
  have hfits : ¬ size + r.currentSize > r.maxSize := by
    rw [gt_iff_lt, UInt64.lt_iff_toNat_lt, hsum]
    omega
  rw [grow_of_reserved hmemory]
  rcases r.commit_spec p size env with ⟨hmax, -⟩ | ⟨-, -, heq⟩ | ⟨-, -, -, heq⟩ | ⟨-, -, hno, -⟩
  · exact absurd hmax hfits
  · exact ⟨_, heq⟩
  · exact ⟨_, heq⟩
  · exact absurd ((hcommits _ _ _ env).symm.trans hno) (by simp)

end MemoryRegion

end Hologine.Memory
