import Hologine.Exception
import Hologine.Library.Run
import Hologine.Math.Bits
import Hologine.Memory.Allocator
import Hologine.Memory.MemoryArenaPool

/-!
# The heap allocator

Model of `heap_allocator` (`core/memory/heap_allocator.cpp`): its constructor's pools and
`allocate`. Of a pool only the object size is modelled here and the check of `pool_allocator` that
a request is no larger; which block it finds then, if any, is an argument.

The slack that the alignment needs is all `allocate` selects the pool by: `final_size` is assigned
`required_alignment` alone, without `size`. So a block may be too small for what is moved up in it.

* `Fits` is what a request must meet for its result to stay in its block.

Results:
* `contained_of_fits`: the result of a request that fits is aligned and stays in its block.
* `not_contained_of_not_fits`: one that does not fit leaves a block at address 16.
* `contained_iff`: every run over pools that keep their blocks disjoint and aligned keeps its
  results in their blocks, and disjoint, **iff** every request fits.
-/

namespace Hologine.Memory

open Hologine.Library.Align Hologine.Library.Bits Hologine.Library.Run Hologine.Math

/-- A heap allocator: the bounds of its pools' sizes, as logarithms, and the object sizes of its
pools. -/
structure HeapAllocator where
  minimumPoolSize : UInt64
  maximumPoolSize : UInt64
  objectSizes : List UInt64
  deriving Repr, DecidableEq

/-- What a call returns: the exceptions it pushes and its pointer, `0` being null. -/
structure Outcome where
  pushed : List ExceptionCode
  pointer : UInt64
  deriving Repr, DecidableEq

namespace HeapAllocator

/-- The loop that constructs the pools: `count` of them from size `2 ^ currentSize` on, each with
objects no smaller than a free node. -/
def constructPools : Nat → Nat → List UInt64
  | _, 0 => []
  | currentSize, count + 1 =>
    max (1 <<< UInt64.ofNat currentSize) freeNodeSize :: constructPools (currentSize + 1) count

/-- The constructor. It asserts the order of its bounds, and shifts an `int`. -/
def create (poolStart poolEnd : UInt64) : Option HeapAllocator :=
  let minimumPoolSize := bitLog2 poolStart
  let maximumPoolSize := bitLog2 poolEnd
  if poolStart > 0 ∧ poolEnd ≥ poolStart ∧ maximumPoolSize < 31 then
    some ⟨minimumPoolSize, maximumPoolSize, constructPools minimumPoolSize.toNat
      (maximumPoolSize.toNat + 1 - minimumPoolSize.toNat)⟩
  else none

/-- `pool_allocator::allocate` of a pool that finds the block `obtained`, or null. -/
def poolAllocate (objectSize obtained size : UInt64) : Outcome :=
  if size > objectSize then ⟨[.invalidArgument], 0⟩ else ⟨[], obtained⟩

variable (h : HeapAllocator)

/-- The first part of `allocate`: the logarithm of the size of the pool it selects. -/
def poolIndex (alignment : UInt64) : UInt64 :=
  let minimumAlignment := max alignment defaultAlignment
  let requiredAlignment := minimumAlignment - defaultAlignment
  let requiredAlignment :=
    if requiredAlignment > 0 then requiredAlignment - 1 else requiredAlignment
  -- the size of the request is left out
  let finalSize := requiredAlignment
  max (bitLog2 finalSize) h.minimumPoolSize

/-- `allocate`, over the block that the pool it selects finds. -/
def allocate (obtained size alignment : UInt64) : Option Outcome :=
  if h.poolIndex alignment > h.maximumPoolSize then some ⟨[.outOfMemory], 0⟩
  else do
    let poolIndex := h.poolIndex alignment - h.minimumPoolSize
    let objectSize ← h.objectSizes[poolIndex.toNat]?
    let base := poolAllocate objectSize obtained size
    if base.pointer = 0 then some base
    else some { base with pointer := alignPointer base.pointer alignment }

end HeapAllocator

/-! ## Runs -/

/-- The arguments of a call: any size, and an alignment that is a power of two. -/
structure Request where
  size : UInt64
  alignment : UInt64
  powerOfTwo : ∃ a, alignment.toNat = 2 ^ a

/-- A block that a pool gave up, and what the caller was returned in it. -/
structure Allocation where
  block : UInt64
  blockSize : UInt64
  pointer : UInt64
  size : UInt64

/-- The ranges of `size` bytes at `p` and of `size'` bytes at `p'` share no byte. -/
def Disjoint (p size p' size' : UInt64) : Prop :=
  p.toNat + size.toNat ≤ p'.toNat ∨ p'.toNat + size'.toNat ≤ p.toNat

namespace HeapAllocator

variable (h : HeapAllocator)

/-- The object size of the pool that is asked for a block, if one is and has large enough ones. -/
def asked (request : Request) : Option UInt64 :=
  if h.poolIndex request.alignment > h.maximumPoolSize then none
  else (h.objectSizes[(h.poolIndex request.alignment - h.minimumPoolSize).toNat]?).filter
    fun objectSize => request.size ≤ objectSize

/-- The allocations after a call whose pool finds the block `obtained`, if it is asked. -/
def record (live : List Allocation) (request : Request) (obtained : UInt64) (outcome : Outcome) :
    List Allocation :=
  match h.asked request with
  | none => live
  | some objectSize =>
    if obtained = 0 then live else ⟨obtained, objectSize, outcome.pointer, request.size⟩ :: live

/-- One call, over the block that the pool asked finds. -/
def step (live : List Allocation) : Request × UInt64 → Option (Outcome × List Allocation)
  | (request, obtained) =>
    (h.allocate obtained request.size request.alignment).map fun outcome =>
      (outcome, h.record live request obtained outcome)

/-- What is assumed of the pools: a block found is aligned by default, lies in the address space
and is disjoint from the blocks found before. -/
def PoolsSound (live : List Allocation) : Request × UInt64 → Prop
  | (request, obtained) => ∀ objectSize, h.asked request = some objectSize → obtained ≠ 0 →
      16 ∣ obtained.toNat ∧ obtained.toNat + objectSize.toNat ≤ 2 ^ 64 ∧
        ∀ a ∈ live, Disjoint obtained objectSize a.block a.blockSize

/-- The call is defined, and a result that is not null is aligned as requested, stays in the block
obtained for it and shares no byte with another result. -/
def Contained (live : List Allocation) : Request × UInt64 → Prop
  | (request, obtained) =>
    ∃ outcome, h.allocate obtained request.size request.alignment = some outcome ∧
      (outcome.pointer ≠ 0 →
        request.alignment.toNat ∣ outcome.pointer.toNat ∧
        (∃ objectSize, h.asked request = some objectSize ∧
          obtained.toNat ≤ outcome.pointer.toNat ∧
          outcome.pointer.toNat + request.size.toNat ≤ obtained.toNat + objectSize.toNat) ∧
        ∀ a ∈ live, a.pointer ≠ 0 → Disjoint outcome.pointer request.size a.pointer a.size)

end HeapAllocator

/-- The logarithm of the size of the pool that `alignment` selects, of pools from `poolStart` on. -/
def selected (poolStart alignment : UInt64) : Nat :=
  max (Nat.log2 (alignment.toNat - 17)) (Nat.log2 poolStart.toNat)

/-- The object size of the pool of size `2 ^ k`. -/
def objectSize (k : Nat) : Nat := max (2 ^ k) 24

/-- **The condition on a request**: its alignment is at most the default one, or there is no pool
for its alignment, or that pool's objects are smaller than its size, or they have room for its size
and the slack of its alignment. -/
def Fits (poolStart poolEnd : UInt64) (request : Request) : Prop :=
  request.alignment.toNat ≤ 16 ∨ Nat.log2 poolEnd.toNat < selected poolStart request.alignment ∨
    objectSize (selected poolStart request.alignment) < request.size.toNat ∨
    request.size.toNat + (request.alignment.toNat - 16) ≤
      objectSize (selected poolStart request.alignment)

namespace HeapAllocator

variable {h : HeapAllocator} {poolStart poolEnd : UInt64}

/-! ## The pool selected -/

theorem create_eq_some : create poolStart poolEnd = some h ↔
    (poolStart > 0 ∧ poolEnd ≥ poolStart ∧ bitLog2 poolEnd < 31) ∧
      h = ⟨bitLog2 poolStart, bitLog2 poolEnd, constructPools (Nat.log2 poolStart.toNat)
        (Nat.log2 poolEnd.toNat + 1 - Nat.log2 poolStart.toNat)⟩ := by
  rw [create]
  simp only [toNat_bitLog2]
  split_ifs with hc <;> simp [hc, eq_comm]

theorem log2_poolEnd_lt (hcreate : create poolStart poolEnd = some h) :
    Nat.log2 poolEnd.toNat < 31 := by
  obtain ⟨⟨-, -, hend⟩, -⟩ := create_eq_some.mp hcreate
  rw [← toNat_bitLog2]
  exact UInt64.lt_iff_toNat_lt.mp hend

theorem getElem_constructPools (count start i : Nat) (hi : i < count) :
    (constructPools start count)[i]? =
      some (max (1 <<< UInt64.ofNat (start + i)) freeNodeSize) := by
  induction count generalizing start i with
  | zero => omega
  | succ count ih =>
    cases i with
    | zero => rfl
    | succ i =>
      rw [constructPools, List.getElem?_cons_succ, ih (start + 1) i (by omega), Nat.add_assoc,
        Nat.add_comm 1 i]

theorem toNat_poolIndex (hcreate : create poolStart poolEnd = some h) (alignment : UInt64) :
    (h.poolIndex alignment).toNat = selected poolStart alignment := by
  obtain ⟨-, rfl⟩ := create_eq_some.mp hcreate
  have hmax : (max alignment defaultAlignment - defaultAlignment).toNat = alignment.toNat - 16 := by
    have h16 : defaultAlignment.toNat = 16 := rfl
    rw [UInt64.toNat_sub_of_le, toNat_max, h16]
    · omega
    · rw [UInt64.le_iff_toNat_le, toNat_max]
      omega
  rw [poolIndex, selected, toNat_max, toNat_bitLog2, toNat_bitLog2]
  congr 2
  split_ifs with hpos
  · rw [gt_iff_lt, UInt64.lt_iff_toNat_lt, hmax, UInt64.toNat_zero] at hpos
    rw [toNat_sub_one (hmax ▸ hpos), hmax]
    omega
  · rw [gt_iff_lt, UInt64.lt_iff_toNat_lt, hmax, UInt64.toNat_zero] at hpos
    rw [hmax]
    omega

/-- The object size of a pool that the constructor makes. -/
theorem toNat_objectSize {k : Nat} (hk : k < 31) :
    (max (1 <<< UInt64.ofNat k) freeNodeSize).toNat = objectSize k := by
  have hpow : 2 ^ k < 2 ^ 31 := Nat.pow_lt_pow_right (by decide) hk
  have hshift : (1 <<< UInt64.ofNat k : UInt64).toNat = 2 ^ k := by
    rw [UInt64.toNat_shiftLeft, UInt64.toNat_one, UInt64.toNat_ofNat',
      Nat.mod_eq_of_lt (by omega : k < 2 ^ 64), Nat.mod_eq_of_lt (by omega : k < 64),
      Nat.one_shiftLeft, Nat.mod_eq_of_lt (by omega)]
  rw [toNat_max, hshift, objectSize]
  rfl

/-- The pool that is asked for a block, and the size of its objects. -/
theorem getElem_objectSizes (hcreate : create poolStart poolEnd = some h) {alignment : UInt64}
    (hle : selected poolStart alignment ≤ Nat.log2 poolEnd.toNat) :
    ∃ size, h.objectSizes[(h.poolIndex alignment - h.minimumPoolSize).toNat]? = some size ∧
      size.toNat = objectSize (selected poolStart alignment) := by
  have hindex := toNat_poolIndex hcreate alignment
  have hlog := log2_poolEnd_lt hcreate
  obtain ⟨-, hh⟩ := create_eq_some.mp hcreate
  have hstart : h.minimumPoolSize.toNat = Nat.log2 poolStart.toNat := by
    rw [hh]
    exact toNat_bitLog2 poolStart
  have hmin : Nat.log2 poolStart.toNat ≤ selected poolStart alignment := Nat.le_max_right _ _
  have hsub : (h.poolIndex alignment - h.minimumPoolSize).toNat =
      selected poolStart alignment - Nat.log2 poolStart.toNat := by
    rw [UInt64.toNat_sub_of_le, hindex, hstart]
    rw [UInt64.le_iff_toNat_le, hindex, hstart]
    exact hmin
  have hget := getElem_constructPools (Nat.log2 poolEnd.toNat + 1 - Nat.log2 poolStart.toNat)
    (Nat.log2 poolStart.toNat) (selected poolStart alignment - Nat.log2 poolStart.toNat) (by omega)
  rw [Nat.add_sub_cancel' hmin] at hget
  refine ⟨_, ?_, toNat_objectSize (k := selected poolStart alignment) (by omega)⟩
  rw [hsub, hh]
  exact hget

/-- **What a call does**: it is refused, or it moves the block of the pool selected up. -/
theorem allocate_cases (hcreate : create poolStart poolEnd = some h) (request : Request)
    (obtained : UInt64) :
    ((Nat.log2 poolEnd.toNat < selected poolStart request.alignment ∨
          objectSize (selected poolStart request.alignment) < request.size.toNat) ∧
        h.asked request = none ∧
        ∃ pushed, h.allocate obtained request.size request.alignment = some ⟨pushed, 0⟩) ∨
      ∃ size, size.toNat = objectSize (selected poolStart request.alignment) ∧
        ¬ (Nat.log2 poolEnd.toNat < selected poolStart request.alignment) ∧
        request.size.toNat ≤ size.toNat ∧ h.asked request = some size ∧
        h.allocate obtained request.size request.alignment =
          some ⟨[], if obtained = 0 then 0 else alignPointer obtained request.alignment⟩ := by
  have hindex := toNat_poolIndex hcreate request.alignment
  have hmax : h.maximumPoolSize.toNat = Nat.log2 poolEnd.toNat := by
    obtain ⟨-, rfl⟩ := create_eq_some.mp hcreate
    exact toNat_bitLog2 poolEnd
  have hgt : h.poolIndex request.alignment > h.maximumPoolSize ↔
      Nat.log2 poolEnd.toNat < selected poolStart request.alignment := by
    rw [gt_iff_lt, UInt64.lt_iff_toNat_lt, hindex, hmax]
  unfold asked allocate
  simp only [hgt]
  by_cases hnone : Nat.log2 poolEnd.toNat < selected poolStart request.alignment
  · exact .inl ⟨.inl hnone, if_pos hnone, _, if_pos hnone⟩
  obtain ⟨size, hget, hsize⟩ := getElem_objectSizes hcreate (Nat.not_lt.mp hnone)
  simp only [if_neg hnone, hget, Option.bind_eq_bind, Option.bind_some, Option.filter_some]
  by_cases hbig : request.size > size
  · refine .inl ⟨.inr ?_, ?_, [.invalidArgument], ?_⟩
    · rw [← hsize]
      exact UInt64.lt_iff_toNat_lt.mp hbig
    · rw [if_neg (by simpa using hbig)]
    · simp [poolAllocate, hbig]
  · have hle := UInt64.not_lt.mp hbig
    refine .inr ⟨size, hsize, hnone, UInt64.le_iff_toNat_le.mp hle, ?_, ?_⟩
    · rw [if_pos (by simpa using hle)]
    · have hpool : poolAllocate size obtained request.size = ⟨[], obtained⟩ := if_neg hbig
      simp only [hpool]
      split_ifs with h0
      · rw [h0]
      · rfl

/-! ## One call -/

/-- The pointer is moved up by less than the alignment exceeds the default one. -/
theorem alignUp_block_le (request : Request) {block : Nat} (h : 16 ∣ block) :
    alignUp block request.alignment.toNat ≤ block + (request.alignment.toNat - 16) := by
  obtain ⟨a, ha⟩ := request.powerOfTwo
  have hpos := Nat.two_pow_pos a
  rw [ha]
  rcases Nat.le_total a 4 with h4 | h4
  · have hdvd : 2 ^ a ∣ 16 := Nat.pow_dvd_pow 2 h4
    rw [alignUp_eq_self hpos (hdvd.trans h)]
    omega
  · exact alignUp_le_of_dvd hpos (Nat.pow_dvd_pow 2 h4) h

/-- **A request that fits stays in its block**, if its results so far do. -/
theorem contained_of_fits (hcreate : create poolStart poolEnd = some h)
    {live : List Allocation} {request : Request} {obtained : UInt64}
    (hlive : ∀ a ∈ live, a.pointer ≠ 0 → a.block.toNat ≤ a.pointer.toNat ∧
      a.pointer.toNat + a.size.toNat ≤ a.block.toNat + a.blockSize.toNat)
    (hsound : h.PoolsSound live (request, obtained)) (hfits : Fits poolStart poolEnd request) :
    h.Contained live (request, obtained) := by
  rcases allocate_cases hcreate request obtained with
    ⟨-, -, pushed, hrun⟩ | ⟨size, hsize, hsome, hle, hasked, hrun⟩
  · exact ⟨_, hrun, fun h0 => absurd rfl h0⟩
  refine ⟨_, hrun, ?_⟩
  intro hpointer
  have hob : obtained ≠ 0 := fun h0 => hpointer (if_pos h0)
  simp only [if_neg hob] at hpointer ⊢
  obtain ⟨hdvd, hend, hdisj⟩ := hsound size hasked hob
  obtain ⟨a, ha⟩ := request.powerOfTwo
  have hpos := Nat.two_pow_pos a
  have halign := toNat_alignPointer ha obtained
  have hup := alignUp_block_le request hdvd
  have hge : obtained.toNat ≤ alignUp obtained.toNat request.alignment.toNat :=
    le_alignUp (by omega)
  rw [Ne, ← UInt64.toNat_inj, halign] at hpointer
  split_ifs at hpointer halign with hwrap
  · have hroom : request.size.toNat + (request.alignment.toNat - 16) ≤ size.toNat := by
      rcases hfits with h16 | hmax | hbig | hroom <;> omega
    have hin : (alignPointer obtained request.alignment).toNat + request.size.toNat ≤
        obtained.toNat + size.toNat := by omega
    refine ⟨?_, ⟨size, hasked, by omega, hin⟩, ?_⟩
    · rw [halign]
      exact dvd_alignUp _ _
    · intro b hb hb0
      obtain ⟨hlo, hhi⟩ := hlive b hb hb0
      rcases hdisj b hb with hd | hd
      · left
        omega
      · right
        omega
  · exact absurd rfl hpointer

/-- **A request that does not fit leaves a block at address 16**, which a sound pool may find. -/
theorem not_contained_of_not_fits (hcreate : create poolStart poolEnd = some h)
    {request : Request} (hfits : ¬ Fits poolStart poolEnd request) :
    h.PoolsSound [] (request, 16) ∧ ¬ h.Contained [] (request, 16) := by
  simp only [Fits, not_or, Nat.not_lt, Nat.not_le] at hfits
  obtain ⟨h16, hmax, hsize', hroom⟩ := hfits
  have hlog := log2_poolEnd_lt hcreate
  rcases allocate_cases hcreate request 16 with
    ⟨hrefused, -, -⟩ | ⟨size, hsize, -, -, hasked, hrun⟩
  · omega
  have h16' : (16 : UInt64).toNat = 16 := rfl
  constructor
  · intro size' hasked' _
    obtain rfl : size = size' := Option.some.inj (hasked.symm.trans hasked')
    have hpow : 2 ^ selected poolStart request.alignment ≤ 2 ^ 31 :=
      Nat.pow_le_pow_right (by decide) (by omega)
    refine ⟨⟨1, rfl⟩, ?_, fun a ha => absurd ha List.not_mem_nil⟩
    rw [hsize, objectSize]
    omega
  · rintro ⟨outcome, hrun', hgood⟩
    obtain ⟨a, ha⟩ := request.powerOfTwo
    have halign := toNat_alignPointer ha 16
    have hlt := request.alignment.toNat_lt
    have hup : alignUp 16 request.alignment.toNat = request.alignment.toNat :=
      alignUp_eq_of_dvd (by omega) (Nat.dvd_refl _) (by omega) (by omega)
    rw [h16', hup, if_pos hlt] at halign
    rw [hrun, if_neg (by decide)] at hrun'
    obtain rfl := Option.some.inj hrun'
    have hne : alignPointer 16 request.alignment ≠ 0 := by
      rw [Ne, ← UInt64.toNat_inj, halign, UInt64.toNat_zero]
      omega
    obtain ⟨-, ⟨size', hasked', -, hin⟩, -⟩ := hgood hne
    obtain rfl : size = size' := Option.some.inj (hasked.symm.trans hasked')
    rw [halign, h16'] at hin
    omega

/-! ## Runs -/

/-- Every result so far stays in its block. -/
def AllContained (live : List Allocation) : Prop :=
  ∀ a ∈ live, a.pointer ≠ 0 → a.block.toNat ≤ a.pointer.toNat ∧
    a.pointer.toNat + a.size.toNat ≤ a.block.toNat + a.blockSize.toNat

theorem step_eq_some {live live' : List Allocation} {request : Request} {obtained : UInt64}
    {outcome : Outcome} : h.step live (request, obtained) = some (outcome, live') ↔
      h.allocate obtained request.size request.alignment = some outcome ∧
        h.record live request obtained outcome = live' := by
  rw [step, Option.map_eq_some_iff]
  constructor
  · rintro ⟨outcome', hrun, heq⟩
    obtain ⟨rfl, rfl⟩ := Prod.mk.inj heq
    exact ⟨hrun, rfl⟩
  · rintro ⟨hrun, rfl⟩
    exact ⟨outcome, hrun, rfl⟩

theorem allContained_step {live live' : List Allocation} {call : Request × UInt64}
    {outcome : Outcome} (hlive : AllContained live) (hcontained : h.Contained live call)
    (hstep : h.step live call = some (outcome, live')) : AllContained live' := by
  obtain ⟨request, obtained⟩ := call
  obtain ⟨outcome', hrun', hgood⟩ := hcontained
  obtain ⟨hrun, rfl⟩ := step_eq_some.mp hstep
  obtain rfl : outcome = outcome' := Option.some.inj (hrun.symm.trans hrun')
  intro a ha hpointer
  unfold record at ha
  split at ha
  · exact hlive a ha hpointer
  · next size hasked =>
    split_ifs at ha with h0
    · exact hlive a ha hpointer
    · rcases List.mem_cons.mp ha with rfl | ha
      · obtain ⟨-, ⟨size', hasked', hlo, hhi⟩, -⟩ := hgood hpointer
        obtain rfl : size = size' := Option.some.inj (hasked.symm.trans hasked')
        exact ⟨hlo, hhi⟩
      · exact hlive a ha hpointer

/-- A call whose pool finds nothing leaves the allocations as they are. -/
theorem record_null (live : List Allocation) (request : Request) (outcome : Outcome) :
    h.record live request 0 outcome = live := by
  unfold record
  split
  · rfl
  · exact if_pos rfl

/-- Pools that find nothing are sound. -/
theorem poolsSound_null (live : List Allocation) (request : Request) :
    h.PoolsSound live (request, 0) := fun _ _ h0 => absurd rfl h0

/-- Some run over sound pools breaks containment at a request that does not fit: the pools find
nothing for the others. -/
theorem exists_not_contained (hcreate : create poolStart poolEnd = some h)
    {requests : List Request} (hfits : ∃ r ∈ requests, ¬ Fits poolStart poolEnd r) :
    ∃ run : List (Request × UInt64), run.map Prod.fst = requests ∧
      Along h.step h.PoolsSound [] run ∧ ¬ Along h.step h.Contained [] run := by
  induction requests with
  | nil =>
    obtain ⟨r, hr, -⟩ := hfits
    exact absurd hr List.not_mem_nil
  | cons request requests ih =>
    by_cases hfit : Fits poolStart poolEnd request
    · obtain ⟨r, hr, hnot⟩ := hfits
      have hr' : r ∈ requests := by
        rcases List.mem_cons.mp hr with rfl | hr
        · exact absurd hfit hnot
        · exact hr
      obtain ⟨run, hmap, hsound, hbad⟩ := ih ⟨r, hr', hnot⟩
      obtain ⟨outcome, hrun⟩ : ∃ outcome,
          h.allocate 0 request.size request.alignment = some outcome := by
        rcases allocate_cases hcreate request 0 with ⟨-, -, _, hrun⟩ | ⟨_, -, -, -, -, hrun⟩
        · exact ⟨_, hrun⟩
        · exact ⟨_, hrun⟩
      have hstep : h.step [] (request, 0) = some (outcome, []) :=
        step_eq_some.mpr ⟨hrun, record_null _ _ _⟩
      refine ⟨(request, 0) :: run, by rw [List.map_cons, hmap], ?_, ?_⟩
      · refine ⟨poolsSound_null _ _, ?_⟩
        intro outcome' live' hstep'
        obtain ⟨-, rfl⟩ := Prod.mk.inj (Option.some.inj (hstep.symm.trans hstep'))
        exact hsound
      · rintro ⟨-, hrest⟩
        exact hbad (hrest outcome [] hstep)
    · obtain ⟨hsound, hbad⟩ := not_contained_of_not_fits hcreate hfit
      refine ⟨(request, 16) :: requests.map fun r => (r, 0), ?_, ?_, fun hall => hbad hall.1⟩
      · rw [List.map_cons, List.map_map]
        congr 1
        exact List.map_id requests
      · refine ⟨hsound, fun _ _ _ => Along.of_forall_mem ?_⟩
        intro call hcall live
        obtain ⟨r, -, rfl⟩ := List.mem_map.mp hcall
        exact poolsSound_null _ _

/-- **Every run over pools that keep their blocks disjoint and aligned keeps its results in their
blocks iff every request fits.** -/
theorem contained_iff (hcreate : create poolStart poolEnd = some h) (requests : List Request) :
    (∀ run : List (Request × UInt64), run.map Prod.fst = requests →
      Along h.step h.PoolsSound [] run → Along h.step h.Contained [] run) ↔
      ∀ r ∈ requests, Fits poolStart poolEnd r := by
  constructor
  · intro hall
    by_contra hnot
    push Not at hnot
    obtain ⟨run, hmap, hsound, hbad⟩ := exists_not_contained hcreate hnot
    exact hbad (hall run hmap hsound)
  · rintro hfits run rfl hsound
    have hrun : Along h.step (fun _ call => Fits poolStart poolEnd call.1) [] run :=
      Along.of_forall_mem fun call hcall _ => hfits call.1 (List.mem_map_of_mem hcall)
    refine Along.of_legal AllContained ?_ ?_ ?_ (hsound.and hrun)
    · rintro live ⟨request, obtained⟩ hlive ⟨hsound, hfits⟩
      exact contained_of_fits hcreate hlive hsound hfits
    · rintro live ⟨request, obtained⟩ outcome live' hlive ⟨hsound, hfits⟩ hstep
      exact allContained_step hlive (contained_of_fits hcreate hlive hsound hfits) hstep
    · intro a ha
      exact absurd ha List.not_mem_nil

/-- A request of a word on 32 bytes' alignment, of the default pools: it fits. -/
theorem contained_iff_word : ∃ h, create 0x20 0x10000 = some h ∧
    ∀ run : List (Request × UInt64), run.map Prod.fst = [⟨8, 32, 5, rfl⟩] →
      Along h.step h.PoolsSound [] run → Along h.step h.Contained [] run := by
  obtain ⟨h, hcreate⟩ : ∃ h, create 0x20 0x10000 = some h := ⟨_, rfl⟩
  refine ⟨h, hcreate, (contained_iff hcreate [⟨8, 32, 5, rfl⟩]).mpr fun r hr => ?_⟩
  obtain rfl := List.mem_singleton.mp hr
  exact .inr (.inr (.inr (by decide)))

/-- **32 bytes on 64 bytes' alignment leave a block of 32 bytes** in a run over sound pools. -/
theorem not_contained : ¬ ∀ (poolStart poolEnd : UInt64) (h : HeapAllocator)
    (run : List (Request × UInt64)), create poolStart poolEnd = some h →
      Along h.step h.PoolsSound [] run → Along h.step h.Contained [] run := by
  intro hall
  obtain ⟨h, hcreate⟩ : ∃ h, create 0x20 0x10000 = some h := ⟨_, rfl⟩
  have hfits : ¬ Fits 0x20 0x10000 ⟨32, 64, 6, rfl⟩ := by
    rintro (hle | hle | hle | hle) <;> revert hle <;> decide
  obtain ⟨hsound, hbad⟩ := not_contained_of_not_fits hcreate hfits
  exact hbad (hall _ _ h [(⟨32, 64, 6, rfl⟩, 16)] hcreate ⟨hsound, fun _ _ _ => trivial⟩).1

end HeapAllocator

end Hologine.Memory
