import Hologine.Library.Memory
import Hologine.Library.Run
import Hologine.Memory.Allocator
import Hologine.Memory.MemoryRegion

/-!
# Linear allocation

Model of `linear_allocator` (`core/memory/linear_allocator.cpp:15-145`) over the bytes of its
memory, in which the markers are. The constructor does not set the current marker, so a new
allocator has any.

The slip of the source is in `allocate`, which moves the memory offset to the start of what it
returns and not past the end of it. Also the sum it compares with the size may wrap.

Results:
* `LinearAllocator.allocate_cases`: an allocation finds no room, or returns the top of the
  allocator, aligned, and moves the top there.
* `LinearRun.placed_iff`: in a run the ranges that are allocated are aligned, in the memory and
  pairwise disjoint **iff** nothing is allocated but where the alignment alone moves the top past
  what there is, and no sum wraps.
-/

namespace Hologine.Memory

open Hologine.Library Hologine.Library.Run

variable {π : Type} (p : Platform π)

/-- `linear_allocator`. -/
structure LinearAllocator where
  memoryRegion : MemoryRegion
  memory : UInt64
  memoryOffset : UInt64
  currentMarker : UInt64
  deriving Repr, DecidableEq

namespace LinearAllocator

/-- The constructor. The current marker is what it happens to be. -/
def create (size marker : UInt64) (env : π) : LinearAllocator × π :=
  let (memory, memoryRegion, env) := (MemoryRegion.create size).claim p env
  let a : LinearAllocator := ⟨memoryRegion, memory, 0, marker⟩
  if memory = 0 then (a, p.pushException .outOfMemory env) else (a, env)

/-- `get_size`. -/
def getSize (a : LinearAllocator) : UInt64 := a.memoryRegion.getCurrentSize

/-- `reset`. -/
def reset (a : LinearAllocator) : LinearAllocator :=
  { a with memoryOffset := 0, currentMarker := 0 }

/-- `allocate`: a pointer, or null. -/
def allocate (a : LinearAllocator) (size alignment : UInt64) (env : π) :
    UInt64 × LinearAllocator × π :=
  let currentOffsetPointer := alignPointer (a.memory + a.memoryOffset) alignment
  let requestedMemoryOffset := getPointerDistance currentOffsetPointer a.memory
  if requestedMemoryOffset + size < a.getSize then
    (a.memory + requestedMemoryOffset, { a with memoryOffset := requestedMemoryOffset }, env)
  else (0, a, p.pushException .outOfMemory env)

/-- `push_marker`, with `align_construct` on what is allocated, unless that is null. -/
def pushMarker (a : LinearAllocator) (bytes : Memory) (env : π) :
    Bool × LinearAllocator × Memory × π :=
  if a.memoryOffset = 0 then (true, a, bytes, env)
  else
    let nextMarker := a.memoryOffset
    let (pointer, a, env) := a.allocate p 8 8 env
    if pointer ≠ 0 then
      (true, { a with currentMarker := nextMarker },
        bytes.store64 pointer.toNat a.currentMarker, env)
    else (false, a, bytes, env)

/-- `pop_marker`. -/
def popMarker (a : LinearAllocator) (bytes : Memory) : LinearAllocator :=
  if a.memoryOffset ≠ 0 then
    if a.currentMarker = 0 then a.reset
    else
      let previousMarker := bytes.load64 (alignPointer (a.memory + a.currentMarker) 8).toNat
      { a with memoryOffset := a.currentMarker, currentMarker := previousMarker }
  else a

/-- The top of the allocator: where it allocates next, but for the alignment. -/
def top (a : LinearAllocator) : UInt64 := a.memory + a.memoryOffset

end LinearAllocator

/-! ## Runs -/

/-- A call of an allocator, or a write by a client. -/
inductive LinearCall
  | allocate (size alignment : UInt64)
  | reset
  | pushMarker
  | popMarker
  | write (address : Nat) (bytes : List UInt8)
  deriving Repr, DecidableEq

/-- What a call returns. -/
inductive LinearResult
  | allocated (pointer : UInt64)
  | pushed (success : Bool)
  | done
  deriving Repr, DecidableEq

/-- The state a marker is pushed in. -/
structure OpenMarker where
  memoryOffset : UInt64
  currentMarker : UInt64
  ranges : List (UInt64 × UInt64)
  deriving Repr, DecidableEq

/-- An allocator in a run: the bytes of the memory, the ranges that are allocated, as pointers and
sizes, and the markers that are pushed and not popped, the last one first. -/
structure LinearRun (π : Type) where
  allocator : LinearAllocator
  bytes : Memory
  ranges : List (UInt64 × UInt64)
  markers : List OpenMarker
  env : π

namespace LinearRun

/-- A run starts with a new allocator. -/
def start (size marker : UInt64) (bytes : Memory) (env : π) : LinearRun π :=
  let (allocator, env) := LinearAllocator.create p size marker env
  ⟨allocator, bytes, [], [], env⟩

/-- One call. Popping a marker takes back the ranges that were allocated since it was pushed. -/
def step (s : LinearRun π) : LinearCall → Option (LinearResult × LinearRun π)
  | .allocate size alignment =>
    let (pointer, allocator, env) := s.allocator.allocate p size alignment s.env
    let ranges := if pointer = 0 then s.ranges else (pointer, size) :: s.ranges
    some (.allocated pointer, { s with allocator := allocator, ranges := ranges, env := env })
  | .reset =>
    some (.done, { s with allocator := s.allocator.reset, ranges := [], markers := [] })
  | .pushMarker =>
    let (success, allocator, bytes, env) := s.allocator.pushMarker p s.bytes s.env
    let marker : OpenMarker := ⟨s.allocator.memoryOffset, s.allocator.currentMarker, s.ranges⟩
    let markers := if success then marker :: s.markers else s.markers
    some (.pushed success,
      { s with allocator := allocator, bytes := bytes, markers := markers, env := env })
  | .popMarker =>
    some (.done, { s with
      allocator := s.allocator.popMarker s.bytes
      ranges := (s.markers.head?.map OpenMarker.ranges).getD []
      markers := s.markers.tail })
  | .write address bytes => some (.done, { s with bytes := s.bytes.write address bytes })

/-- A call of `allocate`, with a power of two for the alignment, or of `reset`. -/
def Allocates (_ : LinearRun π) : LinearCall → Prop
  | .allocate _ alignment => ∃ a, alignment.toNat = 2 ^ a
  | .reset => True
  | _ => False

/-- Two ranges have no byte in common, or one of them none at all. -/
def Disjoint (r r' : UInt64 × UInt64) : Prop :=
  r.2 = 0 ∨ r'.2 = 0 ∨ r.1.toNat + r.2.toNat ≤ r'.1.toNat ∨ r'.1.toNat + r'.2.toNat ≤ r.1.toNat

/-- **What is allocated** is aligned, in the memory of the allocator, and disjoint from every range
that there is. -/
def Placed (s : LinearRun π) : LinearCall → Prop
  | .allocate size alignment =>
    let pointer := (s.allocator.allocate p size alignment s.env).1
    pointer ≠ 0 → alignment.toNat ∣ pointer.toNat ∧
      (s.allocator.memory.toNat ≤ pointer.toNat ∧
        pointer.toNat + size.toNat ≤ s.allocator.memory.toNat + s.allocator.getSize.toNat) ∧
      ∀ r ∈ s.ranges, Disjoint (pointer, size) r
  | _ => True

/-- A range ends at a pointer at the latest, or is empty. -/
def EndsBy (pointer : UInt64) (r : UInt64 × UInt64) : Prop :=
  r.2 = 0 ∨ r.1.toNat + r.2.toNat ≤ pointer.toNat

/-- **The alignment moves the top past what there is**, if anything is allocated: the top cannot be
aligned, or there is no room, or no sum wraps, and the ranges end by where the aligned top is. -/
def PastRanges (s : LinearRun π) : LinearCall → Prop
  | .allocate size alignment =>
    let pointer := alignPointer s.allocator.top alignment
    let offset := getPointerDistance pointer s.allocator.memory
    pointer = 0 ∨ s.allocator.getSize ≤ offset + size ∨
      (offset.toNat + size.toNat < 2 ^ 64 ∧ (size = 0 ∨ ∀ r ∈ s.ranges, EndsBy pointer r))
  | _ => True

instance (pointer : UInt64) (r : UInt64 × UInt64) : Decidable (EndsBy pointer r) :=
  inferInstanceAs (Decidable (_ ∨ _))

instance (s : LinearRun π) : (call : LinearCall) → Decidable (s.PastRanges call)
  | .allocate _ alignment =>
    have : Decidable (∀ r ∈ s.ranges, EndsBy (alignPointer s.allocator.top alignment) r) :=
      List.decidableBAll _ s.ranges
    inferInstanceAs (Decidable (_ ∨ _ ∨ (_ ∧
      (_ ∨ ∀ r ∈ s.ranges, EndsBy (alignPointer s.allocator.top alignment) r))))
  | .pushMarker | .popMarker | .write _ _ | .reset => isTrue trivial

end LinearRun

/-! ## One allocation -/

variable {p} {env : π} {size alignment : UInt64}

namespace LinearAllocator

variable {a : LinearAllocator}

/-- The top is in or above the memory, if there is one, unless it is past the last address. -/
def Sound (a : LinearAllocator) : Prop := a.top ≠ 0 → a.memory ≠ 0 ∧ a.memory ≤ a.top

/-- The top after the offset is moved to a pointer. -/
theorem top_moved (a : LinearAllocator) (pointer : UInt64) :
    ({ a with memoryOffset := getPointerDistance pointer a.memory } : LinearAllocator).top =
      pointer :=
  add_getPointerDistance _ _

/-- **What `allocate` does**: there is no room, or it returns the aligned top and moves the top
there. -/
theorem allocate_cases (a : LinearAllocator) (p : Platform π) (size alignment : UInt64) (env : π) :
    (a.getSize ≤ getPointerDistance (alignPointer a.top alignment) a.memory + size ∧
        a.allocate p size alignment env = (0, a, p.pushException .outOfMemory env)) ∨
      (getPointerDistance (alignPointer a.top alignment) a.memory + size < a.getSize ∧
        a.allocate p size alignment env = (alignPointer a.top alignment,
          { a with memoryOffset := getPointerDistance (alignPointer a.top alignment) a.memory },
          env)) := by
  by_cases hroom : getPointerDistance (alignPointer a.top alignment) a.memory + size < a.getSize
  · refine .inr ⟨hroom, (if_pos hroom).trans ?_⟩
    rw [← top, add_getPointerDistance]
  · exact .inl ⟨UInt64.not_lt.mp hroom, if_neg hroom⟩

/-- An allocator at the start of its memory is sound. -/
theorem sound_of_start (h : a.memoryOffset = 0) : a.Sound := by
  unfold Sound
  rw [top, h, UInt64.add_zero]
  exact fun hne => ⟨hne, UInt64.le_refl _⟩

/-- A new allocator is sound. -/
theorem sound_create (p : Platform π) (size marker : UInt64) (env : π) :
    (create p size marker env).1.Sound := by
  have hoffset : (create p size marker env).1.memoryOffset = 0 := by
    unfold create
    dsimp only
    split_ifs <;> rfl
  exact sound_of_start hoffset

theorem sound_reset (a : LinearAllocator) : a.reset.Sound := sound_of_start rfl

/-- Where the next range is, if it is anywhere. -/
theorem Sound.aligned (h : a.Sound) {n : Nat} (halign : alignment.toNat = 2 ^ n) :
    alignPointer a.top alignment = 0 ∨
      (alignment.toNat ∣ (alignPointer a.top alignment).toNat ∧ a.top ≠ 0 ∧
        a.memory ≤ alignPointer a.top alignment ∧ a.top ≤ alignPointer a.top alignment) := by
  by_cases htop : a.top = 0
  · rw [htop, alignPointer_zero]
    exact .inl rfl
  · rcases alignPointer_cases halign a.top with h0 | ⟨hdvd, hle⟩
    · exact .inl h0
    · exact .inr ⟨hdvd, htop, UInt64.le_trans (h htop).2 hle, hle⟩

/-- **Moving the top to where it is aligned keeps an allocator sound.** -/
theorem Sound.moved (h : a.Sound) {n : Nat} (halign : alignment.toNat = 2 ^ n) :
    ({ a with memoryOffset := getPointerDistance (alignPointer a.top alignment) a.memory } :
      LinearAllocator).Sound := by
  unfold Sound
  rw [top_moved]
  rcases h.aligned halign with h0 | ⟨-, htop, habove, -⟩
  · exact fun hne => absurd h0 hne
  · exact fun _ => ⟨(h htop).1, habove⟩

/-- **Where there is room a range ends in the memory iff the sum that is compared does not
wrap.** -/
theorem end_le_iff {pointer : UInt64} (hle : a.memory ≤ pointer)
    (hroom : getPointerDistance pointer a.memory + size < a.getSize) :
    pointer.toNat + size.toNat ≤ a.memory.toNat + a.getSize.toNat ↔
      (getPointerDistance pointer a.memory).toNat + size.toNat < 2 ^ 64 := by
  have hle' := UInt64.le_iff_toNat_le.mp hle
  have hdistance : (getPointerDistance pointer a.memory).toNat =
      pointer.toNat - a.memory.toNat := UInt64.toNat_sub_of_le _ _ hle
  have hsize := a.getSize.toNat_lt
  rw [UInt64.lt_iff_toNat_lt, UInt64.toNat_add] at hroom
  rw [hdistance] at hroom ⊢
  constructor
  · intro hend
    omega
  · intro hlt
    rw [Nat.mod_eq_of_lt hlt] at hroom
    omega

end LinearAllocator

/-! ## Runs of allocations -/

namespace LinearRun

variable {s s' : LinearRun π} {call : LinearCall} {result : LinearResult}

/-- **What an allocation makes of a run**: only an exception, or a moved top and a new range, unless
the top is past the last address. -/
theorem step_allocate (s : LinearRun π) (p : Platform π) (size alignment : UInt64) :
    s.step p (.allocate size alignment) =
        some (.allocated 0, { s with env := p.pushException .outOfMemory s.env }) ∨
      s.step p (.allocate size alignment) =
        some (.allocated (alignPointer s.allocator.top alignment), { s with
          allocator := { s.allocator with
            memoryOffset := getPointerDistance (alignPointer s.allocator.top alignment)
              s.allocator.memory }
          ranges := if alignPointer s.allocator.top alignment = 0 then s.ranges
            else (alignPointer s.allocator.top alignment, size) :: s.ranges }) := by
  rcases s.allocator.allocate_cases p size alignment s.env with ⟨-, heq⟩ | ⟨-, heq⟩
  · exact .inl (by simp only [step, heq, if_true])
  · exact .inr (by simp only [step, heq])

/-- The allocator is sound, and no range starts above its top, unless that is past the last
address. -/
structure Inv (s : LinearRun π) : Prop where
  sound : s.allocator.Sound
  below : s.allocator.top ≠ 0 → ∀ r ∈ s.ranges, r.1 ≤ s.allocator.top

/-- A range that starts above another is disjoint from it iff that ends before. -/
theorem disjoint_iff {pointer : UInt64} {r : UInt64 × UInt64} (hle : r.1 ≤ pointer)
    (hsize : size ≠ 0) : Disjoint (pointer, size) r ↔ EndsBy pointer r := by
  have hle' := UInt64.le_iff_toNat_le.mp hle
  have hpos := Bits.toNat_pos hsize
  unfold Disjoint EndsBy
  constructor
  · rintro (h0 | h0 | hend | hend)
    · exact absurd h0 hsize
    · exact .inl h0
    · have : pointer.toNat + size.toNat ≤ r.1.toNat := hend
      omega
    · exact .inr hend
  · rintro (h0 | hend)
    · exact .inr (.inl h0)
    · exact .inr (.inr (.inr hend))

/-- **One allocation is placed iff the alignment moves the top past what there is.** -/
theorem placed_iff_pastRanges (hinv : s.Inv) (hlegal : s.Allocates call) :
    s.Placed p call ↔ s.PastRanges call := by
  cases call with
  | allocate size alignment =>
    obtain ⟨n, halign⟩ := hlegal
    unfold Placed PastRanges
    dsimp only
    rcases s.allocator.allocate_cases p size alignment s.env with ⟨hfull, heq⟩ | ⟨hroom, heq⟩
    · rw [heq]
      exact iff_of_true (fun hne => absurd rfl hne) (.inr (.inl hfull))
    rw [heq]
    rcases hinv.sound.aligned halign with h0 | ⟨hdvd, htop, habove, hmoved⟩
    · exact iff_of_true (fun hne => absurd h0 hne) (.inl h0)
    have hbelow : ∀ r ∈ s.ranges, r.1 ≤ alignPointer s.allocator.top alignment := fun r hr =>
      UInt64.le_trans (hinv.below htop r hr) hmoved
    have hne : alignPointer s.allocator.top alignment ≠ 0 := fun h0 =>
      htop (UInt64.le_zero_iff.mp (h0 ▸ hmoved))
    have hdisjoint :
        (∀ r ∈ s.ranges, Disjoint (alignPointer s.allocator.top alignment, size) r) ↔
          size = 0 ∨ ∀ r ∈ s.ranges, EndsBy (alignPointer s.allocator.top alignment) r := by
      by_cases hsize : size = 0
      · exact iff_of_true (fun r _ => .inl hsize) (.inl hsize)
      · rw [or_iff_right hsize]
        exact forall₂_congr fun r hr => disjoint_iff (hbelow r hr) hsize
    rw [or_iff_right hne, or_iff_right (UInt64.not_le.mpr hroom), ← hdisjoint,
      ← LinearAllocator.end_le_iff habove hroom]
    exact ⟨fun h => ⟨(h hne).2.1.2, (h hne).2.2⟩,
      fun h _ => ⟨hdvd, ⟨UInt64.le_iff_toNat_le.mp habove, h.1⟩, h.2⟩⟩
  | reset => exact Iff.rfl
  | pushMarker => exact hlegal.elim
  | popMarker => exact hlegal.elim
  | write address bytes => exact hlegal.elim

/-- **What one call keeps.** -/
theorem Inv.step (hinv : s.Inv) (hlegal : s.Allocates call)
    (hstep : s.step p call = some (result, s')) : s'.Inv := by
  cases call with
  | allocate size alignment =>
    obtain ⟨n, halign⟩ := hlegal
    rcases s.step_allocate p size alignment with heq | heq
    · obtain ⟨-, rfl⟩ := Prod.mk.inj (Option.some.inj (heq.symm.trans hstep))
      exact ⟨hinv.sound, hinv.below⟩
    obtain ⟨-, rfl⟩ := Prod.mk.inj (Option.some.inj (heq.symm.trans hstep))
    refine ⟨hinv.sound.moved halign, ?_⟩
    dsimp only
    rw [LinearAllocator.top_moved]
    rcases hinv.sound.aligned halign with h0 | ⟨-, htop, -, hle⟩
    · exact fun hne => absurd h0 hne
    · intro hne r hr
      rw [if_neg hne] at hr
      rcases List.mem_cons.mp hr with rfl | hr
      · exact UInt64.le_refl _
      · exact UInt64.le_trans (hinv.below htop r hr) hle
  | reset =>
    obtain ⟨-, rfl⟩ := Prod.mk.inj (Option.some.inj hstep)
    exact ⟨s.allocator.sound_reset, fun _ r hr => absurd hr List.not_mem_nil⟩
  | pushMarker => exact hlegal.elim
  | popMarker => exact hlegal.elim
  | write address bytes => exact hlegal.elim

/-- A new allocator has allocated nothing. -/
theorem inv_start (p : Platform π) (size marker : UInt64) (bytes : Memory) (env : π) :
    (start p size marker bytes env).Inv :=
  ⟨LinearAllocator.sound_create p size marker env, fun _ _ hr => absurd hr List.not_mem_nil⟩

/-- **In every run of allocations and resets, what is allocated is placed iff the alignment moves
the top past what there is**, every time. -/
theorem placed_iff (p : Platform π) (size marker : UInt64) (bytes : Memory) (env : π)
    (calls : List LinearCall)
    (hlegal : Along (step p) Allocates (start p size marker bytes env) calls) :
    Along (step p) (Placed p) (start p size marker bytes env) calls ↔
      Along (step p) PastRanges (start p size marker bytes env) calls :=
  along_congr Inv (fun _ _ hinv hlegal => placed_iff_pastRanges hinv hlegal)
    (fun _ _ _ _ hinv hlegal _ hstep => hinv.step hlegal hstep)
    (inv_start p size marker bytes env) hlegal

/-- Two allocations, the second on a larger boundary than the first. -/
theorem placed_iff_padded : Along (step Platform.granting) (Placed Platform.granting)
    (start Platform.granting 0x40000 0 (fun _ => 0) ())
    [.allocate 16 16, .allocate 16 0x20000] := by
  have hlegal : Along (step Platform.granting) Allocates
      (start Platform.granting 0x40000 0 (fun _ => 0) ())
      [.allocate 16 16, .allocate 16 0x20000] :=
    ⟨⟨4, rfl⟩, fun _ _ _ => ⟨⟨17, rfl⟩, fun _ _ _ => trivial⟩⟩
  exact (placed_iff Platform.granting 0x40000 0 (fun _ => 0) () _ hlegal).mpr (by decide)

/-- **Two allocations are at one place**: sixteen bytes each. -/
theorem not_placed : ¬ ∀ (p : Platform Unit) (size marker : UInt64) (bytes : Memory)
    (calls : List LinearCall), Along (step p) Allocates (start p size marker bytes ()) calls →
      Along (step p) (Placed p) (start p size marker bytes ()) calls := by
  intro hall
  have h := hall Platform.granting 0x10000 0 (fun _ => 0) [.allocate 16 16, .allocate 16 16]
    ⟨⟨4, rfl⟩, fun _ _ _ => ⟨⟨4, rfl⟩, fun _ _ _ => trivial⟩⟩
  obtain ⟨-, -, hdisjoint⟩ := (h.2 _ _ rfl).1 (by decide)
  have hnot := hdisjoint (0x10000, 16) (by decide)
  unfold Disjoint at hnot
  exact absurd hnot (by decide)

end LinearRun

end Hologine.Memory
