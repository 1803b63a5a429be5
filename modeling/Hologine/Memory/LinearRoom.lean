import Hologine.Memory.LinearAllocator

/-!
# The room of a linear allocator

When `linear_allocator::allocate` (`core/memory/linear_allocator.cpp:40-62`) finds room, in any
state that a run reaches: whatever the markers are set to, the offset is a number of 64 bits.

* `nextOffset` is the next aligned offset as a natural number, with which nothing wraps.
* `allocate` compares a sum that wraps with the size, and wants it to be less.

Results:
* `allocate_eq`: what is compared is the offset and the size, modulo `2 ^ 64`.
* `run_complete_iff`: in every state that a run reaches, a block is returned when there is room for
  it **iff** it would not end where the memory ends, and no sum wraps to less than the size.
-/

namespace Hologine.Memory

open Hologine.Library Hologine.Library.Align Hologine.Library.Run

variable {π : Type} {p : Platform π} {env : π} {size alignment : UInt64}

namespace LinearAllocator

/-- The next aligned offset, without a bound. -/
def nextOffset (a : LinearAllocator) (alignment : UInt64) : Nat :=
  alignUp (a.memory.toNat + a.memoryOffset.toNat) alignment.toNat - a.memory.toNat

/-- There is room for a block. -/
def HasRoom (a : LinearAllocator) (size alignment : UInt64) : Prop :=
  a.nextOffset alignment + size.toNat ≤ a.getSize.toNat

/-- **What an allocation must do**: it returns a block at the next aligned offset if there is room
for it, and otherwise returns null, pushes an exception and leaves the allocator. -/
structure Completes (p : Platform π) (a : LinearAllocator) (size alignment : UInt64) (env : π) :
    Prop where
  returned : a.HasRoom size alignment → ∃ pointer a',
    a.allocate p size alignment env = (pointer, a', env) ∧ pointer ≠ 0 ∧
      pointer.toNat = a.memory.toNat + a.nextOffset alignment
  refused : ¬ a.HasRoom size alignment →
    a.allocate p size alignment env = (0, a, p.pushException .outOfMemory env)

/-- **The condition**: the block would not end just where the memory ends, and if its end is past
the last offset it does not wrap to less than the size of the memory. -/
def RoomAgrees (a : LinearAllocator) (size alignment : UInt64) : Prop :=
  a.nextOffset alignment + size.toNat ≠ a.getSize.toNat ∧
    (a.nextOffset alignment + size.toNat < 2 ^ 64 ∨
      a.getSize.toNat ≤ (a.nextOffset alignment + size.toNat) % 2 ^ 64)

instance (a : LinearAllocator) (size alignment : UInt64) :
    Decidable (a.RoomAgrees size alignment) :=
  inferInstanceAs (Decidable (_ ∧ (_ ∨ _)))

/-- The memory is in the address space, and where there is none there is no size. -/
structure InSpace (a : LinearAllocator) : Prop where
  span : a.memory.toNat + a.getSize.toNat ≤ 2 ^ 64
  empty : a.memory = 0 → a.getSize = 0

variable {a : LinearAllocator}

/-- The pointer at the next aligned offset. -/
theorem toNat_aligned {n : Nat} (halign : alignment.toNat = 2 ^ n) (a : LinearAllocator) :
    (alignPointer a.top alignment).toNat =
      alignUp (a.memory.toNat + a.memoryOffset.toNat) alignment.toNat % 2 ^ 64 := by
  have hpos : 0 < alignment.toNat := halign ▸ Nat.two_pow_pos n
  have hdvd : alignment.toNat ∣ 2 ^ 64 := by
    have hlt := alignment.toNat_lt
    rw [halign] at hlt ⊢
    exact Nat.pow_dvd_pow 2 ((Nat.pow_lt_pow_iff_right (by decide)).mp hlt).le
  have htop : a.top.toNat = (a.memory.toNat + a.memoryOffset.toNat) % 2 ^ 64 :=
    UInt64.toNat_add _ _
  have hle : alignUp a.top.toNat alignment.toNat ≤ 2 ^ 64 :=
    alignUp_le hpos hdvd a.top.toNat_lt.le
  have hmod : alignUp (a.memory.toNat + a.memoryOffset.toNat) alignment.toNat % 2 ^ 64 =
      alignUp a.top.toNat alignment.toNat % 2 ^ 64 := by
    have hsplit := Nat.div_add_mod (a.memory.toNat + a.memoryOffset.toNat) (2 ^ 64)
    rw [← htop, Nat.add_comm] at hsplit
    rw [← hsplit, alignUp_add_of_dvd hpos (Nat.dvd_mul_right_of_dvd hdvd _),
      Nat.add_mul_mod_self_left]
  rw [toNat_alignPointer halign, hmod]
  split_ifs with hlt
  · exact (Nat.mod_eq_of_lt hlt).symm
  · rw [Nat.le_antisymm hle (Nat.not_lt.mp hlt), Nat.mod_self]

/-- The next aligned offset as the source computes it. -/
theorem toNat_distance {n : Nat} (halign : alignment.toNat = 2 ^ n) (a : LinearAllocator) :
    (getPointerDistance (alignPointer a.top alignment) a.memory).toNat =
      a.nextOffset alignment % 2 ^ 64 := by
  have hpos : 0 < alignment.toNat := halign ▸ Nat.two_pow_pos n
  have hle : a.memory.toNat + a.memoryOffset.toNat ≤
      alignUp (a.memory.toNat + a.memoryOffset.toNat) alignment.toNat := le_alignUp hpos
  have hlt := a.memory.toNat_lt
  rw [getPointerDistance, UInt64.toNat_sub, toNat_aligned halign, nextOffset]
  omega

/-- **What `allocate` compares**: the sum of the next offset and the size, modulo `2 ^ 64`. -/
theorem allocate_eq {n : Nat} (halign : alignment.toNat = 2 ^ n) (a : LinearAllocator)
    (p : Platform π) (size : UInt64) (env : π) :
    a.allocate p size alignment env =
      if (a.nextOffset alignment + size.toNat) % 2 ^ 64 < a.getSize.toNat then
        (alignPointer a.top alignment,
          { a with memoryOffset := getPointerDistance (alignPointer a.top alignment) a.memory },
          env)
      else (0, a, p.pushException .outOfMemory env) := by
  have hsum : (getPointerDistance (alignPointer a.top alignment) a.memory + size).toNat =
      (a.nextOffset alignment + size.toNat) % 2 ^ 64 := by
    rw [UInt64.toNat_add, toNat_distance halign, Nat.mod_add_mod]
  rcases a.allocate_cases p size alignment env with ⟨hfull, heq⟩ | ⟨hroom, heq⟩
  · rw [UInt64.le_iff_toNat_le, hsum] at hfull
    rw [heq, if_neg (Nat.not_lt.mpr hfull)]
  · rw [UInt64.lt_iff_toNat_lt, hsum] at hroom
    rw [heq, if_pos hroom]

/-- **An allocation that agrees about the room completes.** -/
theorem completes_of_roomAgrees (hspace : a.InSpace) {n : Nat} (halign : alignment.toNat = 2 ^ n)
    (h : a.RoomAgrees size alignment) (p : Platform π) (env : π) :
    a.Completes p size alignment env := by
  obtain ⟨hne, hwrap⟩ := h
  have hlt := a.getSize.toNat_lt
  have hspan := hspace.span
  constructor
  · intro hroom
    unfold HasRoom at hroom
    have hsum : (a.nextOffset alignment + size.toNat) % 2 ^ 64 < a.getSize.toNat := by omega
    have hmemory : a.memory.toNat ≠ 0 := by
      intro hnull
      have hsize := hspace.empty (UInt64.toNat_inj.mp hnull)
      rw [hsize, UInt64.toNat_zero] at hsum
      omega
    have hpointer : (alignPointer a.top alignment).toNat =
        a.memory.toNat + a.nextOffset alignment := by
      have hpos : 0 < alignment.toNat := halign ▸ Nat.two_pow_pos n
      have hle : a.memory.toNat + a.memoryOffset.toNat ≤
        alignUp (a.memory.toNat + a.memoryOffset.toNat) alignment.toNat := le_alignUp hpos
      rw [toNat_aligned halign]
      unfold nextOffset at hroom hne ⊢
      omega
    refine ⟨_, _, (allocate_eq halign a p size env).trans (if_pos hsum), fun hnull => ?_, hpointer⟩
    rw [hnull, UInt64.toNat_zero] at hpointer
    omega
  · intro hfull
    unfold HasRoom at hfull
    rw [allocate_eq halign, if_neg]
    omega

/-- **An allocation that completes agrees about the room**, if a pushed exception shows. -/
theorem roomAgrees_of_completes {n : Nat} (halign : alignment.toNat = 2 ^ n)
    (hvisible : p.pushException .outOfMemory env ≠ env) (h : a.Completes p size alignment env) :
    a.RoomAgrees size alignment := by
  have hlt := a.getSize.toNat_lt
  have hrun := allocate_eq halign a p size env
  by_cases hroom : a.HasRoom size alignment
  · obtain ⟨pointer, a', heq, hne, -⟩ := h.returned hroom
    unfold HasRoom at hroom
    refine ⟨fun hexact => ?_, .inl (by omega)⟩
    rw [heq, if_neg (by omega)] at hrun
    exact hne (Prod.mk.inj hrun).1
  · have heq := h.refused hroom
    unfold HasRoom at hroom
    refine ⟨by omega, ?_⟩
    by_contra hwrap
    rw [heq, if_pos (by omega)] at hrun
    exact hvisible (Prod.mk.inj (Prod.mk.inj hrun).2).2

/-- A new allocator has a size only where it has a memory. -/
theorem inSpace_create {marker : UInt64}
    (hspan : (create p size marker env).1.memory.toNat +
      (create p size marker env).1.getSize.toNat ≤ 2 ^ 64) :
    (create p size marker env).1.InSpace := by
  refine ⟨hspan, fun hnull => ?_⟩
  have hzero : (create p size marker env).1.memoryRegion.currentSize = 0 := by
    have hfields : (create p size marker env).1.memory =
        ((MemoryRegion.create size).claim p env).1 ∧
        (create p size marker env).1.memoryRegion =
          ((MemoryRegion.create size).claim p env).2.1 := by
      unfold create
      dsimp only
      split_ifs <;> exact ⟨rfl, rfl⟩
    rw [hfields.1] at hnull
    rw [hfields.2]
    unfold MemoryRegion.claim at hnull ⊢
    dsimp only at hnull ⊢
    split_ifs at hnull ⊢ with hempty
    · rfl
    · obtain ⟨memory, -, ⟨-, hregion⟩ | ⟨hne, hbase, -⟩⟩ :=
        MemoryRegion.grow_cases (MemoryRegion.create size) p
          ((MemoryRegion.create size).maxSize - (MemoryRegion.create size).currentSize) env
      · rw [hregion]
        rfl
      · exact absurd (hbase.symm.trans hnull) hne
  exact if_pos hzero

theorem pushMarker_region (a : LinearAllocator) (p : Platform π) (bytes : Memory) (env : π) :
    (a.pushMarker p bytes env).2.1.memory = a.memory ∧
      (a.pushMarker p bytes env).2.1.memoryRegion = a.memoryRegion := by
  unfold pushMarker
  rcases a.allocate_cases p 8 8 env with ⟨-, heq⟩ | ⟨-, heq⟩
  · rw [heq]
    dsimp only
    split_ifs <;> exact ⟨rfl, rfl⟩
  · rw [heq]
    dsimp only
    split_ifs <;> exact ⟨rfl, rfl⟩

theorem popMarker_region (a : LinearAllocator) (bytes : Memory) :
    (a.popMarker bytes).memory = a.memory ∧
      (a.popMarker bytes).memoryRegion = a.memoryRegion := by
  unfold popMarker
  dsimp only
  split_ifs <;> exact ⟨rfl, rfl⟩

end LinearAllocator

/-! ## Runs -/

namespace LinearRun

variable {s s' : LinearRun π} {call : LinearCall} {result : LinearResult}

/-- **No call moves the memory** or changes its size. -/
theorem step_region (h : s.step p call = some (result, s')) :
    s'.allocator.memory = s.allocator.memory ∧
      s'.allocator.memoryRegion = s.allocator.memoryRegion := by
  cases call with
  | allocate size alignment =>
    rcases s.step_allocate p size alignment with heq | heq
    · obtain ⟨-, rfl⟩ := Prod.mk.inj (Option.some.inj (heq.symm.trans h))
      exact ⟨rfl, rfl⟩
    · obtain ⟨-, rfl⟩ := Prod.mk.inj (Option.some.inj (heq.symm.trans h))
      exact ⟨rfl, rfl⟩
  | reset =>
    obtain ⟨-, rfl⟩ := Prod.mk.inj (Option.some.inj h)
    exact ⟨rfl, rfl⟩
  | pushMarker =>
    have hs' := (Prod.mk.inj (Option.some.inj h)).2
    rw [← hs']
    exact s.allocator.pushMarker_region p s.bytes s.env
  | popMarker =>
    have hs' := (Prod.mk.inj (Option.some.inj h)).2
    rw [← hs']
    exact s.allocator.popMarker_region s.bytes
  | write address bytes =>
    obtain ⟨-, rfl⟩ := Prod.mk.inj (Option.some.inj h)
    exact ⟨rfl, rfl⟩

/-- The memory stays in the address space. -/
theorem inSpace_step (hinv : s.allocator.InSpace) (h : s.step p call = some (result, s')) :
    s'.allocator.InSpace := by
  obtain ⟨hmemory, hregion⟩ := step_region h
  have hsize : s'.allocator.getSize = s.allocator.getSize :=
    congrArg MemoryRegion.getCurrentSize hregion
  exact ⟨by rw [hmemory, hsize]; exact hinv.span, by rw [hmemory, hsize]; exact hinv.empty⟩

/-- **In every state that a run reaches an allocation completes iff it agrees about the room.** For
the one direction a pushed exception must show. -/
theorem run_complete_iff (p : Platform π) (size marker : UInt64) (bytes : Memory) (env : π)
    (hspan : (LinearAllocator.create p size marker env).1.memory.toNat +
      (LinearAllocator.create p size marker env).1.getSize.toNat ≤ 2 ^ 64)
    (calls : List LinearCall) (results : List LinearResult) (s : LinearRun π)
    (hrun : exec (step p) (start p size marker bytes env) calls = some (results, s))
    (blockSize alignment : UInt64) (halign : ∃ n, alignment.toNat = 2 ^ n) :
    (s.allocator.RoomAgrees blockSize alignment →
        s.allocator.Completes p blockSize alignment s.env) ∧
      (p.pushException .outOfMemory s.env ≠ s.env →
        s.allocator.Completes p blockSize alignment s.env →
          s.allocator.RoomAgrees blockSize alignment) := by
  obtain ⟨n, halign⟩ := halign
  have hall : Along (step p) (fun _ _ => True) (start p size marker bytes env) calls :=
    Along.of_forall_mem fun _ _ _ => trivial
  have hspace : s.allocator.InSpace :=
    exec_invariant (fun s => s.allocator.InSpace) (fun _ _ _ _ hinv _ h => inSpace_step hinv h)
      (LinearAllocator.inSpace_create hspan) hall hrun
  exact ⟨fun h => LinearAllocator.completes_of_roomAgrees hspace halign h p s.env,
    fun hvisible h => LinearAllocator.roomAgrees_of_completes halign hvisible h⟩

/-- A block after a marker. -/
theorem run_complete_iff_marker : ∃ results s,
    exec (step Platform.granting) (start Platform.granting 0x10000 0 (fun _ => 0) ())
      [.allocate 24 8, .allocate 24 16, .pushMarker] = some (results, s) ∧
    s.allocator.Completes Platform.granting 100 64 s.env := by
  obtain ⟨results, s, hrun⟩ : ∃ results s,
    exec (step Platform.granting) (start Platform.granting 0x10000 0 (fun _ => 0) ())
      [.allocate 24 8, .allocate 24 16, .pushMarker] = some (results, s) := ⟨_, _, rfl⟩
  refine ⟨results, s, hrun, (run_complete_iff Platform.granting 0x10000 0 (fun _ => 0) ()
    (by decide) _ results s hrun 100 64 ⟨6, rfl⟩).1 ?_⟩
  obtain ⟨-, rfl⟩ := Prod.mk.inj (Option.some.inj hrun)
  decide

/-- **A block that fits exactly is refused**: all of a new allocator's memory. -/
theorem not_complete : ¬ ∀ (p : Platform Unit) (size marker : UInt64) (bytes : Memory)
    (calls : List LinearCall) (results : List LinearResult) (s : LinearRun Unit),
    (LinearAllocator.create p size marker ()).1.memory.toNat +
      (LinearAllocator.create p size marker ()).1.getSize.toNat ≤ 2 ^ 64 →
    exec (step p) (start p size marker bytes ()) calls = some (results, s) →
    ∀ blockSize alignment : UInt64, (∃ n, alignment.toNat = 2 ^ n) →
      s.allocator.Completes p blockSize alignment s.env := by
  intro hall
  have h := hall Platform.granting 0x10000 0 (fun _ => 0) [] [] _ (by decide) rfl 0x10000 16
    ⟨4, rfl⟩
  obtain ⟨pointer, a', heq, hne, -⟩ := h.returned (by unfold LinearAllocator.HasRoom; decide)
  exact hne (congrArg Prod.fst heq).symm

end LinearRun

end Hologine.Memory
