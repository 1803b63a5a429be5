import Hologine.Library.Memory
import Mathlib.Algebra.Group.Nat.Defs
import Mathlib.Data.Nat.Basic

/-!
# Arrays in allocated blocks

Model of `allocator::construct_array` and `allocator::destruct_array`
(`core/memory/allocator.hpp:89-109, 120-134`) over `allocate` of any allocator. A block of an array
begins with a word for the length of the array.

* `constructArray` puts the array one byte after the start of its block, where it casts the pointer
  to an integer before it adds one, and `destructArray` takes the block to start a whole word before
  the array.
* The loop of `destruct_array` counts down an index without a sign while that is at least zero.

Results:
* `destructArray_passes`: what `destructArray` passes to `deallocate`, if it gets there.
* `firstElement_in_header`: the first element is over the word for the length.
* `never_agrees`: no array that is constructed is destructed as it should be.
* `destructed_succ`: after the elements of the array the loop goes on with the last index there is.
* `never_destructsInReverse`: the loop of `destruct_array` ends for no array.
-/

namespace Hologine.Memory

open Hologine.Library

/-- A type of elements: its size, and what its default constructor sets, from the first byte on. -/
structure ElementType where
  size : UInt64
  initial : List UInt8
  size_pos : 0 < size.toNat
  initial_le : initial.length ≤ size.toNat

/-- `sizeof(std::size_t)`. -/
def lengthSize : UInt64 := 8

namespace ElementType

variable {σ : Type} (t : ElementType) (allocate : UInt64 → UInt64 → σ → UInt64 × σ)

/-- `array + i`. -/
def elementAt (array i : UInt64) : UInt64 := array + i * t.size

/-- The size of the block for an array. -/
def arraySize (length : UInt64) : UInt64 := t.size * length + lengthSize

/-- The loop of `construct_array`: so many elements, from an index on. -/
def constructElements (array : UInt64) : Nat → UInt64 → Memory → Memory
  | 0, _, m => m
  | count + 1, i, m =>
    constructElements array count (i + 1) (m.write (t.elementAt array i).toNat t.initial)

/-- `construct_array`, where a block is allocated: the array. Storing the length through a null
pointer has no defined behaviour. -/
def constructArray (length align : UInt64) (s : σ) (m : Memory) : Option (UInt64 × σ × Memory) :=
  let (memory, s) := allocate (t.arraySize length) align s
  if memory = 0 then none
  else
    let m := m.store64 memory.toNat length
    let array := memory + 1
    some (array, s, t.constructElements array length.toNat 0 m)

end ElementType

/-- The length that `destruct_array` reads. -/
def arrayLength (m : Memory) (array : UInt64) : UInt64 := m.load64 (array - lengthSize).toNat

/-- The loop of `destruct_array`, in so many steps: the indices it destructs the elements of. -/
def destructElements : Nat → UInt64 → Option (List UInt64)
  | 0, _ => none
  | steps + 1, i =>
    if i ≥ 0 then (destructElements steps (i - 1)).map (List.cons i) else some []

/-- `destruct_array`, whose loop takes so many steps: the indices it destructs the elements of, and
the pointer it passes to `deallocate`. -/
def destructArray (steps : Nat) (m : Memory) (array : UInt64) : Option (List UInt64 × UInt64) := do
  let indices ← destructElements steps (arrayLength m array - 1)
  let memory := array - lengthSize
  some (indices, memory)

/-- The indices that the loop destructs the elements of in so many iterations, whether or not it
goes on. -/
def destructed : Nat → UInt64 → List UInt64
  | 0, _ => []
  | iterations + 1, i => if i ≥ 0 then i :: destructed iterations (i - 1) else []

/-- The indices of an array of a length, the last first. -/
def reverseIndices (length : UInt64) : List UInt64 :=
  (List.range length.toNat).reverse.map UInt64.ofNat

/-- **An array is destructed in reverse**: the loop ends, having run the destructor of each element
once, the last first, and of nothing else. -/
def DestructsInReverse (m : Memory) (array : UInt64) : Prop :=
  ∃ steps memory,
    destructArray steps m array = some (reverseIndices (arrayLength m array), memory)

/-- **An array in a block is destructed as it was constructed**: its elements are in the block and
none of them is over the length, the length is read back, and `deallocate` is passed the block. -/
structure ArrayAgrees (t : ElementType) (memory length array : UInt64) (m : Memory) : Prop where
  inside : ∀ i < length, memory.toNat ≤ (t.elementAt array i).toNat ∧
    (t.elementAt array i).toNat + t.size.toNat ≤ memory.toNat + (t.arraySize length).toNat
  apart : ∀ i < length, memory.toNat + lengthSize.toNat ≤ (t.elementAt array i).toNat
  length_eq : arrayLength m array = length
  passed : ∃ steps indices, destructArray steps m array = some (indices, memory)

/-- What is asked of `allocate`: a block is aligned, and in the address space. -/
def AllocatesSoundly {σ : Type} (allocate : UInt64 → UInt64 → σ → UInt64 × σ) : Prop :=
  ∀ size alignment s, (allocate size alignment s).1 ≠ 0 →
    alignment.toNat ∣ (allocate size alignment s).1.toNat ∧
      (allocate size alignment s).1.toNat + size.toNat ≤ 2 ^ 64

variable {σ : Type} {allocate : UInt64 → UInt64 → σ → UInt64 × σ} {t : ElementType}
  {length align array : UInt64} {s s' : σ} {m m' : Memory}

/-- Where a block is allocated, the array is one byte after its start. -/
theorem constructArray_eq_some
    (h : t.constructArray allocate length align s m = some (array, s', m')) :
    array = (allocate (t.arraySize length) align s).1 + 1 := by
  unfold ElementType.constructArray at h
  dsimp only at h
  split_ifs at h
  exact (Prod.mk.inj (Option.some.inj h)).1.symm

/-- **What `destruct_array` passes to `deallocate`**, if its loop ends. -/
theorem destructArray_passes {steps : Nat} {indices : List UInt64} {memory : UInt64}
    (h : destructArray steps m array = some (indices, memory)) : memory = array - lengthSize := by
  obtain ⟨_, -, hrun⟩ := Option.bind_eq_some_iff.mp h
  exact (Prod.mk.inj (Option.some.inj hrun)).2.symm

/-- One byte after the start of a block is no word after it. -/
theorem add_one_sub_ne (memory : UInt64) : memory ≠ memory + 1 - lengthSize := by
  have hsize : lengthSize.toNat = 8 := rfl
  have hlt := memory.toNat_lt
  rw [Ne, ← UInt64.toNat_inj, UInt64.toNat_sub, UInt64.toNat_add, UInt64.toNat_one, hsize]
  omega

/-- **The first element is over the word for the length.** -/
theorem firstElement_in_header {memory : UInt64}
    (hroom : memory.toNat + lengthSize.toNat ≤ 2 ^ 64) :
    (t.elementAt (memory + 1) 0).toNat = memory.toNat + 1 := by
  have hsize : lengthSize.toNat = 8 := rfl
  rw [ElementType.elementAt, UInt64.zero_mul, UInt64.add_zero, UInt64.toNat_add, UInt64.toNat_one,
    Nat.mod_eq_of_lt (by omega)]

/-- **No array agrees**: of any type and length, in any block that is allocated. -/
theorem never_agrees (h : t.constructArray allocate length align s m = some (array, s', m')) :
    ¬ ArrayAgrees t (allocate (t.arraySize length) align s).1 length array m' := by
  obtain rfl := constructArray_eq_some h
  intro hagrees
  obtain ⟨steps, indices, hrun⟩ := hagrees.passed
  exact add_one_sub_ne _ (destructArray_passes hrun)

/-- An allocator that has one block, of 16 bytes. -/
def oneBlock (size alignment : UInt64) (_ : Unit) : UInt64 × Unit :=
  (if size ≤ 16 ∧ alignment = 16 then 0x1000 else 0, ())

/-- Elements of four bytes, which are set to zero. -/
def zeroWord : ElementType := ⟨4, [0, 0, 0, 0], by decide, by decide⟩

/-- Two elements of four bytes. -/
theorem never_agrees_two_words :
    ∃ m', ¬ ArrayAgrees zeroWord (oneBlock (zeroWord.arraySize 2) 16 ()).1 2 0x1001 m' := by
  obtain ⟨m', hrun⟩ : ∃ m', zeroWord.constructArray oneBlock 2 16 () (fun _ => 0) =
    some (0x1001, (), m') := ⟨_, rfl⟩
  exact ⟨m', never_agrees hrun⟩

/-- **An array does not agree**: two elements of four bytes, on the default alignment. -/
theorem not_agrees : ¬ ∀ (allocate : UInt64 → UInt64 → Unit → UInt64 × Unit) (t : ElementType)
    (length align array : UInt64) (m m' : Memory), AllocatesSoundly allocate →
      (∃ a, align.toNat = 2 ^ a) → lengthSize ≤ align →
        t.constructArray allocate length align () m = some (array, (), m') →
          ArrayAgrees t (allocate (t.arraySize length) align ()).1 length array m' := by
  intro hall
  have hsound : AllocatesSoundly oneBlock := by
    intro size alignment s hne
    unfold oneBlock at hne ⊢
    dsimp only at hne ⊢
    split_ifs at hne ⊢ with hfits
    · obtain ⟨hsize, rfl⟩ := hfits
      have hle := UInt64.le_iff_toNat_le.mp hsize
      have hsixteen : (16 : UInt64).toNat = 16 := rfl
      exact ⟨by decide, by show 0x1000 + size.toNat ≤ 2 ^ 64; omega⟩
    · exact absurd rfl hne
  have h := hall oneBlock zeroWord 2 16 0x1001 (fun _ => 0) _ hsound ⟨4, rfl⟩ (by decide) rfl
  obtain ⟨steps, indices, hrun⟩ := h.passed
  exact absurd (destructArray_passes hrun) (by decide)

/-! ## The loop of `destruct_array` -/

/-- **The loop does not end**: an index without a sign is never below zero. -/
theorem destructElements_eq_none (steps : Nat) (i : UInt64) : destructElements steps i = none := by
  induction steps generalizing i with
  | zero => rfl
  | succ steps ih =>
    unfold destructElements
    rw [if_pos UInt64.zero_le, ih]
    rfl

/-- Each iteration destructs the element before the last one's, and there always is one more. -/
theorem destructed_eq (iterations : Nat) (i : UInt64) :
    destructed iterations i = (List.range iterations).map fun k => i - UInt64.ofNat k := by
  induction iterations generalizing i with
  | zero => rfl
  | succ iterations ih =>
    unfold destructed
    rw [if_pos UInt64.zero_le, ih, List.range_succ_eq_map]
    simp only [List.map_cons, List.map_map]
    congr 1
    · simp
    · refine List.map_congr_left fun k _ => ?_
      rw [Function.comp_apply, ← UInt64.toNat_inj]
      simp only [UInt64.toNat_sub, UInt64.toNat_one, UInt64.toNat_ofNat']
      omega

/-- The first iterations destruct the elements of the array, the last first. -/
theorem destructed_length (length : UInt64) :
    destructed length.toNat (length - 1) = reverseIndices length := by
  rw [destructed_eq, reverseIndices]
  refine List.ext_getElem (by simp) fun k hk hk' => ?_
  have hlt : k < length.toNat := by simpa using hk
  simp only [List.getElem_map, List.getElem_range, List.getElem_reverse, List.length_range]
  rw [← UInt64.toNat_inj]
  have := length.toNat_lt
  simp only [UInt64.toNat_sub, UInt64.toNat_one, UInt64.toNat_ofNat']
  omega

/-- **The next iteration destructs what no array has**: the element at the last index of all. -/
theorem destructed_succ (length : UInt64) : destructed (length.toNat + 1) (length - 1) =
    reverseIndices length ++ [UInt64.ofNat (2 ^ 64 - 1)] := by
  rw [← destructed_length, destructed_eq, destructed_eq, List.range_succ, List.map_append]
  congr 1
  rw [List.map_singleton, List.cons.injEq, ← UInt64.toNat_inj]
  have := length.toNat_lt
  simp only [UInt64.toNat_sub, UInt64.toNat_one, UInt64.toNat_ofNat']
  exact ⟨by omega, trivial⟩

theorem destructArray_eq_none (steps : Nat) (m : Memory) (array : UInt64) :
    destructArray steps m array = none := by
  unfold destructArray
  rw [destructElements_eq_none]
  rfl

/-- **No array is destructed in reverse**, of whatever length, the empty one included. -/
theorem never_destructsInReverse (m : Memory) (array : UInt64) : ¬ DestructsInReverse m array := by
  rintro ⟨steps, memory, hrun⟩
  rw [destructArray_eq_none] at hrun
  exact nomatch hrun

/-- **An empty array is not destructed in reverse**, its length at `0x1000`. -/
theorem not_destructsInReverse :
    ¬ ∀ (m : Memory) (array : UInt64), DestructsInReverse m array := by
  intro hall
  obtain ⟨steps, memory, hrun⟩ := hall (fun _ => 0) 0x1008
  rw [destructArray_eq_none] at hrun
  exact nomatch hrun

end Hologine.Memory
