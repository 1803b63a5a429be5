import Hologine.Math.Util

/-!
# Aligning pointers

Model of `allocator::align_pointer` and `allocator::get_pointer_distance`
(`core/memory/allocator.cpp:15-34`) and of `allocator::default_alignment`. Pointers and
`std::size_t` are `UInt64`.

* `toNat_alignPointer`: the next multiple of the alignment, or `0` when that lies past the last
  address. `alignPointer_cases` says what is asked of it mostly.
* `rounding_agrees`: where nothing wraps, `math::round_up` gives that multiple too.
-/

namespace Hologine.Memory

open Hologine.Library.Align Hologine.Library.Bits Hologine.Math

/-- `allocator::default_alignment`. -/
def defaultAlignment : UInt64 := 16

/-- `align_pointer`. -/
def alignPointer (pointer align : UInt64) : UInt64 :=
  let offset := align - 1
  (pointer + offset) &&& ~~~offset

/-- `get_pointer_distance`. -/
def getPointerDistance (left right : UInt64) : UInt64 := left - right

variable {a : Nat}

/-- **The next multiple of the alignment**, or null when there is none. -/
theorem toNat_alignPointer {align : UInt64} (h : align.toNat = 2 ^ a) (pointer : UInt64) :
    (alignPointer pointer align).toNat =
      if alignUp pointer.toNat align.toNat < 2 ^ 64 then alignUp pointer.toNat align.toNat
      else 0 := by
  have hpos := Nat.two_pow_pos a
  have halign := align.toNat_lt
  have hoffset : (align - 1).toNat = 2 ^ a - 1 := by rw [toNat_sub_one (h ▸ hpos), h]
  have ha : a < 64 := (Nat.pow_lt_pow_iff_right (by decide)).mp (h ▸ halign)
  have hle := Nat.div_mul_le_self (pointer.toNat + (2 ^ a - 1)) (2 ^ a)
  rw [alignPointer, toNat_and_not_mask hoffset, UInt64.toNat_add, hoffset, alignUp, h]
  by_cases hwrap : pointer.toNat + (2 ^ a - 1) < 2 ^ 64
  · rw [Nat.mod_eq_of_lt hwrap, if_pos (by omega)]
  · -- the sum wraps to less than the alignment, and the multiple is `2 ^ 64`
    have hlast : 2 ^ (64 - a) * 2 ^ a = 2 ^ 64 := by
      rw [← Nat.pow_add, Nat.sub_add_cancel ha.le]
    have hquot : 2 ^ (64 - a) ≤ (pointer.toNat + (2 ^ a - 1)) / 2 ^ a := by
      rw [Nat.le_div_iff_mul_le hpos, hlast]
      exact Nat.not_lt.mp hwrap
    have hge := Nat.mul_le_mul_right (2 ^ a) hquot
    have hp := pointer.toNat_lt
    have hsmall : (pointer.toNat + (2 ^ a - 1)) % 2 ^ 64 < 2 ^ a := by omega
    rw [if_neg (by omega), Nat.div_eq_of_lt hsmall, Nat.zero_mul]

/-- **A pointer is aligned upwards**, or there is no address to align it to. -/
theorem alignPointer_cases {align : UInt64} (h : align.toNat = 2 ^ a) (pointer : UInt64) :
    alignPointer pointer align = 0 ∨ (align.toNat ∣ (alignPointer pointer align).toNat ∧
      pointer ≤ alignPointer pointer align) := by
  have hpos : 0 < align.toNat := h ▸ Nat.two_pow_pos a
  have htoNat := toNat_alignPointer h pointer
  by_cases hlt : alignUp pointer.toNat align.toNat < 2 ^ 64
  · rw [if_pos hlt] at htoNat
    rw [UInt64.le_iff_toNat_le, htoNat]
    exact .inr ⟨dvd_alignUp _ _, le_alignUp hpos⟩
  · rw [if_neg hlt] at htoNat
    exact .inl (UInt64.toNat_inj.mp htoNat)

/-- The mask gives what the remainder gives. -/
theorem roundUp_eq_alignPointer {value factor : UInt64} (h : factor.toNat.isPowerOfTwo)
    (hroom : value.toNat + factor.toNat ≤ 2 ^ 64) :
    roundUp value factor = alignPointer value factor := by
  obtain ⟨a, ha⟩ := id h
  have hlt := alignUp_lt (n := value.toNat) (Nat.pos_of_isPowerOfTwo h)
  rw [← UInt64.toNat_inj, toNat_roundUp_of_isPowerOfTwo h hroom, toNat_alignPointer ha,
    if_pos (by omega)]

/-- **The rounding helpers agree** wherever the sum that they both start with does not wrap. -/
theorem rounding_agrees (value factor : UInt64)
    (hroom : value.toNat + factor.toNat - 1 < 2 ^ 64) :
    (factor.toNat.isPowerOfTwo →
      roundUp value factor = alignPointer value factor ∧
      IsLeast {m | factor.toNat ∣ m ∧ value.toNat ≤ m} (roundUp value factor).toNat ∧
      (multipleOf value factor).toNat * factor.toNat = (roundUp value factor).toNat) ∧
    (0 < factor → 0 < value →
      IsLeast {m | factor.toNat ∣ m ∧ value.toNat ≤ m} (roundUp value factor).toNat) := by
  have hroom' : value.toNat + factor.toNat ≤ 2 ^ 64 := by omega
  constructor
  · intro hpow
    have hround := toNat_roundUp_of_isPowerOfTwo hpow hroom'
    have hleast := isLeast_alignUp (n := value.toNat) (Nat.pos_of_isPowerOfTwo hpow)
    refine ⟨roundUp_eq_alignPointer hpow hroom', hround ▸ hleast, ?_⟩
    rw [multipleOf, UInt64.toNat_div, hround]
    exact Nat.div_mul_cancel (dvd_alignUp _ _)
  · intro hfactor hvalue
    rw [UInt64.lt_iff_toNat_lt] at hfactor hvalue
    rw [toNat_roundUp hvalue hfactor hroom']
    exact isLeast_alignUp hfactor

/-- To a page of `4096` bytes, and to a factor that is no power of two. -/
theorem rounding_agrees_page :
    (roundUp 5000 4096 = alignPointer 5000 4096 ∧
      IsLeast {m | (4096 : UInt64).toNat ∣ m ∧ (5000 : UInt64).toNat ≤ m}
        (roundUp 5000 4096).toNat ∧
      (multipleOf 5000 4096).toNat * (4096 : UInt64).toNat = (roundUp 5000 4096).toNat) ∧
    IsLeast {m | (3 : UInt64).toNat ∣ m ∧ (5000 : UInt64).toNat ≤ m} (roundUp 5000 3).toNat :=
  ⟨(rounding_agrees 5000 4096 (by decide)).1 ⟨12, rfl⟩,
    (rounding_agrees 5000 3 (by decide)).2 (by decide) (by decide)⟩

/-- Null is aligned. -/
@[simp] theorem alignPointer_zero (align : UInt64) : alignPointer 0 align = 0 := by
  rw [alignPointer, UInt64.zero_add, UInt64.and_not_self]

/-- A pointer is its distance from another past that. -/
@[simp] theorem add_getPointerDistance (left right : UInt64) :
    right + getPointerDistance left right = left := by
  rw [getPointerDistance, UInt64.add_comm, UInt64.sub_add_cancel]

end Hologine.Memory
