import Mathlib.Algebra.Group.Nat.Defs
import Mathlib.Data.Nat.Basic
import Mathlib.Order.Bounds.Defs

/-!
# Rounding up to a multiple

`alignUp n align` is the least multiple of `align` that is at least `n`.

* `dvd_alignUp`, `le_alignUp`, `alignUp_lt`: it is a multiple, at least `n`, by less than `align`.
* `isLeast_alignUp`: it is the least such multiple.
* `alignUp_le_of_dvd`: the distance is smaller when `n` is a multiple of a divisor of `align`.
* `alignUp_add_of_dvd`: adding a multiple of `align` commutes with it.
-/

namespace Hologine.Library.Align

/-- The least multiple of `align` that is at least `n`. -/
def alignUp (n align : Nat) : Nat := (n + (align - 1)) / align * align

variable {n align : Nat}

theorem dvd_alignUp (n align : Nat) : align ∣ alignUp n align := ⟨_, Nat.mul_comm _ _⟩

theorem le_alignUp (h : 0 < align) : n ≤ alignUp n align := by
  have := Nat.div_add_mod (n + (align - 1)) align
  have := Nat.mod_lt (n + (align - 1)) h
  rw [alignUp, Nat.mul_comm]
  omega

theorem alignUp_lt (h : 0 < align) : alignUp n align < n + align := by
  have := Nat.div_mul_le_self (n + (align - 1)) align
  rw [alignUp]
  omega

/-- The only multiple that close. -/
theorem alignUp_eq_of_dvd {m : Nat} (h : 0 < align) (hm : align ∣ m) (hle : n ≤ m)
    (hlt : m < n + align) : alignUp n align = m := by
  have hlt' := alignUp_lt (n := n) h
  have hle' := le_alignUp (n := n) h
  rcases Nat.le_total m (alignUp n align) with hmn | hmn
  · have hdvd := Nat.dvd_sub (dvd_alignUp n align) hm
    rcases Nat.eq_zero_or_pos (alignUp n align - m) with h0 | hpos
    · omega
    · have := Nat.le_of_dvd hpos hdvd
      omega
  · have hdvd := Nat.dvd_sub hm (dvd_alignUp n align)
    rcases Nat.eq_zero_or_pos (m - alignUp n align) with h0 | hpos
    · omega
    · have := Nat.le_of_dvd hpos hdvd
      omega

/-- A multiple stays. -/
theorem alignUp_eq_self (h : 0 < align) (hn : align ∣ n) : alignUp n align = n :=
  alignUp_eq_of_dvd h hn (Nat.le_refl n) (Nat.lt_add_of_pos_right h)

/-- A multiple of a divisor of the alignment moves by at most their difference. -/
theorem alignUp_le_of_dvd {d : Nat} (h : 0 < align) (hd : d ∣ align) (hn : d ∣ n) :
    alignUp n align ≤ n + (align - d) := by
  have hlt := alignUp_lt (n := n) h
  have hle := le_alignUp (n := n) h
  have hsum : d ∣ n + align - alignUp n align :=
    Nat.dvd_sub (Nat.dvd_add hn hd) (Nat.dvd_trans hd (dvd_alignUp n align))
  have := Nat.le_of_dvd (by omega) hsum
  have := Nat.le_of_dvd h hd
  omega

/-- A multiple of the alignment is added before or after. -/
theorem alignUp_add_of_dvd {m : Nat} (h : 0 < align) (hm : align ∣ m) :
    alignUp (n + m) align = alignUp n align + m := by
  have hle := le_alignUp (n := n) h
  have hlt := alignUp_lt (n := n) h
  exact alignUp_eq_of_dvd h (Nat.dvd_add (dvd_alignUp n align) hm) (by omega) (by omega)

/-- What is no larger than a multiple of the alignment stays so. -/
theorem alignUp_le {m : Nat} (h : 0 < align) (hm : align ∣ m) (hle : n ≤ m) :
    alignUp n align ≤ m := by
  have hlt := alignUp_lt (n := n) h
  by_contra hgt
  have hsub := Nat.le_of_dvd (by omega) (Nat.dvd_sub (dvd_alignUp n align) hm)
  omega

theorem isLeast_alignUp (h : 0 < align) : IsLeast {m | align ∣ m ∧ n ≤ m} (alignUp n align) := by
  constructor
  · exact ⟨dvd_alignUp n align, le_alignUp h⟩
  · rintro m ⟨hm, hle⟩
    exact alignUp_le h hm hle

end Hologine.Library.Align
