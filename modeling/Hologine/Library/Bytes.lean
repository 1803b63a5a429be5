import Mathlib.Algebra.Group.Nat.Defs
import Mathlib.Data.List.Basic

/-!
# Parts of a list

`slice l pos n` is what a reader of `n` elements at `pos` gets and `overwrite l pos part` what a
writer of `part` leaves there.

* `overwrite_set`: writing one element and then the rest is writing them all.
* `overwrite_overwrite`: so is writing one part after another.
* `slice_overwrite`: what is read where a part was written is the part.
-/

namespace Hologine.Library.Bytes

variable {α : Type*}

/-- The `n` elements at `pos`. -/
def slice (l : List α) (pos n : Nat) : List α := (l.drop pos).take n

/-- `l` with `part` in place of the elements at `pos`. -/
def overwrite (l : List α) (pos : Nat) (part : List α) : List α :=
  l.take pos ++ part ++ l.drop (pos + part.length)

theorem length_slice {l : List α} {pos n : Nat} (h : pos + n ≤ l.length) :
    (slice l pos n).length = n := by
  rw [slice, List.length_take, List.length_drop]
  omega

theorem getElem_slice {l : List α} {pos n k : Nat} (h : k < (slice l pos n).length) :
    l[pos + k]? = some (slice l pos n)[k] := by
  have hk : k < n := by
    rw [slice, List.length_take] at h
    omega
  rw [← List.getElem?_eq_getElem h, slice, List.getElem?_take_of_lt hk, List.getElem?_drop]

/-- A slice of two parts. -/
theorem slice_append (l : List α) (pos m n : Nat) :
    slice l pos (m + n) = slice l pos m ++ slice l (pos + m) n := by
  rw [slice, slice, slice, List.take_add, List.drop_drop]

/-- A slice of a slice. -/
theorem slice_slice {l : List α} {pos m start n : Nat} (h : start + n ≤ m) :
    slice (slice l pos m) start n = slice l (pos + start) n := by
  rw [slice, slice, slice, List.drop_take, List.take_take, List.drop_drop,
    Nat.min_eq_left (by omega)]

@[simp] theorem overwrite_nil (l : List α) (pos : Nat) : overwrite l pos [] = l := by
  simp [overwrite]

theorem length_overwrite {l part : List α} {pos : Nat} (h : pos + part.length ≤ l.length) :
    (overwrite l pos part).length = l.length := by
  simp only [overwrite, List.length_append, List.length_take, List.length_drop]
  omega

/-- Writing one element and then the rest is writing them all. -/
theorem overwrite_set {l : List α} {pos : Nat} (h : pos < l.length) (b : α) (part : List α) :
    overwrite (l.set pos b) (pos + 1) part = overwrite l pos (b :: part) := by
  have htake : (l.set pos b).take (pos + 1) = l.take pos ++ [b] := by
    have hlen : (l.take pos).length = pos := List.length_take_of_le (Nat.le_of_lt h)
    rw [List.take_set, List.take_add_one, List.getElem?_eq_getElem h, Option.toList_some,
      List.set_append_right _ _ (Nat.le_of_eq hlen), hlen, Nat.sub_self, List.set_cons_zero]
  have hdrop : (l.set pos b).drop (pos + 1 + part.length) = l.drop (pos + (part.length + 1)) := by
    rw [List.drop_set_of_lt (by omega)]
    congr 1
    omega
  rw [overwrite, overwrite, htake, hdrop, List.length_cons, List.append_assoc, List.append_assoc,
    List.append_assoc]
  rfl

/-- What is read where a part was written is the part. -/
theorem slice_overwrite {l part : List α} {pos : Nat} (h : pos ≤ l.length) :
    slice (overwrite l pos part) pos part.length = part := by
  have hlen : (l.take pos).length = pos := by
    rw [List.length_take]
    omega
  rw [slice, overwrite, List.append_assoc, List.drop_left' hlen, List.take_left]

theorem slice_whole (l : List α) : slice l 0 l.length = l := by simp [slice]

theorem overwrite_whole {l part : List α} (h : part.length = l.length) :
    overwrite l 0 part = part := by simp [overwrite, h]

/-- Writing two parts in a row is writing them as one. -/
theorem overwrite_overwrite {l : List α} {pos : Nat} (part part' : List α) (h : pos ≤ l.length) :
    overwrite (overwrite l pos part) (pos + part.length) part' =
      overwrite l pos (part ++ part') := by
  have hlen : (l.take pos ++ part).length = pos + part.length := by
    rw [List.length_append, List.length_take, Nat.min_eq_left h]
  simp only [overwrite]
  rw [List.take_left' hlen, ← List.drop_drop, List.drop_left' hlen, List.drop_drop,
    List.length_append, List.append_assoc (l.take pos), Nat.add_assoc]

end Hologine.Library.Bytes
