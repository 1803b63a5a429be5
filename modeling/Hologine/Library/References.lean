import Mathlib.Algebra.Group.Nat.Defs
import Mathlib.Data.List.Basic
import Mathlib.Data.List.Nodup
import Mathlib.Data.List.Perm.Subperm
import Mathlib.Logic.Function.Basic

/-!
# Counting references

Owners hold a resource each, or none. `references live holds b` is the number of live owners that
hold `b`: what a reference count is to be.

* `references_construct`, `references_erase`, `references_update`: what it is after an owner is
  made, is gone, or holds something else.
* `references_erase_eq_zero_iff`, `references_update_eq_zero_iff`: when the last reference goes.
* `references_lt`: owners that live at nonzero machine addresses do not overflow it.
-/

namespace Hologine.Library

variable {α β : Type*} [DecidableEq β]

/-- The number of live owners that hold a resource. -/
def references (live : List α) (holds : α → Option β) (b : β) : Nat :=
  live.countP fun a => holds a = some b

variable {live : List α} {holds holds' : α → Option β} {a a' : α} {b : β}

theorem references_cons : references (a :: live) holds b =
    references live holds b + if holds a = some b then 1 else 0 := by
  rw [references, List.countP_cons, references]
  simp only [decide_eq_true_eq]

theorem references_congr (h : ∀ a ∈ live, holds a = holds' a) :
    references live holds b = references live holds' b := by
  refine List.countP_congr fun a ha => ?_
  rw [h a ha]

theorem references_pos (ha : a ∈ live) (h : holds a = some b) : 0 < references live holds b :=
  List.countP_pos_iff.mpr ⟨a, ha, decide_eq_true h⟩

variable [DecidableEq α]

/-- An owner that is not live yet holds what it is made with. -/
theorem references_construct (ha : a ∉ live) (h : Option β) :
    references (a :: live) (Function.update holds a h) b =
      references live holds b + if h = some b then 1 else 0 := by
  rw [references_cons, Function.update_self]
  congr 1
  refine references_congr fun a' ha' => Function.update_of_ne ?_ _ _
  rintro rfl
  exact ha ha'

/-- An owner that is gone held one reference, of what it held. -/
theorem references_erase (holds : α → Option β) (b : β) (ha : a ∈ live) :
    references (live.erase a) holds b + (if holds a = some b then 1 else 0) =
      references live holds b := by
  rw [← references_cons]
  exact ((List.perm_cons_erase ha).countP_eq _).symm

/-- An owner that comes to hold something else. -/
theorem references_update (hnodup : live.Nodup) (ha : a ∈ live) (h : Option β) :
    references live (Function.update holds a h) b + (if holds a = some b then 1 else 0) =
      references live holds b + if h = some b then 1 else 0 := by
  have hothers : references (live.erase a) (Function.update holds a h) b =
      references (live.erase a) holds b := by
    refine references_congr fun a' ha' => Function.update_of_ne ?_ _ _
    rintro rfl
    exact hnodup.not_mem_erase ha'
  have hbefore := references_erase holds b ha
  have hafter := references_erase (Function.update holds a h) b ha
  rw [hothers, Function.update_self] at hafter
  omega

/-- Two owners of one resource are two references. -/
theorem one_lt_references (ha : a ∈ live) (ha' : a' ∈ live) (hne : a ≠ a') (h : holds a = some b)
    (h' : holds a' = some b) : 1 < references live holds b := by
  have hother := references_pos ((List.mem_erase_of_ne hne).mpr ha) h
  have herase := references_erase holds b ha'
  rw [if_pos h'] at herase
  omega

/-- **The last reference goes with its owner.** -/
theorem references_erase_eq_zero_iff (holds : α → Option β) (b : β) (ha : a ∈ live) :
    references live holds b ≠ 0 ∧ references (live.erase a) holds b = 0 ↔
      holds a = some b ∧ references live holds b = 1 := by
  have herase := references_erase holds b ha
  split_ifs at herase with hheld
  · simp only [hheld, true_and]
    omega
  · simp only [hheld, false_and, iff_false]
    omega

/-- **The last reference goes when its owner comes to hold what another holds.** -/
theorem references_update_eq_zero_iff (holds : α → Option β) (b : β) (hnodup : live.Nodup)
    (ha : a ∈ live) (ha' : a' ∈ live) :
    references live holds b ≠ 0 ∧
        references live (Function.update holds a (holds a')) b = 0 ↔
      a ≠ a' ∧ holds a = some b ∧ references live holds b = 1 := by
  have hupdate := @references_update _ _ _ live holds a b _ hnodup ha (holds a')
  constructor
  · rintro ⟨hpos, hzero⟩
    have hheld : holds a = some b := by
      by_contra hnone
      rw [if_neg hnone] at hupdate
      omega
    have hapart : holds a' ≠ some b := by
      intro hheld'
      rw [if_pos hheld, if_pos hheld'] at hupdate
      omega
    rw [if_pos hheld, if_neg hapart] at hupdate
    refine ⟨?_, hheld, by omega⟩
    rintro rfl
    exact hapart hheld
  · rintro ⟨hne, hheld, hone⟩
    -- the other owner would be a second one
    have hapart : holds a' ≠ some b := by
      intro hheld'
      have htwo := one_lt_references ha ha' hne hheld hheld'
      omega
    rw [if_pos hheld, if_neg hapart] at hupdate
    omega

/-- **A machine word counts the owners at nonzero addresses.** -/
theorem references_lt {live : List UInt64} {holds : UInt64 → Option β} (hnodup : live.Nodup)
    (hzero : 0 ∉ live) : references live holds b < 2 ^ 64 := by
  have hinj : Function.Injective UInt64.toNat := fun _ _ => UInt64.toNat_inj.mp
  have hall := List.Nodup.map hinj (List.nodup_cons.mpr ⟨hzero, hnodup⟩)
  have hsub : (0 :: live).map UInt64.toNat ⊆ List.range (2 ^ 64) := by
    intro n hn
    obtain ⟨a, -, rfl⟩ := List.mem_map.mp hn
    exact List.mem_range.mpr a.toNat_lt
  have hlen := (hall.subperm hsub).length_le
  rw [List.length_map, List.length_cons, List.length_range] at hlen
  exact Nat.lt_of_le_of_lt List.countP_le_length hlen

end Hologine.Library
