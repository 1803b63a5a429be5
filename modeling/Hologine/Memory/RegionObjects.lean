import Hologine.Library.Run
import Hologine.Memory.MemoryRegion
import Mathlib.Logic.Function.Basic

/-!
# Memory regions as objects

The objects of `memory_region` in a program (`core/memory/memory_region.cpp:16-160`): they are
constructed, moved and destructed, and called in between. An object is named by a number, and a run
ends where an object is used that is not there.

* `grow` adds the size that is asked for to `current_size` in a machine word, and compares the word
  with `max_size`. So a size that wraps the sum is granted, and the region is smaller after it.

Results:
* `RegionSystem.effect_of_step`: what each operation does, for all that is proved of runs.
* `MemoryRegion.growsExactly_iff`: what `grow` does with a size is right iff the sum does not wrap,
  or the platform refuses the pages of the wrapped sum.
* `RegionSystem.run_growsExactly_iff`: so it is in every state of every run.
-/

namespace Hologine.Memory

open Hologine.Library.Run Hologine.Math

/-- What is left of a region that has been moved from. -/
def MemoryRegion.moved : MemoryRegion := ⟨0, 0, 0⟩

/-- The regions that live, and the platform. -/
structure RegionSystem (π : Type) where
  live : List ℕ
  region : ℕ → MemoryRegion
  env : π

/-- What a program does with its regions. -/
inductive RegionOp where
  | construct (id : ℕ) (maxSize : UInt64)
  | moveConstruct (id other : ℕ)
  | moveAssign (id other : ℕ)
  | grow (id : ℕ) (size : UInt64)
  | claim (id : ℕ)
  | reset (id : ℕ) (release : Bool)
  | destruct (id : ℕ)
  deriving Repr, DecidableEq

variable {π : Type} (p : Platform π)

namespace RegionSystem

/-- No region lives yet. -/
def start (env : π) : RegionSystem π := ⟨[], fun _ => .moved, env⟩

/-- The region of an object is another. -/
def withRegion (s : RegionSystem π) (id : ℕ) (r : MemoryRegion) : RegionSystem π :=
  { s with region := Function.update s.region id r }

/-- The members of another object are assigned to one, and then cleared in the other. -/
def moveTo (s : RegionSystem π) (id other : ℕ) : RegionSystem π :=
  (s.withRegion id (s.region other)).withRegion other .moved

/-- One operation: what `grow` and `claim` return, and the next state. -/
def step (s : RegionSystem π) : RegionOp → Option (Option UInt64 × RegionSystem π)
  | .construct id maxSize =>
    if id ∈ s.live then none
    else some (none, { s.withRegion id (.create maxSize) with live := id :: s.live })
  | .moveConstruct id other =>
    if id ∉ s.live ∧ other ∈ s.live then
      some (none, { s.moveTo id other with live := id :: s.live })
    else none
  | .moveAssign id other =>
    if id ∈ s.live ∧ other ∈ s.live then some (none, s.moveTo id other) else none
  | .grow id size =>
    if id ∈ s.live then
      let (base, r, env) := (s.region id).grow p size s.env
      some (some base, { s.withRegion id r with env := env })
    else none
  | .claim id =>
    if id ∈ s.live then
      let (base, r, env) := (s.region id).claim p s.env
      some (some base, { s.withRegion id r with env := env })
    else none
  | .reset id release =>
    if id ∈ s.live then
      let (r, env) := (s.region id).reset p release s.env
      some (none, { s.withRegion id r with env := env })
    else none
  | .destruct id =>
    if id ∈ s.live then
      let (r, env) := (s.region id).reset p true s.env
      some (none, { s.withRegion id r with live := s.live.erase id, env := env })
    else none

end RegionSystem

namespace MemoryRegion

/-- **`grow` grows by exactly the size, or not at all**: it succeeds only if the size that results
is within the region, and else returns null and leaves the size. -/
def GrowsExactly (r : MemoryRegion) (size : UInt64) (env : π) : Prop :=
  ((r.grow p size env).1 ≠ 0 → r.currentSize.toNat + size.toNat ≤ r.maxSize.toNat ∧
      (r.grow p size env).2.1.currentSize.toNat = r.currentSize.toNat + size.toNat) ∧
    ((r.grow p size env).1 = 0 → (r.grow p size env).2.1.currentSize = r.currentSize)

/-- The platform refuses the pages that `grow` takes the sum to need and the current size not. -/
def CommitRefused (r : MemoryRegion) (size : UInt64) (env : π) : Prop :=
  pagesOf (size + r.currentSize) > pagesOf r.currentSize ∧
    (p.commitPages r.memory (pagesOf r.currentSize)
      (pagesOf (size + r.currentSize) - pagesOf r.currentSize) env).1 = false

/-- What every region keeps to: it is within its maximum, and empty while it is not reserved. -/
structure Sized (r : MemoryRegion) : Prop where
  le_max : r.currentSize ≤ r.maxSize
  unreserved : r.memory = 0 → r.currentSize = 0

variable {p} {r : MemoryRegion} {size : UInt64} {env : π}

theorem sized_create (maxSize : UInt64) : (create maxSize).Sized := ⟨UInt64.zero_le, fun _ => rfl⟩

theorem sized_moved : moved.Sized := sized_create 0

theorem Sized.grow (h : r.Sized) (size : UInt64) (env : π) : (r.grow p size env).2.1.Sized := by
  obtain ⟨memory, hsame, hcases⟩ := r.grow_cases p size env
  rcases hcases with ⟨-, heq⟩ | ⟨hmemory, -, hle, heq⟩
  · rw [heq]
    refine ⟨h.le_max, fun hzero => h.unreserved ?_⟩
    by_contra hne
    exact hne ((hsame hne).symm.trans hzero)
  · rw [heq]
    exact ⟨hle, fun hzero => absurd hzero hmemory⟩

theorem Sized.claim (h : r.Sized) (env : π) : (r.claim p env).2.1.Sized := by
  unfold MemoryRegion.claim
  dsimp only
  split_ifs
  · exact h
  · exact h.grow _ env

theorem Sized.reset (h : r.Sized) (release : Bool) (env : π) : (r.reset p release env).1.Sized := by
  unfold MemoryRegion.reset
  by_cases hmemory : r.memory = 0
  · rw [if_pos hmemory]
    exact h
  rw [if_neg hmemory]
  by_cases hsize : r.currentSize > 0
  · simp only [if_pos hsize]
    cases release with
    | false => exact ⟨UInt64.zero_le, fun _ => rfl⟩
    | true => exact ⟨UInt64.zero_le, fun _ => rfl⟩
  · have hzero : r.currentSize = 0 := UInt64.le_zero_iff.mp (UInt64.not_lt.mp hsize)
    simp only [if_neg hsize]
    cases release with
    | false => exact h
    | true => exact ⟨h.le_max, fun _ => hzero⟩

/-- A sum that does not wrap is added. -/
theorem growsExactly_of_fits (hfits : r.currentSize.toNat + size.toNat < 2 ^ 64)
    (p : Platform π) (env : π) : r.GrowsExactly p size env := by
  have hsum : (size + r.currentSize).toNat = r.currentSize.toNat + size.toNat := by
    rw [UInt64.toNat_add, Nat.add_comm, Nat.mod_eq_of_lt hfits]
  obtain ⟨memory, hsame, hcases⟩ := r.grow_cases p size env
  rcases hcases with ⟨hnull, heq⟩ | ⟨hmemory, hbase, hle, heq⟩
  · exact ⟨fun hne => absurd hnull hne, fun _ => by rw [heq]⟩
  · refine ⟨fun _ => ?_, fun hnull => absurd (hbase.symm.trans hnull) hmemory⟩
    rw [UInt64.le_iff_toNat_le, hsum] at hle
    rw [heq]
    exact ⟨hle, hsum⟩

/-- A sum that wraps is less than the current size, so it is never too large, and `grow` grants it
unless it takes pages that the platform refuses. -/
theorem grow_of_wraps (h : r.Sized) (hwraps : 2 ^ 64 ≤ r.currentSize.toNat + size.toNat) :
    (r.grow p size env).1 = 0 ↔ r.CommitRefused p size env := by
  have hsize := size.toNat_lt
  have hle := UInt64.le_iff_toNat_le.mp h.le_max
  have hmemory : r.memory ≠ 0 := by
    intro hzero
    have hcurrent : r.currentSize.toNat = 0 := by rw [h.unreserved hzero]; rfl
    omega
  have hnew : ¬ size + r.currentSize > r.maxSize := by
    rw [gt_iff_lt, UInt64.lt_iff_toNat_lt, UInt64.toNat_add]
    omega
  rw [grow_of_reserved hmemory]
  rcases r.commit_spec p size env with ⟨hmax, -⟩ | ⟨-, hmore, heq⟩ | ⟨-, -, hok, heq⟩ |
    ⟨-, hmore, hok, heq⟩
  · exact absurd hmax hnew
  · rw [heq]
    exact iff_of_false hmemory fun hrefused => hmore hrefused.1
  · rw [heq]
    exact iff_of_false hmemory fun hrefused => absurd (hrefused.2.symm.trans hok) (by simp)
  · rw [heq]
    exact iff_of_true rfl ⟨hmore, hok⟩

/-- **`grow` grows exactly iff the sum does not wrap**, or the platform refuses the pages of the
wrapped sum. -/
theorem growsExactly_iff (h : r.Sized) (p : Platform π) (size : UInt64) (env : π) :
    r.GrowsExactly p size env ↔
      r.currentSize.toNat + size.toNat < 2 ^ 64 ∨ r.CommitRefused p size env := by
  by_cases hfits : r.currentSize.toNat + size.toNat < 2 ^ 64
  · exact iff_of_true (growsExactly_of_fits hfits p env) (.inl hfits)
  rw [or_iff_right hfits, ← grow_of_wraps h (Nat.not_lt.mp hfits)]
  constructor
  · intro hexact
    by_contra hne
    have hle := (hexact.1 hne).1
    have := r.maxSize.toNat_lt
    omega
  · intro hnull
    obtain ⟨memory, -, hcases⟩ := r.grow_cases p size env
    refine ⟨fun hne => absurd hnull hne, fun _ => ?_⟩
    rcases hcases with ⟨-, heq⟩ | ⟨hmemory, hbase, -⟩
    · rw [heq]
    · exact absurd (hbase.symm.trans hnull) hmemory

end MemoryRegion

namespace RegionSystem

variable {p} {s s' : RegionSystem π}

/-- **What one operation does** where it is defined. -/
inductive Effect (p : Platform π) (s : RegionSystem π) : RegionOp → RegionSystem π → Prop
  | construct {id : ℕ} {maxSize : UInt64} (hid : id ∉ s.live) :
      Effect p s (.construct id maxSize)
        { s.withRegion id (.create maxSize) with live := id :: s.live }
  | moveConstruct {id other : ℕ} (hid : id ∉ s.live) (hother : other ∈ s.live) :
      Effect p s (.moveConstruct id other) { s.moveTo id other with live := id :: s.live }
  | moveAssign {id other : ℕ} (hid : id ∈ s.live) (hother : other ∈ s.live) :
      Effect p s (.moveAssign id other) (s.moveTo id other)
  | grow {id : ℕ} {size : UInt64} (hid : id ∈ s.live) :
      Effect p s (.grow id size) { s.withRegion id ((s.region id).grow p size s.env).2.1 with
        env := ((s.region id).grow p size s.env).2.2 }
  | claim {id : ℕ} (hid : id ∈ s.live) :
      Effect p s (.claim id) { s.withRegion id ((s.region id).claim p s.env).2.1 with
        env := ((s.region id).claim p s.env).2.2 }
  | reset {id : ℕ} {release : Bool} (hid : id ∈ s.live) :
      Effect p s (.reset id release) { s.withRegion id ((s.region id).reset p release s.env).1 with
        env := ((s.region id).reset p release s.env).2 }
  | destruct {id : ℕ} (hid : id ∈ s.live) :
      Effect p s (.destruct id) { s.withRegion id ((s.region id).reset p true s.env).1 with
        live := s.live.erase id
        env := ((s.region id).reset p true s.env).2 }

theorem effect_of_step {op : RegionOp} {o : Option UInt64}
    (hstep : s.step p op = some (o, s')) : s.Effect p op s' := by
  cases op with
  | construct id maxSize =>
    obtain ⟨hid, heq⟩ := Option.ite_none_left_eq_some.mp hstep
    obtain ⟨-, rfl⟩ := Prod.mk.inj (Option.some.inj heq)
    exact .construct hid
  | moveConstruct id other =>
    obtain ⟨hid, heq⟩ := Option.ite_none_right_eq_some.mp hstep
    obtain ⟨-, rfl⟩ := Prod.mk.inj (Option.some.inj heq)
    exact .moveConstruct hid.1 hid.2
  | moveAssign id other =>
    obtain ⟨hid, heq⟩ := Option.ite_none_right_eq_some.mp hstep
    obtain ⟨-, rfl⟩ := Prod.mk.inj (Option.some.inj heq)
    exact .moveAssign hid.1 hid.2
  | grow id size =>
    obtain ⟨hid, heq⟩ := Option.ite_none_right_eq_some.mp hstep
    obtain ⟨-, rfl⟩ := Prod.mk.inj (Option.some.inj heq)
    exact .grow hid
  | claim id =>
    obtain ⟨hid, heq⟩ := Option.ite_none_right_eq_some.mp hstep
    obtain ⟨-, rfl⟩ := Prod.mk.inj (Option.some.inj heq)
    exact .claim hid
  | reset id release =>
    obtain ⟨hid, heq⟩ := Option.ite_none_right_eq_some.mp hstep
    obtain ⟨-, rfl⟩ := Prod.mk.inj (Option.some.inj heq)
    exact .reset hid
  | destruct id =>
    obtain ⟨hid, heq⟩ := Option.ite_none_right_eq_some.mp hstep
    obtain ⟨-, rfl⟩ := Prod.mk.inj (Option.some.inj heq)
    exact .destruct hid

/-- Every region that lives is sized. -/
def AllSized (s : RegionSystem π) : Prop := ∀ id ∈ s.live, (s.region id).Sized

@[simp] theorem withRegion_self (s : RegionSystem π) (id : ℕ) (r : MemoryRegion) :
    (s.withRegion id r).region id = r := Function.update_self ..

theorem withRegion_of_ne (s : RegionSystem π) (r : MemoryRegion) {id id' : ℕ} (h : id' ≠ id) :
    (s.withRegion id r).region id' = s.region id' := Function.update_of_ne h ..

theorem AllSized.withRegion (h : s.AllSized) (id : ℕ) {r : MemoryRegion} (hr : r.Sized) :
    ∀ id' ∈ id :: s.live, ((s.withRegion id r).region id').Sized := by
  intro id' hid
  by_cases heq : id' = id
  · rw [heq, withRegion_self]
    exact hr
  · rw [withRegion_of_ne s r heq]
    exact h id' ((List.mem_cons.mp hid).resolve_left heq)

theorem AllSized.moveTo (h : s.AllSized) (id : ℕ) {other : ℕ} (hother : other ∈ s.live) :
    ∀ id' ∈ id :: s.live, ((s.moveTo id other).region id').Sized := by
  intro id' hid
  unfold RegionSystem.moveTo
  by_cases heq : id' = other
  · rw [heq, withRegion_self]
    exact MemoryRegion.sized_moved
  · rw [withRegion_of_ne _ _ heq]
    exact h.withRegion id (h other hother) id' hid

/-- **What one operation keeps.** -/
theorem AllSized.step (h : s.AllSized) {op : RegionOp} {o : Option UInt64}
    (hstep : s.step p op = some (o, s')) : s'.AllSized := by
  cases effect_of_step hstep with
  | construct hid => exact h.withRegion _ (MemoryRegion.sized_create _)
  | moveConstruct hid hother => exact h.moveTo _ hother
  | moveAssign hid hother =>
    exact fun id' hid' => h.moveTo _ hother id' (List.mem_cons_of_mem _ hid')
  | grow hid =>
    exact fun id' hid' => h.withRegion _ ((h _ hid).grow _ s.env) id' (List.mem_cons_of_mem _ hid')
  | claim hid =>
    exact fun id' hid' => h.withRegion _ ((h _ hid).claim s.env) id' (List.mem_cons_of_mem _ hid')
  | reset hid =>
    exact fun id' hid' => h.withRegion _ ((h _ hid).reset _ s.env) id' (List.mem_cons_of_mem _ hid')
  | destruct hid =>
    exact fun id' hid' => h.withRegion _ ((h _ hid).reset true s.env) id'
      (List.mem_cons_of_mem _ (List.mem_of_mem_erase hid'))

/-- **In every state that a run reaches, `grow` of a region and a size grows exactly iff the sum
does not wrap**, or the platform refuses the pages of the wrapped sum. -/
theorem run_growsExactly_iff (p : Platform π) (env : π) (ops : List RegionOp)
    {os : List (Option UInt64)} (hrun : exec (step p) (start env) ops = some (os, s)) {id : ℕ}
    (hid : id ∈ s.live) (size : UInt64) :
    (s.region id).GrowsExactly p size s.env ↔
      (s.region id).currentSize.toNat + size.toNat < 2 ^ 64 ∨
        (s.region id).CommitRefused p size s.env := by
  have hsized : s.AllSized := by
    refine @exec_invariant _ _ _ _ (AllSized (π := π)) (fun _ _ => True)
      (fun s op o s' h _ hstep => h.step hstep) _ _ _ _ (fun id hid => ?_) ?_ hrun
    · exact absurd hid List.not_mem_nil
    · exact Along.of_forall_mem fun _ _ _ => trivial
  exact MemoryRegion.growsExactly_iff (hsized id hid) p size s.env

/-- A region that has been moved grows by the rest of its size. -/
theorem run_growsExactly_iff_moved :
    (MemoryRegion.mk 0x3000 1 granularity).GrowsExactly Platform.granting 0x2fff () :=
  (run_growsExactly_iff Platform.granting ()
    [.construct 0 0x3000, .grow 0 1, .moveConstruct 1 0] rfl (show 1 ∈ [1, 0] by decide)
    0x2fff).mpr (.inl (by decide))

/-- **A region grows by all but one of the machine's sizes and is empty**: it has grown by one
byte before. -/
theorem not_growsExactly : ¬ ∀ (ops : List RegionOp) (os : List (Option UInt64))
    (s : RegionSystem Unit), exec (step Platform.granting) (start ()) ops = some (os, s) →
      ∀ id ∈ s.live, ∀ size, (s.region id).GrowsExactly Platform.granting size s.env := by
  intro hall
  have h := hall [.construct 0 0x3000, .grow 0 1] _ _ rfl 0 (by decide) 0xffffffffffffffff
  exact absurd (h.1 (by decide)).1 (by decide)

end RegionSystem

end Hologine.Memory
