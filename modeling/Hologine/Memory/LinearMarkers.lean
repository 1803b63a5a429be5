import Hologine.Memory.LinearAllocator

/-!
# The markers of a linear allocator

What `push_marker` and `pop_marker` do in well-nested runs. A marker is a word in the memory that is
allocated from, where the top was when it was pushed, and nothing keeps others from that word: the
allocator moves its top to the start of what it allocates, so the next marker, or the next range,
may be there as well. A marker that is pushed at the start of the memory is no word at all.

Results:
* `markerIntact_pushed`, `markerIntact_write`: a marker is intact when it is pushed, and as long as
  nothing is written to its word.
* `Framed` says what the markers that are open are, `Framed.restored_iff` when popping the last one
  restores what it should, and `Framed.popped` that the others are as they were then.
* `LinearRun.restores_iff`: in a well-nested run every `pop_marker` restores the state of its
  `push_marker` **iff** every marker that is popped is intact.
-/

namespace Hologine.Memory

open Hologine.Library Hologine.Library.Run

variable {π : Type} (p : Platform π)

namespace LinearRun

/-- A run starts with an allocator that has just been constructed or reset. -/
structure Fresh (s : LinearRun π) : Prop where
  allocator : (∃ size marker env, s.allocator = (LinearAllocator.create p size marker env).1) ∨
    ∃ a : LinearAllocator, s.allocator = a.reset
  ranges : s.ranges = []
  markers : s.markers = []

/-- What may be called in a well-nested run: pushing a marker succeeds, there is one where one is
popped, and a client writes to a range that it has. -/
def Nested (s : LinearRun π) : LinearCall → Prop
  | .allocate _ alignment => ∃ a, alignment.toNat = 2 ^ a
  | .reset => False
  | .pushMarker => (s.allocator.pushMarker p s.bytes s.env).1 = true
  | .popMarker => s.markers ≠ []
  | .write address bytes => ∃ r ∈ s.ranges, r.1.toNat ≤ address ∧
      address + bytes.length ≤ r.1.toNat + r.2.toNat

/-- **Popping a marker restores** the memory offset and the current marker that it was pushed
with. -/
def Restores (s : LinearRun π) : LinearCall → Prop
  | .popMarker => ∀ marker ∈ s.markers.head?,
      (s.allocator.popMarker s.bytes).memoryOffset = marker.memoryOffset ∧
        (s.allocator.popMarker s.bytes).currentMarker = marker.currentMarker
  | _ => True

/-- A marker is intact: its word, next to where it was pushed, still is the current marker of then.
At the start of the memory there is no word, but either nothing has moved the memory offset since or
there was no current marker. -/
def MarkerIntact (a : LinearAllocator) (bytes : Memory) (marker : OpenMarker) : Prop :=
  if marker.memoryOffset = 0 then a.memoryOffset = 0 ∨ marker.currentMarker = 0
  else bytes.load64 (alignPointer (a.memory + marker.memoryOffset) 8).toNat = marker.currentMarker

/-- **A marker is intact when it is popped.** -/
def PopsIntact (s : LinearRun π) : LinearCall → Prop
  | .popMarker => ∀ marker ∈ s.markers.head?, MarkerIntact s.allocator s.bytes marker
  | _ => True

instance (a : LinearAllocator) (bytes : Memory) (marker : OpenMarker) :
    Decidable (MarkerIntact a bytes marker) :=
  inferInstanceAs (Decidable (if marker.memoryOffset = 0 then
      a.memoryOffset = 0 ∨ marker.currentMarker = 0
    else bytes.load64 (alignPointer (a.memory + marker.memoryOffset) 8).toNat =
      marker.currentMarker))

instance (s : LinearRun π) : (call : LinearCall) → Decidable (s.PopsIntact call)
  | .popMarker => Option.decidableForallMem s.markers.head?
  | .allocate _ _ | .pushMarker | .write _ _ | .reset => isTrue trivial

end LinearRun

open LinearRun

/-! ## The markers that are open -/

variable {p} {env : π} {bytes : Memory}

namespace LinearAllocator

variable {a a' : LinearAllocator} {marker : OpenMarker} {markers : List OpenMarker}

/-- The allocator as it was when a marker was pushed. -/
def restored (a : LinearAllocator) (marker : OpenMarker) : LinearAllocator :=
  { a with memoryOffset := marker.memoryOffset, currentMarker := marker.currentMarker }

/-- **What the open markers are**, the last one first: the current marker is where the last one was
pushed, the top has not returned to the start of the memory since, and the others are so for the
allocator as it was then. -/
def Framed (a : LinearAllocator) : List OpenMarker → Prop
  | [] => a.Sound
  | marker :: markers => a.Sound ∧
      a.currentMarker =
        (if marker.memoryOffset = 0 then marker.currentMarker else marker.memoryOffset) ∧
      (marker.memoryOffset ≠ 0 → a.memoryOffset ≠ 0) ∧ Framed (a.restored marker) markers

theorem Framed.sound (h : a.Framed markers) : a.Sound := by
  cases markers with
  | nil => exact h
  | cons marker markers => exact h.1

/-- The top does not return to the start of the memory. -/
theorem Sound.distance_ne (h : a.Sound) (hoffset : a.memoryOffset ≠ 0) {alignment : UInt64}
    {n : Nat} (halign : alignment.toNat = 2 ^ n) :
    getPointerDistance (alignPointer a.top alignment) a.memory ≠ 0 := by
  intro hdistance
  have hpointer : alignPointer a.top alignment = a.memory := by
    rw [← add_getPointerDistance (alignPointer a.top alignment) a.memory, hdistance,
      UInt64.add_zero]
  have htop : a.top ≠ a.memory := fun heq => hoffset (UInt64.add_eq_left.mp heq)
  rcases h.aligned halign with h0 | ⟨-, hne, -, hle⟩
  · have hmemory : a.memory = 0 := hpointer.symm.trans h0
    rw [hmemory] at htop
    exact (h htop).1 hmemory
  · rw [hpointer] at hle
    exact htop (UInt64.le_antisymm hle (h hne).2)

/-- **Allocating leaves the open markers.** -/
theorem Framed.moved (h : a.Framed markers) {alignment : UInt64} {n : Nat}
    (halign : alignment.toNat = 2 ^ n) :
    ({ a with memoryOffset := getPointerDistance (alignPointer a.top alignment) a.memory } :
      LinearAllocator).Framed markers := by
  have hsound := h.sound.moved halign
  cases markers with
  | nil => exact hsound
  | cons marker markers =>
    obtain ⟨hbefore, hcurrent, hoffset, hrest⟩ := h
    exact ⟨hsound, hcurrent, fun hne => hbefore.distance_ne (hoffset hne) halign, hrest⟩

/-- What `push_marker` does where it succeeds: nothing at the start of the memory, and elsewhere it
stores a word. -/
theorem pushMarker_cases (h : (a.pushMarker p bytes env).1 = true) :
    (a.memoryOffset = 0 ∧ a.pushMarker p bytes env = (true, a, bytes, env)) ∨
      (a.memoryOffset ≠ 0 ∧ a.pushMarker p bytes env = (true,
        { a with
          memoryOffset := getPointerDistance (alignPointer a.top 8) a.memory
          currentMarker := a.memoryOffset },
        bytes.store64 (alignPointer a.top 8).toNat a.currentMarker, env)) := by
  by_cases hoffset : a.memoryOffset = 0
  · exact .inl ⟨hoffset, if_pos hoffset⟩
  refine .inr ⟨hoffset, ?_⟩
  unfold pushMarker at h ⊢
  rw [if_neg hoffset] at h ⊢
  rcases a.allocate_cases p 8 8 env with ⟨-, heq⟩ | ⟨-, heq⟩
  · simp [heq] at h
  · rw [heq] at h ⊢
    dsimp only at h ⊢
    by_cases hpointer : alignPointer a.top 8 ≠ 0
    · rw [if_pos hpointer]
    · rw [if_neg hpointer] at h
      exact absurd h nofun

/-- **A marker is intact when it is pushed.** -/
theorem markerIntact_pushed (hpush : (a.pushMarker p bytes env).1 = true)
    (ranges : List (UInt64 × UInt64)) :
    MarkerIntact (a.pushMarker p bytes env).2.1 (a.pushMarker p bytes env).2.2.1
      ⟨a.memoryOffset, a.currentMarker, ranges⟩ := by
  unfold MarkerIntact
  rcases pushMarker_cases hpush with ⟨hoffset, heq⟩ | ⟨hoffset, heq⟩
  · rw [heq, if_pos hoffset]
    exact .inl hoffset
  · rw [heq, if_neg hoffset]
    exact Memory.load64_store64 _ _ _

/-- It stays so under a write that is not to its word. -/
theorem markerIntact_write (h : MarkerIntact a bytes marker) {address : Nat} {data : List UInt8}
    (hword : (alignPointer (a.memory + marker.memoryOffset) 8).toNat + 8 ≤ address ∨
      address + data.length ≤ (alignPointer (a.memory + marker.memoryOffset) 8).toNat) :
    MarkerIntact a (bytes.write address data) marker := by
  unfold MarkerIntact at h ⊢
  split_ifs at h ⊢
  · exact h
  · rw [← h]
    exact Memory.load64_congr fun x _ _ => Memory.write_apply_of_outside (by omega)

/-- **A marker that is pushed is open.** -/
theorem Framed.pushed (h : a.Framed markers) (hpush : (a.pushMarker p bytes env).1 = true)
    (ranges : List (UInt64 × UInt64)) :
    (a.pushMarker p bytes env).2.1.Framed
      (⟨a.memoryOffset, a.currentMarker, ranges⟩ :: markers) := by
  rcases pushMarker_cases hpush with ⟨hoffset, heq⟩ | ⟨hoffset, heq⟩
  · rw [heq]
    exact ⟨h.sound, (if_pos hoffset).symm, fun hne => absurd hoffset hne, h⟩
  · rw [heq]
    have halign : (8 : UInt64).toNat = 2 ^ 3 := rfl
    exact ⟨h.sound.moved halign, (if_neg hoffset).symm,
      fun _ => h.sound.distance_ne hoffset halign, h⟩

/-- **Popping restores what it should iff the marker is intact.** -/
theorem Framed.restored_iff (h : a.Framed (marker :: markers)) :
    ((a.popMarker bytes).memoryOffset = marker.memoryOffset ∧
        (a.popMarker bytes).currentMarker = marker.currentMarker) ↔
      MarkerIntact a bytes marker := by
  obtain ⟨-, hcurrent, hoffset, -⟩ := h
  unfold MarkerIntact popMarker
  by_cases hstart : marker.memoryOffset = 0
  · rw [if_pos hstart] at hcurrent ⊢
    by_cases hzero : a.memoryOffset = 0
    · rw [if_neg (not_not.mpr hzero)]
      exact iff_of_true ⟨hzero.trans hstart.symm, hcurrent⟩ (.inl hzero)
    rw [if_pos hzero, ← hcurrent, or_iff_right hzero]
    by_cases hnone : a.currentMarker = 0
    · rw [if_pos hnone]
      exact iff_of_true ⟨hstart.symm, hnone.symm⟩ hnone
    · rw [if_neg hnone]
      exact iff_of_false (fun hrestored => hnone (hrestored.1.trans hstart)) hnone
  · rw [if_neg hstart] at hcurrent ⊢
    have hsome : a.currentMarker ≠ 0 := hcurrent ▸ hstart
    rw [if_pos (hoffset hstart), if_neg hsome, hcurrent]
    exact and_iff_right rfl

/-- **Then the other markers are as they were when it was pushed.** -/
theorem Framed.popped (h : a.Framed (marker :: markers)) (hintact : MarkerIntact a bytes marker) :
    (a.popMarker bytes).Framed markers := by
  obtain ⟨hoffset, hcurrent⟩ := h.restored_iff.mpr hintact
  have heq : a.popMarker bytes = a.restored marker := by
    rw [restored, ← hoffset, ← hcurrent]
    unfold popMarker
    split_ifs <;> rfl
  rw [heq]
  exact h.2.2.2

end LinearAllocator

/-! ## Runs -/

namespace LinearRun

variable {s s' : LinearRun π} {call : LinearCall} {result : LinearResult}

theorem restores_iff_popsIntact (hframed : s.allocator.Framed s.markers) (call : LinearCall) :
    s.Restores call ↔ s.PopsIntact call := by
  cases call with
  | popMarker =>
    unfold Restores PopsIntact
    cases hmarkers : s.markers with
    | nil => exact iff_of_true nofun nofun
    | cons marker markers =>
      rw [hmarkers] at hframed
      simp only [List.head?_cons, Option.mem_some_iff, forall_eq']
      exact hframed.restored_iff
  | allocate size alignment => exact Iff.rfl
  | reset => exact Iff.rfl
  | pushMarker => exact Iff.rfl
  | write address bytes => exact Iff.rfl

/-- **What one call keeps.** -/
theorem framed_step (hframed : s.allocator.Framed s.markers) (hlegal : s.Nested p call)
    (hintact : s.PopsIntact call) (hstep : s.step p call = some (result, s')) :
    s'.allocator.Framed s'.markers := by
  cases call with
  | allocate size alignment =>
    obtain ⟨n, halign⟩ := hlegal
    rcases s.step_allocate p size alignment with heq | heq
    · obtain ⟨-, rfl⟩ := Prod.mk.inj (Option.some.inj (heq.symm.trans hstep))
      exact hframed
    · obtain ⟨-, rfl⟩ := Prod.mk.inj (Option.some.inj (heq.symm.trans hstep))
      exact hframed.moved halign
  | reset => exact hlegal.elim
  | pushMarker =>
    have hpushed := hframed.pushed hlegal s.ranges
    have hsuccess : (s.allocator.pushMarker p s.bytes s.env).1 = true := hlegal
    unfold step at hstep
    dsimp only at hstep
    rw [if_pos hsuccess] at hstep
    obtain ⟨-, rfl⟩ := Prod.mk.inj (Option.some.inj hstep)
    exact hpushed
  | popMarker =>
    obtain ⟨-, rfl⟩ := Prod.mk.inj (Option.some.inj hstep)
    obtain ⟨marker, markers, hmarkers⟩ := List.exists_cons_of_ne_nil hlegal
    rw [hmarkers] at hframed
    have hmarker := hintact marker (by rw [hmarkers]; rfl)
    dsimp only
    rw [hmarkers]
    exact hframed.popped hmarker
  | write address bytes =>
    obtain ⟨-, rfl⟩ := Prod.mk.inj (Option.some.inj hstep)
    exact hframed

/-- A fresh allocator has no markers. -/
theorem Fresh.framed (h : s.Fresh p) : s.allocator.Framed s.markers := by
  rw [h.markers]
  rcases h.allocator with ⟨size, marker, env, heq⟩ | ⟨a, heq⟩
  · rw [heq]
    exact LinearAllocator.sound_create p size marker env
  · rw [heq]
    exact a.sound_reset

/-- **In every well-nested run each `pop_marker` restores what its `push_marker` found iff each
marker is intact when it is popped.** -/
theorem restores_iff (hfresh : s.Fresh p) (calls : List LinearCall)
    (hlegal : Along (step p) (Nested p) s calls) :
    Along (step p) Restores s calls ↔ Along (step p) PopsIntact s calls :=
  along_congr (fun s => s.allocator.Framed s.markers)
    (fun _ call hframed _ => restores_iff_popsIntact hframed call)
    (fun _ _ _ _ hframed hlegal hintact hstep => framed_step hframed hlegal hintact hstep)
    hfresh.framed hlegal

/-- A marker between two ranges, the second on a larger boundary. -/
theorem restores_iff_between : Along (step Platform.granting) Restores
    (start Platform.granting 0x80000 0 (fun _ => 0) ())
    [.allocate 16 0x20000, .pushMarker, .allocate 16 0x40000, .write 0x40000 [1],
      .popMarker] := by
  refine (restores_iff ⟨.inl ⟨0x80000, 0, (), rfl⟩, rfl, rfl⟩ _ ?_).mpr (by decide)
  refine (along_cons rfl).mpr ⟨⟨17, rfl⟩, ?_⟩
  refine (along_cons rfl).mpr ⟨rfl, ?_⟩
  refine (along_cons rfl).mpr ⟨⟨18, rfl⟩, ?_⟩
  refine (along_cons rfl).mpr ⟨⟨(0x40000, 16), List.mem_cons_self, by decide, by decide⟩, ?_⟩
  exact (along_cons rfl).mpr ⟨List.cons_ne_nil _ _, trivial⟩

/-- **Two markers at one place**: the second is stored over the first. -/
theorem not_restores : ¬ ∀ (p : Platform Unit) (s : LinearRun Unit) (calls : List LinearCall),
    s.Fresh p → Along (step p) (Nested p) s calls → Along (step p) Restores s calls := by
  intro hall
  have hfresh : (start Platform.granting 0x40000 0 (fun _ => 0) ()).Fresh Platform.granting :=
    ⟨.inl ⟨0x40000, 0, (), rfl⟩, rfl, rfl⟩
  have h := hall Platform.granting _
    [.allocate 16 0x20000, .pushMarker, .pushMarker, .popMarker, .popMarker] hfresh ?_
  · have hlast := ((((h.2 _ _ rfl).2 _ _ rfl).2 _ _ rfl).2 _ _ rfl).1 _ rfl
    exact absurd hlast.2 (by decide)
  · refine (along_cons rfl).mpr ⟨⟨17, rfl⟩, ?_⟩
    refine (along_cons rfl).mpr ⟨rfl, ?_⟩
    refine (along_cons rfl).mpr ⟨rfl, ?_⟩
    refine (along_cons rfl).mpr ⟨List.cons_ne_nil _ _, ?_⟩
    exact (along_cons rfl).mpr ⟨List.cons_ne_nil _ _, trivial⟩

end LinearRun

end Hologine.Memory
