import Hologine.Io.MemoryStream

/-!
# Where a seek ends

The four modes of `seek` (`core/io/memory_stream.cpp`) in integer arithmetic, each clamped to the
block, against what the `switch` computes on 64 bits. The value `new_position` has uninitialised is
arbitrary.

* The sum of `forward_relative` wraps before it is clamped.
* `end` assigns the position it computes to `offset`, so `new_position` keeps what it held, unless
  the offset reaches past the start.

Results:
* `seeksTo_forwardRelative_iff`, `seeksTo_end_iff`: when the two modes are right; the other two
  always are.
* `seekArithmetic_iff`: a seek does what its mode says iff the sum fits and, from the end, the
  offset is past the start or the block is empty.
-/

namespace Hologine.Io

namespace MemoryStream

/-- Where a mode moves a stream of `length` bytes at `position`: nowhere for an unknown flag. -/
def seekTarget (length position offset flags : Int) : Option Int :=
  if flags = SeekFlags.absolute then some (min offset length)
  else if flags = SeekFlags.forwardRelative then some (min (position + offset) length)
  else if flags = SeekFlags.backwardRelative then some (max (position - offset) 0)
  else if flags = SeekFlags.«end» then some (max (length - offset) 0)
  else none

/-- What a seek returned and left is what its mode says: true and the stream at the target, or
false and the stream unchanged. -/
def SeeksTo (s : MemoryStream) (offset : UInt64) (flags : Int) (result : Bool × MemoryStream) :
    Prop :=
  match seekTarget s.streamLength.toNat s.currentPosition.toNat offset.toNat flags with
  | none => result = (false, s)
  | some target => ∃ position : UInt64,
      result = (true, { s with currentPosition := position }) ∧ (position.toNat : Int) = target

/-- The sum of a relative seek forward fits, and a seek from the end has `new_position` assigned or
nothing to choose. -/
def SeekDefined (s : MemoryStream) (offset : UInt64) (flags : Int) : Prop :=
  (flags = SeekFlags.forwardRelative → s.currentPosition.toNat + offset.toNat < 2 ^ 64) ∧
    (flags = SeekFlags.«end» → s.streamLength < offset ∨ s.streamLength = 0)

variable {s : MemoryStream} {offset : UInt64} {flags : Int} {uninitialised : UInt64}

/-- The clamp of `seek`. -/
def clamp (s : MemoryStream) (position : UInt64) : UInt64 :=
  if position ≥ s.streamLength then s.streamLength else position

theorem toNat_clamp (s : MemoryStream) (position : UInt64) :
    (s.clamp position).toNat = min position.toNat s.streamLength.toNat := by
  simp only [clamp, ge_iff_le, UInt64.le_iff_toNat_le]
  split_ifs <;> omega

theorem seek_of_newPosition {position : UInt64}
    (h : s.newPosition offset flags uninitialised = some position) :
    s.seek offset flags uninitialised =
      (true, { s with currentPosition := s.clamp position }) := by
  rw [seek, h]
  rfl

/-- A seek whose flag is known does what its mode says iff the clamped position is the target. -/
theorem seeksTo_seek_iff {position : UInt64} {target : Int}
    (hnew : s.newPosition offset flags uninitialised = some position)
    (htarget : seekTarget s.streamLength.toNat s.currentPosition.toNat offset.toNat flags =
      some target) :
    s.SeeksTo offset flags (s.seek offset flags uninitialised) ↔
      (min position.toNat s.streamLength.toNat : Int) = target := by
  rw [SeeksTo, htarget, seek_of_newPosition hnew]
  have hclamp := s.toNat_clamp position
  constructor
  · rintro ⟨position', heq, hto⟩
    have hpos : s.clamp position = position' := congrArg (·.2.currentPosition) heq
    rw [← hpos, hclamp] at hto
    omega
  · intro hto
    exact ⟨_, rfl, by rw [hclamp]; omega⟩

/-! ## The four modes -/

theorem seeksTo_absolute (s : MemoryStream) (offset uninitialised : UInt64) :
    s.SeeksTo offset SeekFlags.absolute (s.seek offset SeekFlags.absolute uninitialised) := by
  have hnew : s.newPosition offset SeekFlags.absolute uninitialised = some offset := rfl
  rw [seeksTo_seek_iff hnew rfl]

/-- **A relative seek forward is right iff the sum fits**: past 2^64 it ends before the position it
started from. -/
theorem seeksTo_forwardRelative_iff (hp : s.currentPosition ≤ s.streamLength) :
    s.SeeksTo offset SeekFlags.forwardRelative
        (s.seek offset SeekFlags.forwardRelative uninitialised) ↔
      s.currentPosition.toNat + offset.toNat < 2 ^ 64 := by
  have hnew : s.newPosition offset SeekFlags.forwardRelative uninitialised =
      some (s.currentPosition + offset) := rfl
  rw [seeksTo_seek_iff hnew rfl, UInt64.toNat_add]
  have hle := UInt64.le_iff_toNat_le.mp hp
  have hL := s.streamLength.toNat_lt
  have hd := offset.toNat_lt
  by_cases hfits : s.currentPosition.toNat + offset.toNat < 2 ^ 64
  · rw [Nat.mod_eq_of_lt hfits]
    exact iff_of_true (by omega) hfits
  · have hwrap : (s.currentPosition.toNat + offset.toNat) % 2 ^ 64 =
        s.currentPosition.toNat + offset.toNat - 2 ^ 64 := by omega
    rw [hwrap]
    omega

theorem seeksTo_backwardRelative (hp : s.currentPosition ≤ s.streamLength)
    (offset uninitialised : UInt64) :
    s.SeeksTo offset SeekFlags.backwardRelative
      (s.seek offset SeekFlags.backwardRelative uninitialised) := by
  have hle := UInt64.le_iff_toNat_le.mp hp
  by_cases hpast : offset > s.currentPosition
  · have hlt := UInt64.lt_iff_toNat_lt.mp hpast
    have hnew : s.newPosition offset SeekFlags.backwardRelative uninitialised = some 0 :=
      if_pos hpast
    rw [seeksTo_seek_iff hnew rfl, UInt64.toNat_zero]
    omega
  · have hnew : s.newPosition offset SeekFlags.backwardRelative uninitialised =
      some (s.currentPosition - offset) := if_neg hpast
    have hge := UInt64.not_lt.mp hpast
    rw [seeksTo_seek_iff hnew rfl, UInt64.toNat_sub_of_le _ _ hge]
    rw [UInt64.le_iff_toNat_le] at hge
    omega

/-- **A seek from the end is right, whatever `new_position` holds, iff the offset is past the start
or every position is the end.** -/
theorem seeksTo_end_iff :
    (∀ uninitialised, s.SeeksTo offset SeekFlags.«end»
        (s.seek offset SeekFlags.«end» uninitialised)) ↔
      s.streamLength < offset ∨ s.streamLength = 0 := by
  by_cases hpast : offset > s.streamLength
  · have hlt := UInt64.lt_iff_toNat_lt.mp hpast
    have hnew : ∀ u, s.newPosition offset SeekFlags.«end» u = some 0 := fun _ => if_pos hpast
    refine iff_of_true (fun u => ?_) (.inl hpast)
    rw [seeksTo_seek_iff (hnew u) rfl, UInt64.toNat_zero]
    omega
  · have hnew : ∀ u, s.newPosition offset SeekFlags.«end» u = some u := fun _ => if_neg hpast
    have hzero : s.streamLength = 0 ↔ s.streamLength.toNat = 0 := UInt64.toNat_inj.symm
    have hge := UInt64.le_iff_toNat_le.mp (UInt64.not_lt.mp hpast)
    rw [or_iff_right hpast, hzero]
    simp only [seeksTo_seek_iff (hnew _) rfl]
    constructor
    · intro h
      -- the start and the end are both possible
      have hstart := h 0
      have hend := h s.streamLength
      rw [UInt64.toNat_zero] at hstart
      omega
    · intro h u
      omega

/-- **A seek ends where its mode says**, whatever `new_position` holds before it is assigned, iff
the sum of a relative seek forward fits and a seek from the end has nothing to choose. -/
theorem seekArithmetic_iff (hp : s.currentPosition ≤ s.streamLength) :
    (∀ uninitialised, s.SeeksTo offset flags (s.seek offset flags uninitialised)) ↔
      s.SeekDefined offset flags := by
  unfold SeekDefined
  by_cases habs : flags = SeekFlags.absolute
  · subst habs
    exact iff_of_true (seeksTo_absolute s offset)
      ⟨fun h => absurd h (by decide), fun h => absurd h (by decide)⟩
  by_cases hfwd : flags = SeekFlags.forwardRelative
  · subst hfwd
    rw [forall_congr' fun _ => seeksTo_forwardRelative_iff hp, forall_const]
    exact ⟨fun h => ⟨fun _ => h, fun h => absurd h (by decide)⟩, fun h => h.1 rfl⟩
  by_cases hback : flags = SeekFlags.backwardRelative
  · subst hback
    exact iff_of_true (seeksTo_backwardRelative hp offset)
      ⟨fun h => absurd h (by decide), fun h => absurd h (by decide)⟩
  by_cases hend : flags = SeekFlags.«end»
  · subst hend
    rw [seeksTo_end_iff]
    exact ⟨fun h => ⟨fun h => absurd h (by decide), fun _ => h⟩, fun h => h.2 rfl⟩
  · have hnew : ∀ u, s.newPosition offset flags u = none := fun u => by
      rw [newPosition, if_neg habs, if_neg hfwd, if_neg hback, if_neg hend]
    have htarget : seekTarget s.streamLength.toNat s.currentPosition.toNat offset.toNat flags =
        none := by
      rw [seekTarget, if_neg habs, if_neg hfwd, if_neg hback, if_neg hend]
    refine iff_of_true (fun u => ?_) ⟨fun h => absurd h hfwd, fun h => absurd h hend⟩
    rw [SeeksTo, htarget, seek, hnew]

/-- From the second byte of four, two forward. -/
theorem seekArithmetic_forward :
    SeeksTo ⟨true, true, 1, 4, [0, 0, 0, 0]⟩ 2 SeekFlags.forwardRelative
      (seek ⟨true, true, 1, 4, [0, 0, 0, 0]⟩ 2 SeekFlags.forwardRelative 7) :=
  (seekArithmetic_iff (by decide)).mpr ⟨fun _ => by decide, fun h => absurd h (by decide)⟩ 7

/-- A relative seek forward by 2^64 - 1, from the second byte of four, moves to the first. -/
theorem not_seekArithmetic : ¬ ∀ (s : MemoryStream) (offset : UInt64) (flags : Int)
    (uninitialised : UInt64), s.currentPosition ≤ s.streamLength →
      s.SeeksTo offset flags (s.seek offset flags uninitialised) := by
  intro h
  have hfwd := h ⟨true, true, 1, 4, [0, 0, 0, 0]⟩ 0xffffffffffffffff SeekFlags.forwardRelative 0
    (by decide)
  rw [seeksTo_forwardRelative_iff (by decide)] at hfwd
  exact absurd hfwd (by decide)

end MemoryStream

end Hologine.Io
