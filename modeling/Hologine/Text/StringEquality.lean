import Hologine.Text.StringWindow

/-!
# Comparing strings

Model of `operator ==` and `operator !=` on `holo::string` (`core/text/string.cpp:210-254`). Beside
its answer a comparison is modelled with the number of bytes it reads of each string's data, which
are the first ones: `std::memcmp` gets the data pointers as they are.

The slip of the source is in what is compared: `length - offset` bytes from the start of the data,
where a string is `length` bytes from `offset` on. A length less than the offset wraps.

Results:
* `equal_eq`: the comparison in one formula.
* `equalityCorrect_iff`: it is content equality **iff** neither string has an offset, or they are
  one window, or the slip happens to leave the answer right without a byte read.
* `run_equalityCorrect_iff`: so it is for all strings of every run.
-/

namespace Hologine.Text

open Hologine.Library Hologine.Library.Run

/-- `std::memcmp`, as whether the bytes are equal. It reads `count` bytes of both. -/
def memcmpEqual (left right : List UInt8) (count : Nat) : Option Bool :=
  if count ≤ left.length ∧ count ≤ right.length then some (left.take count == right.take count)
  else none

namespace BufferHeap

variable (chars : UInt64 → List UInt8)

/-- `operator ==`: the answer, and how many bytes are read of each string's data. -/
def equal (h : BufferHeap) (left right : StringObject) : Option (Bool × Nat) := do
  let leftLength := left.length - left.offset
  let rightLength := right.length - right.offset
  if leftLength ≠ rightLength then some (false, 0)
  else
    let leftData ← h.dataPointer left
    let rightData ← h.dataPointer right
    if leftLength = 0 ∨ leftData = rightData then some (true, 0)
    else
      let leftBytes ← h.charactersAt chars leftData
      let rightBytes ← h.charactersAt chars rightData
      let answer ← memcmpEqual leftBytes rightBytes leftLength.toNat
      some (answer, leftLength.toNat)

/-- `operator !=`. -/
def notEqual (h : BufferHeap) (left right : StringObject) : Option Bool := do
  let (answer, _) ← h.equal chars left right
  some !answer

end BufferHeap

/-- The byte at an index of the data is one of those the string denotes. -/
def StringObject.Covers (s : StringObject) (i : Nat) : Prop :=
  s.offset.toNat ≤ i ∧ i < s.offset.toNat + s.length.toNat

namespace BufferHeap

/-- **Equality is content equality**: strings compare equal iff they denote the same bytes, only
those bytes are read, and `!=` is the negation. -/
def EqualityCorrect (chars : UInt64 → List UInt8) (h : BufferHeap) (left right : StringObject) :
    Prop :=
  ∃ answer count leftBytes rightBytes,
    h.equal chars left right = some (answer, count) ∧
      h.notEqual chars left right = some (!answer) ∧
      h.window chars left = some leftBytes ∧ h.window chars right = some rightBytes ∧
      (answer = true ↔ leftBytes = rightBytes) ∧
      ∀ i < count, left.Covers i ∧ right.Covers i

/-- When equality is content equality: neither string has an offset; or they are one window of one
data; or their lengths less their offsets differ, and so do the bytes; or both lengths are the
offsets, and the bytes are the same. -/
def EqualityExact (chars : UInt64 → List UInt8) (h : BufferHeap) (left right : StringObject) :
    Prop :=
  (left.offset = 0 ∧ right.offset = 0) ∨
  (h.dataPointer left = h.dataPointer right ∧ left.offset = right.offset ∧
    left.length = right.length) ∨
  (left.length - left.offset ≠ right.length - right.offset ∧
    h.window chars left ≠ h.window chars right) ∨
  (left.length = left.offset ∧ right.length = right.offset ∧
    h.window chars left = h.window chars right)

/-! ## One comparison -/

variable {chars : UInt64 → List UInt8} {h : BufferHeap} {left right : StringObject}
  {leftData rightData : DataPointer} {leftBytes rightBytes : List UInt8}

/-- The comparison, of strings whose data is there. -/
theorem equal_eq (hl : h.Denotes chars left leftData leftBytes)
    (hr : h.Denotes chars right rightData rightBytes) :
    h.equal chars left right =
      if left.length - left.offset ≠ right.length - right.offset then some (false, 0)
      else if left.length - left.offset = 0 ∨ leftData = rightData then some (true, 0)
      else (memcmpEqual leftBytes rightBytes (left.length - left.offset).toNat).map
        fun answer => (answer, (left.length - left.offset).toNat) := by
  unfold equal
  simp only [hl.points, hl.data, hr.points, hr.data, Option.bind_eq_bind, Option.bind_some]
  rw [Option.map_eq_bind]
  rfl

/-- A comparison that answers without a read. -/
theorem equalityCorrect_of_answer (hl : h.Denotes chars left leftData leftBytes)
    (hr : h.Denotes chars right rightData rightBytes) {answer : Bool}
    (hrun : h.equal chars left right = some (answer, 0)) :
    h.EqualityCorrect chars left right ↔
      (answer = true ↔ h.window chars left = h.window chars right) := by
  have hnot : h.notEqual chars left right = some (!answer) := by
    rw [notEqual, hrun, Option.bind_eq_bind, Option.bind_some]
  constructor
  · rintro ⟨answer', count, lw, rw', hrun', -, hlw, hrw, hiff, -⟩
    obtain ⟨rfl, -⟩ := Prod.mk.inj (Option.some.inj (hrun.symm.trans hrun'))
    rw [hiff, hlw, hrw, Option.some.injEq]
  · intro hiff
    refine ⟨answer, 0, _, _, hrun, hnot, hl.window, hr.window, ?_, fun i hi => by omega⟩
    rw [hiff, hl.window, hr.window, Option.some.injEq]

/-- A comparison that reads is right if neither string has an offset, and reads what it should not
otherwise. -/
theorem equalityCorrect_of_read (hl : h.Denotes chars left leftData leftBytes)
    (hr : h.Denotes chars right rightData rightBytes)
    (hlength : left.length - left.offset = right.length - right.offset)
    (hne : left.length - left.offset ≠ 0) (hdata : leftData ≠ rightData) :
    h.EqualityCorrect chars left right ↔ left.offset = 0 ∧ right.offset = 0 := by
  have hrun := equal_eq hl hr
  rw [if_neg (not_not_intro hlength), if_neg (not_or.mpr ⟨hne, hdata⟩)] at hrun
  constructor
  · rintro ⟨answer, count, lw, rw', hrun', -, -, -, -, hcovers⟩
    obtain ⟨_, -, heq⟩ := Option.map_eq_some_iff.mp (hrun.symm.trans hrun')
    obtain ⟨-, rfl⟩ := Prod.mk.inj heq
    have hpos := Bits.toNat_pos hne
    obtain ⟨⟨hlo, -⟩, hro, -⟩ := hcovers 0 hpos
    exact ⟨UInt64.toNat_inj.mp (Nat.le_zero.mp hlo), UInt64.toNat_inj.mp (Nat.le_zero.mp hro)⟩
  · rintro ⟨hlo, hro⟩
    rw [hlo, hro, UInt64.sub_zero, UInt64.sub_zero] at hlength
    have hlw := hl.window
    have hrw := hr.window
    have hlfits := hl.fits
    have hrfits := hr.fits
    rw [hlo, UInt64.toNat_zero] at hlw hlfits
    rw [hro, UInt64.toNat_zero, ← hlength] at hrw hrfits
    rw [List.drop_zero] at hlw hrw
    rw [Nat.zero_add] at hlfits hrfits
    rw [hlo, UInt64.sub_zero, memcmpEqual, if_pos ⟨hlfits, hrfits⟩, Option.map_some] at hrun
    refine ⟨_, _, _, _, hrun, ?_, hlw, hrw, beq_iff_eq, fun i hi => ?_⟩
    · rw [notEqual, hrun, Option.bind_eq_bind, Option.bind_some]
    · unfold StringObject.Covers
      rw [hlo, hro, ← hlength, UInt64.toNat_zero]
      omega

/-! ## When the slip does not matter, by what the comparison does -/

/-- Strings that denote the same bytes are of one length. -/
theorem length_eq_of_window (hl : h.Denotes chars left leftData leftBytes)
    (hr : h.Denotes chars right rightData rightBytes)
    (heq : h.window chars left = h.window chars right) : left.length = right.length := by
  rw [hl.window, hr.window, Option.some.injEq] at heq
  have hlen := congrArg List.length heq
  rw [hl.length_window, hr.length_window] at hlen
  exact UInt64.toNat_inj.mp hlen

/-- One window of one data. -/
theorem window_congr (hdata : h.dataPointer left = h.dataPointer right)
    (hoffset : left.offset = right.offset) (hlength : left.length = right.length) :
    h.window chars left = h.window chars right := by
  rw [window, window, characters, characters, hdata, hoffset, hlength]

/-- A string of as many bytes as its offset, if that is zero, is empty. -/
theorem window_of_offset_zero (hs : h.Denotes chars left leftData leftBytes)
    (hoffset : left.offset = 0) (hlength : left.length = left.offset) :
    h.window chars left = some [] := by
  rw [hs.window, hlength, hoffset]
  rfl

/-- The lengths less the offsets differ. -/
theorem equalityExact_of_ne (hl : h.Denotes chars left leftData leftBytes)
    (hr : h.Denotes chars right rightData rightBytes)
    (hne : left.length - left.offset ≠ right.length - right.offset) :
    h.EqualityExact chars left right ↔ h.window chars left ≠ h.window chars right := by
  constructor
  · rintro (⟨hlo, hro⟩ | ⟨-, hoffset, hlength⟩ | ⟨-, hwindow⟩ | ⟨hll, hrl, -⟩)
    · intro heq
      rw [hlo, hro, UInt64.sub_zero, UInt64.sub_zero] at hne
      exact hne (length_eq_of_window hl hr heq)
    · rw [hoffset, hlength] at hne
      exact absurd rfl hne
    · exact hwindow
    · rw [hll, hrl, UInt64.sub_self, UInt64.sub_self] at hne
      exact absurd rfl hne
  · exact fun hwindow => .inr (.inr (.inl ⟨hne, hwindow⟩))

/-- Both lengths are the offsets. -/
theorem equalityExact_of_zero (hl : h.Denotes chars left leftData leftBytes)
    (hr : h.Denotes chars right rightData rightBytes) (hll : left.length = left.offset)
    (hrl : right.length = right.offset) :
    h.EqualityExact chars left right ↔ h.window chars left = h.window chars right := by
  constructor
  · rintro (⟨hlo, hro⟩ | ⟨hdata, hoffset, hlength⟩ | ⟨hne, -⟩ | ⟨-, -, hwindow⟩)
    · rw [window_of_offset_zero hl hlo hll, window_of_offset_zero hr hro hrl]
    · exact window_congr hdata hoffset hlength
    · rw [hll, hrl, UInt64.sub_self, UInt64.sub_self] at hne
      exact absurd rfl hne
    · exact hwindow
  · exact fun hwindow => .inr (.inr (.inr ⟨hll, hrl, hwindow⟩))

/-- The lengths less the offsets agree, and are not zero, in one data. -/
theorem equalityExact_of_shared (hl : h.Denotes chars left leftData leftBytes)
    (hr : h.Denotes chars right leftData rightBytes)
    (hagree : left.length - left.offset = right.length - right.offset)
    (hne : left.length ≠ left.offset) :
    h.EqualityExact chars left right ↔ h.window chars left = h.window chars right := by
  have hdata := hl.points.trans hr.points.symm
  constructor
  · rintro (⟨hlo, hro⟩ | ⟨-, hoffset, hlength⟩ | ⟨hne', -⟩ | ⟨hll, -, -⟩)
    · rw [hlo, hro, UInt64.sub_zero, UInt64.sub_zero] at hagree
      exact window_congr hdata (hlo.trans hro.symm) hagree
    · exact window_congr hdata hoffset hlength
    · exact absurd hagree hne'
    · exact absurd hll hne
  · intro hwindow
    have hlength := length_eq_of_window hl hr hwindow
    rw [hlength] at hagree
    exact .inr (.inl ⟨hdata, (UInt64.sub_right_inj _).mp hagree, hlength⟩)

/-- The lengths less the offsets agree, and are not zero, in different data. -/
theorem equalityExact_of_apart (hl : h.Denotes chars left leftData leftBytes)
    (hr : h.Denotes chars right rightData rightBytes)
    (hagree : left.length - left.offset = right.length - right.offset)
    (hne : left.length ≠ left.offset) (hdata : leftData ≠ rightData) :
    h.EqualityExact chars left right ↔ left.offset = 0 ∧ right.offset = 0 := by
  constructor
  · rintro (hoffsets | ⟨hsame, -, -⟩ | ⟨hne', -⟩ | ⟨hll, -, -⟩)
    · exact hoffsets
    · rw [hl.points, hr.points] at hsame
      exact absurd (Option.some.inj hsame) hdata
    · exact absurd hagree hne'
    · exact absurd hll hne
  · exact .inl

theorem sub_eq_zero_iff {a b : UInt64} : a - b = 0 ↔ a = b := by
  rw [UInt64.sub_eq_iff_eq_add, UInt64.zero_add]

/-- **Equality is content equality iff the slip does not matter.** -/
theorem equalityCorrect_iff (hl : h.Denotes chars left leftData leftBytes)
    (hr : h.Denotes chars right rightData rightBytes) :
    h.EqualityCorrect chars left right ↔ h.EqualityExact chars left right := by
  have hrun := equal_eq hl hr
  by_cases hagree : left.length - left.offset = right.length - right.offset
  · rw [if_neg (not_not_intro hagree)] at hrun
    by_cases hzero : left.length - left.offset = 0
    · rw [if_pos (.inl hzero)] at hrun
      rw [equalityCorrect_of_answer hl hr hrun, equalityExact_of_zero hl hr
        (sub_eq_zero_iff.mp hzero) (sub_eq_zero_iff.mp (hagree ▸ hzero))]
      exact ⟨fun hiff => hiff.mp rfl, fun heq => ⟨fun _ => heq, fun _ => rfl⟩⟩
    · have hne : left.length ≠ left.offset := fun heq => hzero (sub_eq_zero_iff.mpr heq)
      by_cases hdata : leftData = rightData
      · rw [if_pos (.inr hdata)] at hrun
        subst hdata
        rw [equalityCorrect_of_answer hl hr hrun, equalityExact_of_shared hl hr hagree hne]
        exact ⟨fun hiff => hiff.mp rfl, fun heq => ⟨fun _ => heq, fun _ => rfl⟩⟩
      · rw [equalityCorrect_of_read hl hr hagree hzero hdata,
          equalityExact_of_apart hl hr hagree hne hdata]
  · rw [if_pos hagree] at hrun
    rw [equalityCorrect_of_answer hl hr hrun, equalityExact_of_ne hl hr hagree]
    exact ⟨fun hiff heq => Bool.false_ne_true (hiff.mpr heq),
      fun hne => ⟨fun hfalse => absurd hfalse Bool.false_ne_true, fun heq => absurd heq hne⟩⟩

end BufferHeap

/-! ## The strings of a run -/

namespace Strings

variable {chars : UInt64 → List UInt8} {s : Strings}

/-- **Which strings of a run compare by content**: those the slip does not matter for. -/
theorem run_equalityCorrect_iff {calls : List StringCall} {os : List Unit}
    (hlegal : Along (step chars) WindowLegal start calls)
    (hrun : exec (step chars) start calls = some (os, s)) {left right : UInt64}
    (hleft : left ∈ s.live) (hright : right ∈ s.live) :
    s.heap.EqualityCorrect chars (s.string left) (s.string right) ↔
      s.heap.EqualityExact chars (s.string left) (s.string right) := by
  obtain ⟨hinv, hwin⟩ := run_windowed hlegal hrun
  obtain ⟨_, _, hl⟩ := hwin.denotes hinv hleft
  obtain ⟨_, _, hr⟩ := hwin.denotes hinv hright
  exact BufferHeap.equalityCorrect_iff hl hr

/-- The C strings `"barfoo"` at `0x10` and `"foo"` elsewhere. -/
def sampleChars (a : UInt64) : List UInt8 :=
  if a = 0x10 then [0x62, 0x61, 0x72, 0x66, 0x6f, 0x6f] else [0x66, 0x6f, 0x6f]

/-- `"barfoo"`, its last three characters as a substring, and `"foo"`. -/
def sampleCalls : List StringCall :=
  [.wrap 1 0x10, .substring 2 none 1 ⟨1, 3⟩ ⟨1, 6⟩, .wrap 3 0x20]

theorem run_equalityCorrect_iff_sample : ∃ os s,
    exec (step sampleChars) start sampleCalls = some (os, s) ∧
      (s.heap.EqualityCorrect sampleChars (s.string 1) (s.string 3) ↔
        s.heap.EqualityExact sampleChars (s.string 1) (s.string 3)) := by
  have hlegal : Along (step sampleChars) WindowLegal start sampleCalls := by decide
  exact ⟨_, _, rfl, run_equalityCorrect_iff hlegal rfl (by decide) (by decide)⟩

/-- **The substring `"foo"` of `"barfoo"` does not compare equal to `"foo"`.** -/
theorem not_run_equalityCorrect : ¬ ∀ (chars : UInt64 → List UInt8) (calls : List StringCall)
    (os : List Unit) (s : Strings), Along (step chars) WindowLegal start calls →
      exec (step chars) start calls = some (os, s) → ∀ left ∈ s.live, ∀ right ∈ s.live,
        s.heap.EqualityCorrect chars (s.string left) (s.string right) := by
  intro h
  obtain ⟨answer, count, lw, rw', hrun, -, hlw, hrw, hiff, -⟩ :=
    h sampleChars sampleCalls _ _ (by decide) rfl 2 (by decide) 3 (by decide)
  obtain ⟨rfl, -⟩ := Prod.mk.inj (Option.some.inj hrun)
  obtain rfl := Option.some.inj hlw
  obtain rfl := Option.some.inj hrw
  exact absurd (hiff.mpr (by decide)) (by decide)

end Strings

end Hologine.Text
