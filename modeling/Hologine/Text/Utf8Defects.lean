import Hologine.Text.Utf8Decrement

/-!
# Malformed UTF-8

How `utf8_increment` and `utf8_decrement` (`core/text/utf8.cpp:78-242`) end where no character can
be decoded: whether they stay within the bytes, and which exception `utf8_increment` gives.

Two slips of the source matter here. `utf8_increment` reads the lead byte before it compares the
offset with the length; and all its exceptions have one code, since `exception_code_generator` draws
one for every name but the first.

Results:
* `inBounds_iff`: a call reads bytes of the string only **iff** it is not `utf8_increment` at the
  end of it.
* `never_namesDefect`: the exception of a sequence that is rejected tells its defect from no other.
-/

namespace Hologine.Text

open Hologine.Library

variable {string : List UInt8} {length offset : UInt64}

/-! ## Reading within the string -/

/-- The two functions. -/
inductive DecoderCall
  | increment
  | decrement
  deriving Repr, DecidableEq

/-- A call on a buffer of exactly the bytes of the string reads no byte behind them. -/
def InBounds (string : List UInt8) (offset : UInt64) (value : UInt32) : DecoderCall → Prop
  | .increment => (utf8Increment string (.ofNat string.length) offset value).isSome
  | .decrement => (utf8Decrement string offset value).isSome

/-- Before the end `utf8_increment` reads no further than the length. -/
theorem isSome_utf8Increment (value : UInt32) (hlength : length.toNat ≤ string.length)
    (hoffset : offset < length) : (utf8Increment string length offset value).isSome := by
  rcases utf8Increment_standsAt value hlength hoffset with
    ⟨q, -, hrun⟩ | ⟨-, hrun⟩ | ⟨-, -, exception, newValue, -, hrun⟩ <;>
      rw [hrun, Option.isSome_some]

/-- `utf8_decrement` reads no further than the offset. -/
theorem isSome_utf8Decrement (value : UInt32) (hoffset : offset.toNat ≤ string.length) :
    (utf8Decrement string offset value).isSome := by
  by_cases hne : offset = 0
  · rw [utf8Decrement, if_pos hne, Option.isSome_some]
  obtain ⟨m, hlt, hscan, -⟩ := exists_scanBack hne hoffset
  obtain ⟨⟨exception, newOffset, v⟩, hrun⟩ := Option.isSome_iff_exists.mp
    (isSome_utf8Increment value hoffset hlt)
  rw [utf8Decrement_eq hne hscan hrun, Option.isSome_some]

/-- **A call stays within the string iff it is not `utf8_increment` at its end.** -/
theorem inBounds_iff (hlength : string.length < 2 ^ 64) (hoffset : offset.toNat ≤ string.length)
    (value : UInt32) (call : DecoderCall) :
    InBounds string offset value call ↔ (call = .increment → offset.toNat ≠ string.length) := by
  have hofNat : (UInt64.ofNat string.length).toNat = string.length := by
    rw [UInt64.toNat_ofNat', Nat.mod_eq_of_lt hlength]
  cases call with
  | increment =>
    constructor
    · intro hin _ hend
      have hnone : string[offset.toNat]? = none := List.getElem?_eq_none (Nat.le_of_eq hend.symm)
      rw [InBounds, utf8Increment, hnone] at hin
      exact absurd hin (by simp)
    · intro hne
      have hlt : offset.toNat < string.length := Nat.lt_of_le_of_ne hoffset (hne rfl)
      refine isSome_utf8Increment value (Nat.le_of_eq hofNat) (UInt64.lt_iff_toNat_lt.mpr ?_)
      rw [hofNat]
      exact hlt
  | decrement =>
    exact ⟨fun _ h => absurd h (by decide), fun _ => isSome_utf8Decrement value hoffset⟩

theorem inBounds_iff_sample : InBounds [0x61] 0 0 .increment ↔
    (DecoderCall.increment = .increment → (0 : UInt64).toNat ≠ [(0x61 : UInt8)].length) :=
  inBounds_iff (by decide) (by decide) 0 .increment

/-- **At the end of `"a"` the byte after it is read.** -/
theorem not_inBounds : ¬ ∀ (string : List UInt8) (offset : UInt64) (value : UInt32)
    (call : DecoderCall), string.length < 2 ^ 64 → offset.toNat ≤ string.length →
      InBounds string offset value call := by
  intro h
  have hread : (utf8Increment [0x61] (.ofNat 1) 1 0).isSome :=
    h [0x61] 1 0 .increment (by decide) (by decide)
  exact absurd hread (by decide)

/-! ## The exception of a rejected sequence -/

/-- What can be wrong with a sequence. -/
inductive Defect
  | invalidLead
  | outOfRange
  | incomplete
  | overlong
  | invalidCodePoint
  deriving Repr, DecidableEq

/-- The exception that there is for a defect. -/
def Defect.exception : Defect → ExceptionCode
  | .invalidLead => .invalidUnicodeLead
  | .outOfRange => .indexOutOfRange
  | .incomplete => .incompleteUnicodeSequence
  | .overlong => .overlongUnicodeSequence
  | .invalidCodePoint => .invalidUnicodeCodePoint

/-- The first defect of what stands at `offset`: the lead byte, the length, the trail bytes, the
size of the value and the value itself, in this order. Well-formed UTF-8 has none. -/
def firstDefect (string : List UInt8) (length offset : UInt64) : Option Defect := do
  let lead ← string[offset.toNat]?
  let n := Utf8.leadLength lead
  let bytes := (string.drop offset.toNat).take n
  if n = 0 then some .invalidLead
  else if length.toNat < offset.toNat + n then some .outOfRange
  else if ¬ bytes.tail.all fun b => Utf8.Trail b then some .incomplete
  else if Utf8.size (Utf8.payload bytes) < n then some .overlong
  else if ¬ Utf8.Scalar (Utf8.payload bytes) then some .invalidCodePoint
  else none

/-- **An exception names the first defect**: it is that of each kind of defect iff the first one is
of that kind. -/
def NamesDefect (string : List UInt8) (length offset : UInt64) (exception : ExceptionCode) : Prop :=
  ∀ d : Defect, exception = d.exception ↔ firstDefect string length offset = some d

/-- The exceptions of malformed sequences are one. -/
theorem unicode_eq : ExceptionCode.incompleteUnicodeSequence = .invalidUnicodeLead ∧
    ExceptionCode.overlongUnicodeSequence = .invalidUnicodeLead := by decide

/-- **There is one exception for all sequences that are rejected.** -/
theorem exception_of_rejected {value newValue : UInt32} {newOffset : UInt64}
    {exception : ExceptionCode}
    (hrun : utf8Increment string length offset value = some (exception, newOffset, newValue))
    (hrejected : exception ≠ .none) : exception = .invalidUnicodeLead := by
  obtain ⟨hincomplete, hoverlong⟩ := unicode_eq
  have hgiven : ∀ {e : ExceptionCode} {o : UInt64} {v : UInt32}, e = .invalidUnicodeLead →
      some (e, o, v) = some (exception, newOffset, newValue) →
        exception = .invalidUnicodeLead := by
    intro e o v he heq
    exact (Prod.mk.inj (Option.some.inj heq)).1.symm.trans he
  unfold utf8Increment at hrun
  obtain ⟨lead, -, hrun⟩ := Option.bind_eq_some_iff.mp hrun
  rw [getUtf8SequenceLength_eq] at hrun
  dsimp only at hrun
  by_cases h0 : Utf8.leadLength lead = 0
  · rw [if_pos h0, if_neg unicode_ne_none.1] at hrun
    exact hgiven rfl hrun
  rw [if_neg h0, if_pos rfl] at hrun
  split_ifs at hrun
  · obtain ⟨ok, -, hrun⟩ := Option.bind_eq_some_iff.mp hrun
    split_ifs at hrun
    · obtain ⟨v, -, hrun⟩ := Option.bind_eq_some_iff.mp hrun
      split_ifs at hrun
      · exact hgiven hoverlong hrun
      · exact hgiven rfl hrun
      · exact absurd (Prod.mk.inj (Option.some.inj hrun)).1.symm hrejected
    · exact hgiven hincomplete hrun
  · rw [indexOutOfRange_eq] at hrun
    exact absurd (Prod.mk.inj (Option.some.inj hrun)).1.symm hrejected

/-- **No exception names the first defect**: the one of a lead byte is also that of trail bytes. -/
theorem never_namesDefect {value newValue : UInt32} {newOffset : UInt64}
    {exception : ExceptionCode}
    (hrun : utf8Increment string length offset value = some (exception, newOffset, newValue))
    (hrejected : exception ≠ .none) : ¬ NamesDefect string length offset exception := by
  intro hnames
  have hlead := exception_of_rejected hrun hrejected
  have hfirst := (hnames .invalidLead).mp hlead
  have hfirst' := (hnames .incomplete).mp (hlead.trans unicode_eq.1.symm)
  exact absurd (Option.some.inj (hfirst.symm.trans hfirst')) (by decide)

/-- An overlong sequence of two bytes. -/
theorem never_namesDefect_overlong : ¬ NamesDefect [0xc0, 0x80] 2 0 .overlongUnicodeSequence :=
  have hrun : utf8Increment [0xc0, 0x80] 2 0 0 = some (.overlongUnicodeSequence, 0, 0) := by decide
  never_namesDefect hrun (by decide)

/-- **A surrogate gets an exception that is the one for lead bytes as well.** -/
theorem not_namesDefect : ¬ ∀ (string : List UInt8) (length offset : UInt64) (value : UInt32)
    (exception : ExceptionCode) (newOffset : UInt64) (newValue : UInt32),
    length.toNat ≤ string.length → offset < length →
      utf8Increment string length offset value = some (exception, newOffset, newValue) →
        exception ≠ .none → NamesDefect string length offset exception := by
  intro h
  have hrun : utf8Increment [0xed, 0xa0, 0x80] 3 0 0 = some (.invalidUnicodeLead, 0, 0xd800) := by
    decide
  have hnames := h [0xed, 0xa0, 0x80] 3 0 0 _ _ _ (by decide) (by decide) hrun (by decide)
  exact absurd ((hnames .invalidLead).mp rfl) (by decide)

end Hologine.Text
