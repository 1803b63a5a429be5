import Hologine.Library.Bytes
import Hologine.Text.StringEquality
import Hologine.Text.StringIterator

/-!
# Substrings

What `string::substring` (`core/text/string.cpp:84-102`) takes of a string, between iterators that
`begin` and `end` lead to (`core/text/string_iterator.cpp:35-154`).

The slip of the source is that a substring starts where its first iterator is in the string, and the
offset that the string itself has is forgotten.

Results:
* `Reached.within`: the iterators of a string stay in it, whatever its bytes are.
* `run_substringExact_iff`: a substring is the bytes between its iterators **iff** the string has no
  offset, or there is nothing between them, or the same bytes happen to be there without the offset.
-/

namespace Hologine.Text

open Hologine.Library Hologine.Library.Bytes Hologine.Library.Run

/-- The bytes a string denotes, if its data has all of them. -/
def BufferHeap.content (chars : UInt64 → List UInt8) (h : BufferHeap) (s : StringObject) :
    Option (List UInt8) := do
  let data ← h.characters chars s
  if s.offset.toNat + s.length.toNat ≤ data.length then
    some (slice data s.offset.toNat s.length.toNat)
  else none

namespace Strings

/-- **The iterators of a string**: those that moves lead to from `begin()` and `end()`. The null
that terminates a C string is none of its characters, so that the move that finds it is a case of
its own: the sequence of one byte would end behind the string, which cuts it off. -/
inductive Reached (chars : UInt64 → List UInt8) (s : Strings) (a : UInt64) : IteratorState → Prop
  | begin {uninitialized : UInt32} {pushed : List ExceptionCode} {i : IteratorState} :
      s.begin chars a uninitialized = some (pushed, i) → Reached chars s a i
  | «end» {uninitialized : UInt32} {pushed : List ExceptionCode} {i : IteratorState} :
      s.end chars a uninitialized = some (pushed, i) → Reached chars s a i
  | move {call : IteratorCall} {pushed : List ExceptionCode} {i i' : IteratorState} :
      Reached chars s a i → s.move chars i call = some (pushed, i') → Reached chars s a i'
  | terminator {constString : UInt64} {i : IteratorState} :
      Reached chars s a i → i.isValid = true → (s.string a).storage = .unmanaged constString →
      (s.string a).offset.toNat + i.nextOffset.toNat = (chars constString).length →
      Reached chars s a { i with currentOffset := i.nextOffset }

/-- A substring is the bytes of the string from its first iterator to its last. -/
def SubstringExact (chars : UInt64 → List UInt8) (s : Strings) (target : UInt64)
    (temporary : Option UInt64) (string : UInt64) (first last : StringIterator) : Prop :=
  ∃ s' bytes, s.substring target temporary string first last = some s' ∧
    s.heap.content chars (s.string string) = some bytes ∧
    s'.heap.content chars (s'.string target) = some (slice bytes first.currentOffset.toNat
      (last.currentOffset - first.currentOffset).toNat)

/-- When the offset that is forgotten does not matter. -/
def Unshifted (chars : UInt64 → List UInt8) (h : BufferHeap) (o : StringObject)
    (first last : UInt64) : Prop :=
  o.offset = 0 ∨ first = last ∨ ∃ data, h.characters chars o = some data ∧
    slice data first.toNat (last - first).toNat =
      slice data (o.offset.toNat + first.toNat) (last - first).toNat

variable {chars : UInt64 → List UInt8} {s : Strings} {a : UInt64} {i : IteratorState}

/-! ## Where the iterators of a string are -/

/-- An iterator in the string at an address: it starts before it ends. -/
structure Within (s : Strings) (a : UInt64) (i : IteratorState) : Prop where
  string : i.string = a
  order : i.currentOffset ≤ i.nextOffset
  range : i.nextOffset ≤ (s.string a).length

theorem Within.stays (h : s.Within a i) {i' : IteratorState} (hstays : i.Stays i') :
    s.Within a i' := by
  rcases hstays with rfl | ⟨hsame, hnext, -⟩
  · exact h
  · refine ⟨(congrArg StringIterator.string hsame).trans h.string, ?_, hnext ▸ h.range⟩
    rw [hnext, congrArg StringIterator.currentOffset hsame]
    exact h.order

theorem Within.increment (h : s.Within a i) {pushed : List ExceptionCode} {i' : IteratorState}
    (hrun : s.increment chars i = some (pushed, i')) : s.Within a i' := by
  rcases increment_leaves hrun with hstays | ⟨_, _, -, -, hstep, hstring, hcurrent, -⟩
  · exact h.stays hstays
  · rcases utf8Increment_leaves hstep with ⟨hne, -⟩ | ⟨-, -, hsame, -⟩ | ⟨-, hlt, hle⟩
    · exact absurd rfl hne
    · exact ⟨hstring.trans h.string, UInt64.le_of_eq (hcurrent.trans hsame.symm), hsame ▸ h.range⟩
    · rw [h.string] at hle
      exact ⟨hstring.trans h.string, hcurrent ▸ UInt64.le_of_lt hlt, hle⟩

theorem Within.decrement (h : s.Within a i) {pushed : List ExceptionCode} {i' : IteratorState}
    (hrun : s.decrement chars i = some (pushed, i')) : s.Within a i' := by
  rcases decrement_leaves hrun with hstays | ⟨_, _, -, -, hstep, hstring, hnext, -⟩
  · exact h.stays hstays
  · have hle : i'.currentOffset ≤ i.currentOffset := by
      rcases utf8Decrement_leaves hstep with ⟨hne, -⟩ | ⟨-, hzero, hsame, -⟩ | ⟨-, hlt, -⟩
      · exact absurd rfl hne
      · exact UInt64.le_of_eq (hsame.trans hzero.symm)
      · exact UInt64.le_of_lt hlt
    exact ⟨hstring.trans h.string, hnext ▸ hle, hnext ▸ UInt64.le_trans h.order h.range⟩

theorem within_stringIterator {offset : UInt64} {uninitialized : UInt32}
    {pushed : List ExceptionCode} (hoffset : offset ≤ (s.string a).length)
    (hrun : s.stringIterator chars a offset uninitialized = some (pushed, i)) : s.Within a i := by
  have hstart : s.Within a ⟨⟨a, offset⟩, offset, uninitialized, true⟩ :=
    ⟨rfl, UInt64.le_refl _, hoffset⟩
  unfold Strings.stringIterator at hrun
  dsimp only at hrun
  split_ifs at hrun
  · exact hstart.increment hrun
  · obtain ⟨-, rfl⟩ := Prod.mk.inj (Option.some.inj hrun)
    exact hstart

/-- **The iterators of a string are in it**, whatever its bytes are. -/
theorem Reached.within (h : Reached chars s a i) : s.Within a i := by
  induction h with
  | begin hrun => exact within_stringIterator UInt64.zero_le hrun
  | «end» hrun => exact within_stringIterator (UInt64.le_refl _) hrun
  | @move call pushed i i' _ hrun ih =>
    cases call with
    | increment => exact ih.increment hrun
    | decrement => exact ih.decrement hrun
  | terminator _ _ _ _ ih => exact ⟨ih.string, UInt64.le_refl _, ih.range⟩

/-- An iterator that is made is where it is made to be. -/
theorem currentOffset_of_stringIterator {offset : UInt64} {uninitialized : UInt32}
    {pushed : List ExceptionCode}
    (hrun : s.stringIterator chars a offset uninitialized = some (pushed, i)) :
    i.currentOffset = offset := by
  unfold Strings.stringIterator at hrun
  dsimp only at hrun
  split_ifs at hrun
  · rcases increment_leaves hrun with (rfl | ⟨hsame, -⟩) | ⟨_, _, -, -, -, -, hcurrent, -⟩
    · rfl
    · exact congrArg StringIterator.currentOffset hsame
    · exact hcurrent
  · obtain ⟨-, rfl⟩ := Prod.mk.inj (Option.some.inj hrun)
    rfl

/-! ## The bytes of a substring -/

open BufferHeap

theorem content_of_denotes {h : BufferHeap} {o : StringObject} {pointer : DataPointer}
    {data : List UInt8} (ho : h.Denotes chars o pointer data) :
    h.content chars o = some (slice data o.offset.toNat o.length.toNat) := by
  rw [content, ho.characters, Option.bind_eq_bind, Option.bind_some, if_pos ho.fits]

theorem length_of_content {h : BufferHeap} {o : StringObject} {bytes : List UInt8}
    (hbytes : h.content chars o = some bytes) : bytes.length = o.length.toNat := by
  obtain ⟨data, -, hslice⟩ := Option.bind_eq_some_iff.mp hbytes
  split_ifs at hslice with hfits
  rw [← Option.some.inj hslice, length_slice hfits]

variable {target string : UInt64} {temporary : Option UInt64} {first last : StringIterator}
  {pointer : DataPointer} {data : List UInt8}

/-- **What a substring is**: what is between the iterators in the data, without the offset of the
string. -/
theorem Windowed.substring_content (hwin : s.Windowed chars) (hinv : s.Inv)
    (hlegal : s.WindowLegal (.substring target temporary string first last))
    (hdata : s.heap.characters chars (s.string string) = some data) :
    ∃ s', s.substring target temporary string first last = some s' ∧
      s'.heap.content chars (s'.string target) = some (slice data first.currentOffset.toNat
        (last.currentOffset - first.currentOffset).toNat) := by
  obtain ⟨hvacant, htemporary, hstring, hfirst, hlast⟩ := hlegal.1
  obtain ⟨s', hrun, hinv'⟩ := hinv.substring hvacant htemporary hstring hfirst hlast
  obtain ⟨hcount, hstrings, hlive⟩ := substring_leaves hfirst hlast hrun
  have hvalue := (hstrings target).trans (if_pos (.inl rfl))
  have hne : temporary ≠ some target := by
    rintro rfl
    exact htemporary.2 rfl
  obtain ⟨pointer, data', hdenotes⟩ :=
    (hwin.substring hinv hlegal hrun).denotes hinv' ((hlive target hne).mpr (.inl rfl))
  have hcontent := content_of_denotes hdenotes
  have hcharacters := hdenotes.characters
  rw [hvalue] at hcharacters hcontent
  -- a substring has the characters of the string
  obtain rfl := hcount.keeps.characters hdata hcharacters
  exact ⟨s', hrun, hvalue ▸ hcontent⟩

/-- **A substring is exact iff the offset that is forgotten does not matter.** -/
theorem Windowed.substringExact_iff (hwin : s.Windowed chars) (hinv : s.Inv)
    (hlegal : s.WindowLegal (.substring target temporary string first last)) :
    SubstringExact chars s target temporary string first last ↔
      Unshifted chars s.heap (s.string string) first.currentOffset last.currentOffset := by
  obtain ⟨pointer, data, hdenotes⟩ := hwin.denotes hinv hlegal.1.2.2.1
  obtain ⟨s', hrun, hcontent⟩ := hwin.substring_content hinv hlegal hdenotes.characters
  obtain ⟨-, horder, hrange⟩ := hlegal
  have hinner : first.currentOffset.toNat + (last.currentOffset - first.currentOffset).toNat ≤
      (s.string string).length.toNat := by
    rw [UInt64.toNat_sub_of_le _ _ horder]
    rw [UInt64.le_iff_toNat_le] at horder hrange
    omega
  have hexact : SubstringExact chars s target temporary string first last ↔
      slice data first.currentOffset.toNat (last.currentOffset - first.currentOffset).toNat =
        slice data ((s.string string).offset.toNat + first.currentOffset.toNat)
          (last.currentOffset - first.currentOffset).toNat := by
    rw [← slice_slice hinner]
    constructor
    · rintro ⟨s'', bytes, hrun', hbytes, hcontent'⟩
      obtain rfl := Option.some.inj (hrun.symm.trans hrun')
      obtain rfl := Option.some.inj ((content_of_denotes hdenotes).symm.trans hbytes)
      exact Option.some.inj (hcontent.symm.trans hcontent')
    · intro heq
      exact ⟨s', _, hrun, content_of_denotes hdenotes, hcontent.trans (congrArg some heq)⟩
  rw [hexact]
  constructor
  · exact fun heq => .inr (.inr ⟨data, hdenotes.characters, heq⟩)
  · rintro (hzero | hempty | ⟨data', hdata', heq⟩)
    · rw [hzero, UInt64.toNat_zero, Nat.zero_add]
    · rw [hempty, UInt64.sub_self]
      rfl
    · obtain rfl := Option.some.inj (hdenotes.characters.symm.trans hdata')
      exact heq

/-- **A substring from `begin()` to `end()` has the content of the string** if it is exact. -/
theorem SubstringExact.whole {i j : IteratorState} {u v : UInt32}
    {pushed pushed' : List ExceptionCode} (hbegin : s.begin chars string u = some (pushed, i))
    (hend : s.end chars string v = some (pushed', j))
    (hexact : SubstringExact chars s target temporary string i.toStringIterator
      j.toStringIterator) :
    ∃ s', s.substring target temporary string i.toStringIterator j.toStringIterator = some s' ∧
      s'.heap.content chars (s'.string target) = s.heap.content chars (s.string string) := by
  obtain ⟨s', bytes, hrun, hbytes, hcontent⟩ := hexact
  have hfirst := currentOffset_of_stringIterator hbegin
  have hlast := currentOffset_of_stringIterator hend
  refine ⟨s', hrun, hcontent.trans ?_⟩
  rw [hfirst, hlast, UInt64.sub_zero, UInt64.toNat_zero, ← length_of_content hbytes, slice_whole,
    hbytes]

/-! ## The strings of a run -/

/-- The iterators of a string can be used for a substring of it. -/
theorem Reached.windowLegal {i j : IteratorState} (hi : Reached chars s string i)
    (hj : Reached chars s string j) (horder : i.currentOffset ≤ j.currentOffset)
    (hvacant : s.Vacant target) (htemporary : s.VacantBeside target temporary)
    (hstring : string ∈ s.live) :
    s.WindowLegal (.substring target temporary string i.toStringIterator j.toStringIterator) :=
  ⟨⟨hvacant, htemporary, hstring, hi.within.string, hj.within.string⟩, horder,
    UInt64.le_trans hj.within.order hj.within.range⟩

/-- **Which substrings of a run are exact**, for all strings and all their iterators. -/
theorem run_substringExact_iff {calls : List StringCall} {os : List Unit}
    (hlegal : Along (step chars) WindowLegal start calls)
    (hrun : exec (step chars) start calls = some (os, s)) (hstring : string ∈ s.live)
    {i j : IteratorState} (hi : Reached chars s string i) (hj : Reached chars s string j)
    (horder : i.currentOffset ≤ j.currentOffset) (hvacant : s.Vacant target)
    (htemporary : s.VacantBeside target temporary) :
    SubstringExact chars s target temporary string i.toStringIterator j.toStringIterator ↔
      Unshifted chars s.heap (s.string string) i.currentOffset j.currentOffset := by
  obtain ⟨hinv, hwin⟩ := run_windowed hlegal hrun
  exact hwin.substringExact_iff hinv
    (hi.windowLegal hj horder hvacant htemporary hstring)

theorem run_substringExact_iff_sample : ∃ os s i j,
    exec (step sampleChars) start sampleCalls = some (os, s) ∧
      s.begin sampleChars 2 0 = some ([], i) ∧ s.end sampleChars 2 0 = some ([], j) ∧
      (SubstringExact sampleChars s 4 none 2 i.toStringIterator j.toStringIterator ↔
        Unshifted sampleChars s.heap (s.string 2) i.currentOffset j.currentOffset) := by
  have hlegal : Along (step sampleChars) WindowLegal start sampleCalls := by decide
  exact ⟨_, _, _, _, rfl, rfl, rfl, run_substringExact_iff hlegal rfl (by decide)
    (@Reached.begin _ _ _ 0 _ _ rfl) (@Reached.end _ _ _ 0 _ _ rfl) (by decide) (by decide)
    trivial⟩

/-- **The whole of the substring `"foo"` of `"barfoo"` is `"bar"`.** -/
theorem not_run_substringExact : ¬ ∀ (chars : UInt64 → List UInt8) (calls : List StringCall)
    (os : List Unit) (s : Strings), Along (step chars) WindowLegal start calls →
      exec (step chars) start calls = some (os, s) → ∀ string ∈ s.live,
        ∀ i j, Reached chars s string i → Reached chars s string j →
          i.currentOffset ≤ j.currentOffset → ∀ target temporary, s.Vacant target →
            s.VacantBeside target temporary →
              SubstringExact chars s target temporary string i.toStringIterator
                j.toStringIterator := by
  intro h
  obtain ⟨s', bytes, hrun, hbytes, hcontent⟩ := h sampleChars sampleCalls _ _ (by decide) rfl 2
    (by decide) _ _ (@Reached.begin _ _ _ 0 _ _ rfl) (@Reached.end _ _ _ 0 _ _ rfl) (by decide) 4
    none (by decide) trivial
  obtain rfl := Option.some.inj hrun
  obtain rfl := Option.some.inj hbytes
  exact absurd (Option.some.inj hcontent) (by decide)

end Strings

end Hologine.Text
