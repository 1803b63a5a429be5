import Hologine.Text.StringSubstring
import Hologine.Text.Utf8Decrement

/-!
# Iterators that are equal

What `string_iterator::equal` (`core/text/string_iterator.cpp:156-160`) says of two iterators of a
string: whether they are the same to `substring` and when they are dereferenced.

Two slips of the source matter here. Iterators are compared by where the next sequence starts, and
used by where their own does. An iterator at the end has no sequence of its own, so the two are one
place there; the last code point ends there as well. And a move to a sequence that is cut off is no
exception: it leaves the code point of wherever the iterator was before, or whatever the memory of
the iterator had.

Results:
* `Reached.scanned`: an iterator of a string, whatever its bytes are, has no sequence of its own or
  is where a scan back from the next one stops.
* `Reached.came`: one that is valid is at the end, or on a sequence that has been decoded or that is
  cut off.
* `run_congruent_iff`: iterators that are equal are the same **iff** both have a sequence of their
  own or neither does, and they keep the same code point where one of them has decoded none.
-/

namespace Hologine.Text

open Hologine.Library Hologine.Library.Bytes Hologine.Library.Run

namespace IteratorState

/-- An iterator without a sequence of its own. -/
def Bare (i : IteratorState) : Prop := i.currentOffset = i.nextOffset

instance (i : IteratorState) : Decidable i.Bare :=
  inferInstanceAs (Decidable (i.currentOffset = i.nextOffset))

end IteratorState

namespace Strings

/-- The bytes of a substring. -/
def substringContent (chars : UInt64 → List UInt8) (s : Strings) (target : UInt64)
    (temporary : Option UInt64) (string : UInt64) (first last : StringIterator) :
    Option (List UInt8) := do
  let s' ← s.substring target temporary string first last
  s'.heap.content chars (s'.string target)

/-- An iterator that is not at the end of its string. -/
def BeforeEnd (s : Strings) (i : IteratorState) : Prop :=
  i.currentOffset ≠ (s.string i.string).length

/-- **Two iterators are the same**: substrings up to them are, from every iterator of the string,
and before the end they dereference to the same. -/
def Congruent (chars : UInt64 → List UInt8) (s : Strings) (target : UInt64)
    (temporary : Option UInt64) (string : UInt64) (i j : IteratorState) : Prop :=
  (∀ f, Reached chars s string f →
    s.substringContent chars target temporary string f.toStringIterator i.toStringIterator =
      s.substringContent chars target temporary string f.toStringIterator j.toStringIterator) ∧
  (s.BeforeEnd i → s.BeforeEnd j → i.dereference = j.dereference)

/-- The characters of a string from its offset on, as its iterators see them. -/
def view (chars : UInt64 → List UInt8) (s : Strings) (a : UInt64) : Option (List UInt8) :=
  match s.heap.findBuffer (s.string a) with
  | some (some pointer) => do
    let data ← s.heap.charactersAt chars pointer
    some (data.drop (s.string a).offset.toNat)
  | _ => none

/-- An iterator that is valid, on a sequence that ends by where the next one starts: one that it has
decoded. -/
def OnWhole (chars : UInt64 → List UInt8) (s : Strings) (i : IteratorState) : Prop :=
  i.isValid = true ∧
    ∃ bytes, s.view chars i.string = some bytes ∧ ¬ CutOff bytes i.nextOffset i.currentOffset

/-- An iterator without a sequence of its own, or where a scan back from the next one stops. -/
def Scanned (chars : UInt64 → List UInt8) (s : Strings) (a : UInt64) (i : IteratorState) : Prop :=
  i.Bare ∨ ∃ bytes, s.view chars a = some bytes ∧
    scanBack bytes i.nextOffset.toNat = some i.currentOffset.toNat

/-- What a valid iterator has come to: the end, or a sequence that is cut off, or one that it has
the code point of. -/
inductive Came (bytes : List UInt8) (length : UInt64) (i : IteratorState) : Prop
  | «end» : i.currentOffset = length → Came bytes length i
  | cut : CutOff bytes i.nextOffset i.currentOffset → Came bytes length i
  | whole (q : Utf8Sequence) : q.StandsAt bytes i.nextOffset i.currentOffset →
      i.dereference = q.codePoint → Came bytes length i

variable {chars : UInt64 → List UInt8} {s : Strings} {a : UInt64} {i i' j : IteratorState}
  {pushed : List ExceptionCode} {bytes : List UInt8}

/-! ## Where the iterators of a string are -/

theorem view_eq {pointer : DataPointer} {data : List UInt8}
    (hfind : s.heap.findBuffer (s.string a) = some (some pointer))
    (hdata : s.heap.charactersAt chars pointer = some data) :
    s.view chars a = some (data.drop (s.string a).offset.toNat) := by
  simp only [view, hfind, hdata, Option.bind_eq_bind, Option.bind_some]

theorem view_eq_some (hview : s.view chars a = some bytes) : ∃ pointer data,
    s.heap.findBuffer (s.string a) = some (some pointer) ∧
      s.heap.charactersAt chars pointer = some data ∧
      bytes = data.drop (s.string a).offset.toNat := by
  unfold view at hview
  split at hview
  · next pointer hfind =>
    obtain ⟨data, hdata, hbytes⟩ := Option.bind_eq_some_iff.mp hview
    exact ⟨pointer, data, hfind, hdata, (Option.some.inj hbytes).symm⟩
  · exact absurd hview nofun

theorem Scanned.stays (h : s.Scanned chars a i) (hstays : i.Stays i') : s.Scanned chars a i' := by
  rcases hstays with rfl | ⟨hsame, hnext, -⟩
  · exact h
  have hcurrent := congrArg StringIterator.currentOffset hsame
  rcases h with hbare | ⟨bytes, hview, hscan⟩
  · exact .inl (hcurrent.trans (hbare.trans hnext.symm))
  · refine .inr ⟨bytes, hview, ?_⟩
    rw [hcurrent, hnext]
    exact hscan

/-- A step forward is over a sequence, or to where one is cut off, or stays. -/
theorem Scanned.increment (h : s.Scanned chars a i) (hstring : i.string = a)
    (hrun : s.increment chars i = some (pushed, i')) : s.Scanned chars a i' := by
  rcases increment_leaves hrun with
    hstays | ⟨pointer, data, hfind, hdata, hstep, -, hcurrent, -⟩
  · exact h.stays hstays
  rw [hstring] at hfind hstep
  by_cases hcut : CutOff (data.drop (s.string a).offset.toNat) (s.string a).length i.nextOffset
  · rw [utf8Increment_cutOff hcut] at hstep
    exact .inl (hcurrent.trans (Prod.mk.inj (Prod.mk.inj (Option.some.inj hstep)).2).1)
  · rcases utf8Decrement_leaves (utf8Decrement_utf8Increment hcut hstep 0) with
      ⟨hne, -⟩ | ⟨-, hzero, hsame, -⟩ | ⟨-, -, hscan, -⟩
    · exact absurd rfl hne
    · exact .inl (hcurrent.trans (hsame.trans hzero.symm))
    · rw [← hcurrent] at hscan
      exact .inr ⟨_, view_eq hfind hdata, hscan⟩

/-- A step back is to where a scan stops, or stays. -/
theorem Scanned.decrement (h : s.Scanned chars a i) (hstring : i.string = a)
    (hrun : s.decrement chars i = some (pushed, i')) : s.Scanned chars a i' := by
  rcases decrement_leaves hrun with
    hstays | ⟨pointer, data, hfind, hdata, hstep, -, hnext, -⟩
  · exact h.stays hstays
  rw [hstring] at hfind hstep
  rcases utf8Decrement_leaves hstep with ⟨hne, -⟩ | ⟨-, hzero, hsame, -⟩ | ⟨-, -, hscan, -⟩
  · exact absurd rfl hne
  · exact .inl (hsame.trans (hzero.symm.trans hnext.symm))
  · rw [← hnext] at hscan
    exact .inr ⟨_, view_eq hfind hdata, hscan⟩

theorem scanned_stringIterator {offset : UInt64} {uninitialized : UInt32}
    (hrun : s.stringIterator chars a offset uninitialized = some (pushed, i)) :
    s.Scanned chars a i := by
  have hstart : s.Scanned chars a ⟨⟨a, offset⟩, offset, uninitialized, true⟩ := .inl rfl
  unfold Strings.stringIterator at hrun
  dsimp only at hrun
  split_ifs at hrun
  · exact hstart.increment rfl hrun
  · obtain ⟨-, rfl⟩ := Prod.mk.inj (Option.some.inj hrun)
    exact hstart

/-- **The iterators of a string are on nothing or where a scan back stops**, whatever its bytes
are. -/
theorem Reached.scanned (h : Reached chars s a i) : s.Scanned chars a i := by
  induction h with
  | begin hrun => exact scanned_stringIterator hrun
  | «end» hrun => exact scanned_stringIterator hrun
  | @move call _ _ _ hreached hrun ih =>
    cases call with
    | increment => exact ih.increment hreached.within.string hrun
    | decrement => exact ih.decrement hreached.within.string hrun
  | terminator _ _ _ _ _ => exact .inl rfl

/-! ## What the iterators of a string have decoded -/

/-- What one length cuts off, a smaller one does. -/
theorem cutOff_mono {length length' offset : UInt64} (h : CutOff bytes length offset)
    (hle : length' ≤ length) : CutOff bytes length' offset := by
  obtain ⟨lead, hlead, hne, hout⟩ := h
  exact ⟨lead, hlead, hne, Nat.lt_of_le_of_lt (UInt64.le_iff_toNat_le.mp hle) hout⟩

/-- A sequence is cut off where it starts. -/
theorem cutOff_self {q : Utf8Sequence} {length offset : UInt64}
    (h : q.StandsAt bytes length offset) : CutOff bytes offset offset := by
  have hlt := length.toNat_lt
  have hpos := q.length_pos
  have hfit := h.2
  obtain ⟨lead, hlead, hannounced⟩ := q.announced h.1 (by omega)
  exact ⟨lead, hlead, by omega, by omega⟩

/-- A step forward comes to what it decodes, or to what is cut off. -/
theorem came_increment (hview : s.view chars a = some bytes) (hstring : i.string = a)
    (ha : a ≠ 0) (hrun : s.increment chars i = some (pushed, i')) (hvalid : i'.isValid = true) :
    Came bytes (s.string a).length i' := by
  obtain ⟨pointer, data, hfind, hdata, rfl⟩ := view_eq_some hview
  unfold Strings.increment at hrun
  rw [if_pos (hstring ▸ ha), hstring] at hrun
  split_ifs at hrun
  simp only [hfind, hdata, Option.bind_eq_bind, Option.bind_some] at hrun
  obtain ⟨⟨exception, nextOffset, value⟩, hstep, hrun⟩ := Option.bind_eq_some_iff.mp hrun
  dsimp only at hrun
  split_ifs at hrun with hexception
  · obtain ⟨-, rfl⟩ := Prod.mk.inj (Option.some.inj hrun)
    exact absurd hvalid Bool.false_ne_true
  obtain ⟨-, rfl⟩ := Prod.mk.inj (Option.some.inj hrun)
  obtain rfl := not_not.mp hexception
  by_cases hcut : CutOff (data.drop (s.string a).offset.toNat) (s.string a).length i.nextOffset
  · rw [utf8Increment_cutOff hcut] at hstep
    obtain ⟨rfl, rfl⟩ := Prod.mk.inj (Prod.mk.inj (Option.some.inj hstep)).2
    obtain ⟨lead, hlead, hne, -⟩ := hcut
    exact .cut ⟨lead, hlead, hne, Nat.lt_add_of_pos_right (Nat.pos_of_ne_zero hne)⟩
  · obtain ⟨q, hstands, -, hcode⟩ := exists_standsAt_of_increment hcut hstep
    exact .whole q hstands hcode

/-- A step back comes to what it decodes, or to what is cut off. -/
theorem Came.decrement (h : Came bytes (s.string a).length i)
    (hview : s.view chars a = some bytes) (hstring : i.string = a)
    (ha : a ≠ 0) (hrun : s.decrement chars i = some (pushed, i')) (hvalid : i'.isValid = true) :
    Came bytes (s.string a).length i' := by
  obtain ⟨pointer, data, hfind, hdata, rfl⟩ := view_eq_some hview
  unfold Strings.decrement at hrun
  rw [if_pos (hstring ▸ ha), hstring] at hrun
  split_ifs at hrun
  simp only [hfind, hdata, hasBuffer_of_findBuffer hfind, if_true, Option.bind_eq_bind,
    Option.bind_some] at hrun
  obtain ⟨⟨exception, currentOffset, value⟩, hstep, hrun⟩ := Option.bind_eq_some_iff.mp hrun
  dsimp only at hrun
  split_ifs at hrun with hexception
  · obtain ⟨-, rfl⟩ := Prod.mk.inj (Option.some.inj hrun)
    exact absurd hvalid Bool.false_ne_true
  obtain ⟨-, rfl⟩ := Prod.mk.inj (Option.some.inj hrun)
  obtain rfl := not_not.mp hexception
  rcases utf8Decrement_leaves hstep with
    ⟨hne, -⟩ | ⟨-, hzero, rfl, -⟩ | ⟨-, -, -, next, hforward⟩
  · exact absurd rfl hne
  · -- at the start it stays
    rcases h with hend | hcut | ⟨q, hstands, -⟩
    · exact .end (hzero.symm.trans hend)
    · rw [hzero] at hcut
      exact .cut (cutOff_mono hcut (by rw [hzero]; exact UInt64.zero_le))
    · rw [hzero] at hstands
      have hcut := cutOff_self hstands
      exact .cut (cutOff_mono hcut (by rw [hzero]; exact UInt64.le_refl _))
  · by_cases hcut : CutOff (data.drop (s.string a).offset.toNat) i.currentOffset currentOffset
    · exact .cut hcut
    · obtain ⟨q, ⟨hpre, hfit⟩, -, hcode⟩ := exists_standsAt_of_increment hcut hforward
      rcases utf8Increment_leaves hforward with ⟨hne, -⟩ | ⟨-, hcut', -⟩ | ⟨-, -, hle⟩
      · exact absurd rfl hne
      · exact absurd hcut' hcut
      · exact .whole q ⟨hpre, hfit.trans (UInt64.le_iff_toNat_le.mp hle)⟩ hcode

theorem came_stringIterator (hview : s.view chars a = some bytes) {offset : UInt64}
    (hoffset : offset ≤ (s.string a).length) {uninitialized : UInt32}
    (hrun : s.stringIterator chars a offset uninitialized = some (pushed, i))
    (hvalid : i.isValid = true) : Came bytes (s.string a).length i := by
  unfold Strings.stringIterator at hrun
  dsimp only at hrun
  split_ifs at hrun with hassert hlt
  · exact came_increment hview rfl hassert.1 hrun hvalid
  · obtain ⟨-, rfl⟩ := Prod.mk.inj (Option.some.inj hrun)
    exact .end (UInt64.le_antisymm hoffset (UInt64.not_lt.mp hlt))

/-- A string that gives out iterators is not at the null address. -/
theorem Reached.ne_zero (h : Reached chars s a i) : a ≠ 0 := by
  have hmade : ∀ {offset : UInt64} {u : UInt32} {pushed : List ExceptionCode} {i : IteratorState},
      s.stringIterator chars a offset u = some (pushed, i) → a ≠ 0 := by
    intro offset u pushed i hrun hzero
    simp [Strings.stringIterator, hzero] at hrun
  induction h with
  | begin hrun => exact hmade hrun
  | «end» hrun => exact hmade hrun
  | move _ _ ih => exact ih
  | terminator _ _ _ _ ih => exact ih

/-- Only a valid iterator moves. -/
theorem isValid_of_move {call : IteratorCall} (hstring : i.string ≠ 0)
    (hrun : s.move chars i call = some (pushed, i')) : i.isValid = true := by
  by_contra hinvalid
  cases call with
  | increment => simp [Strings.move, Strings.increment, hstring, hinvalid] at hrun
  | decrement => simp [Strings.move, Strings.decrement, hstring, hinvalid] at hrun

/-- **The valid iterators of a string are at the end or on a sequence**, which they have the code
point of if it is not cut off. -/
theorem Reached.came (h : Reached chars s a i) (hview : s.view chars a = some bytes)
    (hfits : (s.string a).length.toNat ≤ bytes.length) (hvalid : i.isValid = true) :
    Came bytes (s.string a).length i := by
  induction h with
  | begin hrun => exact came_stringIterator hview UInt64.zero_le hrun hvalid
  | «end» hrun => exact came_stringIterator hview (UInt64.le_refl _) hrun hvalid
  | @move call _ i _ hreached hrun ih =>
    have hstring := hreached.within.string
    have ha := hreached.ne_zero
    cases call with
    | increment => exact came_increment hview hstring ha hrun hvalid
    | decrement =>
      exact (ih (isValid_of_move (hstring ▸ ha) hrun)).decrement hview hstring ha hrun hvalid
  | @terminator constString i hreached _ hstorage hnull _ =>
    -- the terminator is behind the string
    obtain ⟨pointer, data, hfind, hdata, rfl⟩ := view_eq_some hview
    simp only [BufferHeap.findBuffer, hstorage] at hfind
    split_ifs at hfind with hnonnull
    · obtain rfl := Option.some.inj (Option.some.inj hfind)
      obtain rfl := Option.some.inj hdata
      have hrange := UInt64.le_iff_toNat_le.mp hreached.within.range
      rw [List.length_drop] at hfits
      have hlast : i.nextOffset.toNat = (s.string a).length.toNat := by omega
      exact .end (UInt64.toNat_inj.mp hlast)
    · exact absurd (Option.some.inj hfind) nofun

/-! ## Two iterators -/

/-- **Where iterators that are equal are one place**: if both have a sequence of their own or
neither does. -/
theorem Reached.currentOffset_eq_iff (hi : Reached chars s a i) (hj : Reached chars s a j)
    (hnext : i.nextOffset = j.nextOffset) :
    i.currentOffset = j.currentOffset ↔ (i.Bare ↔ j.Bare) := by
  have hnot : ∀ {k : IteratorState} {bytes : List UInt8},
      scanBack bytes k.nextOffset.toNat = some k.currentOffset.toNat → ¬ k.Bare := by
    intro k bytes hscan hbare
    have hlt := scanBack_lt hscan
    rw [hbare] at hlt
    exact Nat.lt_irrefl _ hlt
  constructor
  · intro hcurrent
    rw [IteratorState.Bare, IteratorState.Bare, hcurrent, hnext]
  · intro hiff
    rcases hi.scanned with hbare | ⟨bytes, hview, hscan⟩
    · exact hbare.trans (hnext.trans (hiff.mp hbare).symm)
    · rcases hj.scanned with hbare' | ⟨bytes', hview', hscan'⟩
      · exact absurd (hiff.mpr hbare') (hnot hscan)
      · obtain rfl := Option.some.inj (hview.symm.trans hview')
        rw [hnext, hscan'] at hscan
        exact UInt64.toNat_inj.mp (Option.some.inj hscan).symm

/-- **Before the end, iterators that have decoded what they are on dereference to the same.** -/
theorem Reached.dereference_eq (hi : Reached chars s a i) (hj : Reached chars s a j)
    (hfits : ∀ bytes, s.view chars a = some bytes → (s.string a).length.toNat ≤ bytes.length)
    (hcurrent : i.currentOffset = j.currentOffset) (hwhole : s.OnWhole chars i)
    (hwhole' : s.OnWhole chars j) (hbefore : s.BeforeEnd i) : i.dereference = j.dereference := by
  obtain ⟨hvalid, bytes, hview, hnot⟩ := hwhole
  obtain ⟨hvalid', bytes', hview', hnot'⟩ := hwhole'
  rw [hi.within.string] at hview
  rw [hj.within.string] at hview'
  obtain rfl := Option.some.inj (hview.symm.trans hview')
  rw [BeforeEnd, hi.within.string] at hbefore
  obtain ⟨q, hstands, hcode⟩ : ∃ q : Utf8Sequence,
      q.StandsAt bytes i.nextOffset i.currentOffset ∧ i.dereference = q.codePoint := by
    rcases hi.came hview (hfits bytes hview) hvalid with hend | hcut | ⟨q, hstands, hcode⟩
    · exact absurd hend hbefore
    · exact absurd hcut hnot
    · exact ⟨q, hstands, hcode⟩
  rcases hj.came hview (hfits bytes hview) hvalid' with hend | hcut | ⟨q', hstands', hcode'⟩
  · exact absurd (hcurrent.trans hend) hbefore
  · exact absurd hcut hnot'
  · rw [← hcurrent] at hstands'
    rw [hcode, hcode', hstands.codePoint_eq hstands']

variable {target : UInt64} {temporary : Option UInt64}

/-- A substring of nothing. -/
theorem substringContent_eq_nil (hwin : s.Windowed chars) (hinv : s.Inv) (ha : a ∈ s.live)
    (hi : Reached chars s a i) (hvacant : s.Vacant target)
    (htemporary : s.VacantBeside target temporary) :
    s.substringContent chars target temporary a i.toStringIterator i.toStringIterator =
      some [] := by
  obtain ⟨_, data, hdenotes⟩ := hwin.denotes hinv ha
  obtain ⟨s', hrun, hcontent⟩ := hwin.substring_content hinv
    (hi.windowLegal hi (UInt64.le_refl _) hvacant htemporary ha) hdenotes.characters
  rw [substringContent, hrun, Option.bind_eq_bind, Option.bind_some, hcontent, UInt64.sub_self]
  rfl

/-- A substring of nothing is between iterators in one place. -/
theorem currentOffset_eq_of_substringContent (hi : i.string = a) (hj : j.string = a)
    (hcontent : s.substringContent chars target temporary a i.toStringIterator
      j.toStringIterator = some []) : i.currentOffset = j.currentOffset := by
  obtain ⟨s', hrun, hcontent⟩ := Option.bind_eq_some_iff.mp hcontent
  obtain ⟨-, hstrings, -⟩ := substring_leaves hi hj hrun
  have hlength := length_of_content hcontent
  rw [hstrings, if_pos (.inl rfl)] at hlength
  have hzero : j.currentOffset - i.currentOffset = 0 := UInt64.toNat_inj.mp hlength.symm
  rw [UInt64.sub_eq_iff_eq_add, UInt64.zero_add] at hzero
  exact hzero.symm

/-- The strings of a run have their characters where their iterators look for them. -/
theorem Windowed.length_le_view (hwin : s.Windowed chars) (ha : a ∈ s.live)
    (hview : s.view chars a = some bytes) : (s.string a).length.toNat ≤ bytes.length := by
  obtain ⟨pointer, data, hfind, hdata, rfl⟩ := view_eq_some hview
  have hfits := hwin a ha
  unfold BufferHeap.Fits at hfits
  unfold BufferHeap.findBuffer at hfind
  rw [List.length_drop]
  cases hs : (s.string a).storage with
  | managed buffer =>
    simp only [hs] at hfits hfind
    cases buffer with
    | none => exact absurd (Option.some.inj hfind) nofun
    | some b =>
      obtain ⟨record, hrecord, hfind⟩ := Option.bind_eq_some_iff.mp hfind
      obtain rfl := Option.some.inj (Option.some.inj hfind)
      obtain ⟨b', hb', hget, -⟩ := BufferHeap.getBuffer_eq_some hrecord
      have hle := hfits b' record hb' hget
      simp only [BufferHeap.charactersAt] at hdata
      split_ifs at hdata
      obtain rfl := Option.some.inj hdata
      omega
  | unmanaged constString =>
    simp only [hs] at hfits hfind
    split_ifs at hfind
    · obtain rfl := Option.some.inj (Option.some.inj hfind)
      obtain rfl := Option.some.inj hdata
      omega
    · exact absurd (Option.some.inj hfind) nofun

/-- **Which iterators of a string of a run are the same when they are equal**: those that both have
a sequence of their own, or both none, and that keep the same code point if one of the two has not
decoded what it is on. -/
theorem run_congruent_iff {calls : List StringCall} {os : List Unit}
    (hlegal : Along (step chars) WindowLegal start calls)
    (hrun : exec (step chars) start calls = some (os, s)) (ha : a ∈ s.live)
    (hi : Reached chars s a i) (hj : Reached chars s a j) (hequal : i.equal j = true)
    (hvacant : s.Vacant target) (htemporary : s.VacantBeside target temporary) :
    Congruent chars s target temporary a i j ↔ (i.Bare ↔ j.Bare) ∧
      (s.BeforeEnd i → s.BeforeEnd j → ¬ (s.OnWhole chars i ∧ s.OnWhole chars j) →
        i.dereference = j.dereference) := by
  obtain ⟨hinv, hwin⟩ := run_windowed hlegal hrun
  rw [IteratorState.equal, Bool.and_eq_true, beq_iff_eq, beq_iff_eq] at hequal
  obtain ⟨hstring, hnext⟩ := hequal
  rw [← hi.currentOffset_eq_iff hj hnext]
  constructor
  · rintro ⟨hcontents, hvalues⟩
    have hnil := substringContent_eq_nil hwin hinv ha hi hvacant htemporary
    rw [hcontents i hi] at hnil
    exact ⟨currentOffset_eq_of_substringContent hi.within.string hj.within.string hnil,
      fun hbefore hbefore' _ => hvalues hbefore hbefore'⟩
  · rintro ⟨hcurrent, hkept⟩
    have hsame : i.toStringIterator = j.toStringIterator :=
      calc i.toStringIterator = ⟨i.string, i.currentOffset⟩ := rfl
        _ = ⟨j.string, j.currentOffset⟩ := by rw [hstring, hcurrent]
    refine ⟨fun f _ => by rw [hsame], fun hbefore hbefore' => ?_⟩
    by_cases hwhole : s.OnWhole chars i ∧ s.OnWhole chars j
    · exact hi.dereference_eq hj (fun _ hview => hwin.length_le_view ha hview) hcurrent
        hwhole.1 hwhole.2 hbefore
    · exact hkept hbefore hbefore' hwhole

/-- The first code point of `"a"`, by `begin()` and by `--end()`. -/
theorem run_congruent_iff_sample : ∃ os s i last j,
    exec (step fun _ => [0x61]) start [.wrap 1 0x10] = some (os, s) ∧
      s.begin (fun _ => [0x61]) 1 0 = some ([], i) ∧
      s.end (fun _ => [0x61]) 1 7 = some ([], last) ∧
      s.decrement (fun _ => [0x61]) last = some ([], j) ∧
      Congruent (fun _ => [0x61]) s 2 none 1 i j := by
  have hlegal : Along (step fun _ => [0x61]) WindowLegal start [.wrap 1 0x10] := by decide
  refine ⟨_, _, _, _, _, rfl, rfl, rfl, rfl, ?_⟩
  refine (run_congruent_iff hlegal rfl (by decide) (@Reached.begin _ _ _ 0 _ _ rfl)
    (@Reached.move _ _ _ .decrement _ _ _ (@Reached.end _ _ _ 7 _ _ rfl) rfl) (by decide)
    (by decide) ?_).mpr ⟨by decide, fun _ _ _ => rfl⟩
  trivial

/-- **`"a"` up to `begin()` is empty, and up to `end()`, which equals it, is not.** -/
theorem not_run_congruent : ¬ ∀ (chars : UInt64 → List UInt8) (calls : List StringCall)
    (os : List Unit) (s : Strings), Along (step chars) WindowLegal start calls →
      exec (step chars) start calls = some (os, s) → ∀ a ∈ s.live,
        ∀ i j, Reached chars s a i → Reached chars s a j → i.equal j = true →
          ∀ target temporary, s.Vacant target → s.VacantBeside target temporary →
            Congruent chars s target temporary a i j := by
  intro h
  obtain ⟨hcontents, -⟩ := h (fun _ => [0x61]) [.wrap 1 0x10] _ _ (by decide) rfl 1 (by decide) _ _
    (@Reached.begin _ _ _ 0 _ _ rfl) (@Reached.end _ _ _ 0 _ _ rfl) (by decide) 2 none (by decide)
    trivial
  have hbegin := hcontents _ (@Reached.begin _ _ _ 0 _ _ rfl)
  exact absurd hbegin (by decide)

end Strings

end Hologine.Text
