import Hologine.Text.StringWindow
import Hologine.Text.Utf8Sequences

/-!
# Iterating over a string

Model of `holo::string_iterator` (`core/text/string_iterator.cpp:30-160`) and of `string::begin` and
`string::end` (`core/text/string.cpp:74-82`). An iterator is on the string at an address. The
functions give back the exceptions they push beside the iterator they leave; what terminates the
program or fails an assertion is `none`.

`decrement` and the constructor look at `string->buffer`, the member of the union a managed string
uses, whatever the string is: `hasBuffer` says whether the pointer in the union is null.

The slip of the source is in `equal`, which compares where the next sequence starts: on the last
code point that is where the string ends, so the iterator there equals `end()`.

Results:
* `At.step`: an iterator on a code point that moves stays on the code points, in both directions.
* `run_iterator`: so it does on every walk from `begin()` and from `--end()`.
* `traverse_eq`: a loop from `begin()` to `end()` visits all code points but the last.
* `fullTraversal_iff`: it visits all of them **iff** there are none.
-/

namespace Hologine.Text

open Hologine.Library Hologine.Library.Run

/-- A `string_iterator`, with the members that `substring` does not read. -/
structure IteratorState extends StringIterator where
  nextOffset : UInt64
  cachedCodePointValue : UInt32
  isValid : Bool
  deriving Repr, DecidableEq

namespace IteratorState

/-- `string_iterator::dereference`. -/
def dereference (i : IteratorState) : UInt32 := i.cachedCodePointValue

/-- `string_iterator::equal`. -/
def equal (i other : IteratorState) : Bool :=
  i.string == other.string && i.nextOffset == other.nextOffset

/-- Where a move that gets nowhere leaves an iterator: where it was, or there and not valid. -/
def Stays (i i' : IteratorState) : Prop :=
  i' = i ∨ i'.toStringIterator = i.toStringIterator ∧ i'.nextOffset = i.nextOffset ∧
    i'.isValid = false

end IteratorState

/-- Whether the pointer in the union is not null. -/
def StringObject.hasBuffer (o : StringObject) : Bool :=
  match o.storage with
  | .managed buffer => buffer.isSome
  | .unmanaged constString => constString != 0

/-- The search for "the correct buffer"; there is none if the pointer is null. -/
def BufferHeap.findBuffer (h : BufferHeap) (o : StringObject) : Option (Option DataPointer) :=
  match o.storage with
  | .managed (some b) => do
    let record ← h.getBuffer (some b)
    some (some (.data record.data))
  | .managed none => some none
  | .unmanaged constString =>
    some (if constString ≠ 0 then some (.constString constString) else none)

/-- The moves of an iterator. -/
inductive IteratorCall
  | increment
  | decrement
  deriving Repr, DecidableEq

namespace Strings

variable (chars : UInt64 → List UInt8)

/-- `string_iterator::increment`. -/
def increment (s : Strings) (i : IteratorState) : Option (List ExceptionCode × IteratorState) :=
  if i.string ≠ 0 then
    if i.isValid then do
      let o := s.string i.string
      match ← s.heap.findBuffer o with
      | some pointer => do
        let data ← s.heap.charactersAt chars pointer
        let (exception, nextOffset, value) ←
          utf8Increment (data.drop o.offset.toNat) o.length i.nextOffset i.cachedCodePointValue
        if exception ≠ .none then
          some ([exception],
            { i with nextOffset := nextOffset, cachedCodePointValue := value, isValid := false })
        else
          some ([], { i with
            currentOffset := i.nextOffset
            nextOffset := nextOffset
            cachedCodePointValue := value })
      | none => some ([], i)
    else none
  else some ([], i)

/-- `string_iterator::decrement`. -/
def decrement (s : Strings) (i : IteratorState) : Option (List ExceptionCode × IteratorState) :=
  if i.string ≠ 0 then
    if i.isValid then do
      let o := s.string i.string
      let buffer ← s.heap.findBuffer o
      if o.hasBuffer then do
        let pointer ← buffer
        let data ← s.heap.charactersAt chars pointer
        let (exception, currentOffset, value) ←
          utf8Decrement (data.drop o.offset.toNat) i.currentOffset i.cachedCodePointValue
        if exception ≠ .none then
          some ([exception], { i with
            currentOffset := currentOffset
            cachedCodePointValue := value
            isValid := false })
        else
          some ([], { i with
            currentOffset := currentOffset
            nextOffset := i.currentOffset
            cachedCodePointValue := value })
      else some ([], i)
    else none
  else some ([], i)

/-- A move. -/
def move (s : Strings) (i : IteratorState) :
    IteratorCall → Option (List ExceptionCode × IteratorState)
  | .increment => s.increment chars i
  | .decrement => s.decrement chars i

/-- `string_iterator::string_iterator(const holo::string*, std::size_t)`, which leaves the value
as the memory has it. -/
def stringIterator (s : Strings) (string offset : UInt64) (uninitialized : UInt32) :
    Option (List ExceptionCode × IteratorState) :=
  -- the two assertions
  if string ≠ 0 ∧ ((s.string string).hasBuffer ∨ offset = 0) then
    let i : IteratorState := ⟨⟨string, offset⟩, offset, uninitialized, true⟩
    if offset < (s.string string).length then s.increment chars i else some ([], i)
  else none

/-- `string::begin`. -/
def begin (s : Strings) (string : UInt64) (uninitialized : UInt32) :
    Option (List ExceptionCode × IteratorState) :=
  s.stringIterator chars string 0 uninitialized

/-- `string::end`. -/
def «end» (s : Strings) (string : UInt64) (uninitialized : UInt32) :
    Option (List ExceptionCode × IteratorState) :=
  s.stringIterator chars string (s.string string).length uninitialized

/-- The loop `for (; i != s.end(); ++i)`: the iterators its body sees and the one it ends with.
`fuel` bounds the passes. -/
def traverse (s : Strings) (string : UInt64) (uninitialized : UInt32) :
    Nat → IteratorState → Option (List IteratorState × IteratorState)
  | 0, _ => none
  | fuel + 1, i => do
    let (_, last) ← s.end chars string uninitialized
    if i.equal last then some ([], i)
    else
      let (_, next) ← s.increment chars i
      let (visited, final) ← s.traverse string uninitialized fuel next
      some (i :: visited, final)

end Strings

/-- What a string spells, in an iterator's view: nothing if the pointer is null, and else its
window. -/
def BufferHeap.Spells (chars : UInt64 → List UInt8) (h : BufferHeap) (o : StringObject)
    (bytes : List UInt8) : Prop :=
  (o.hasBuffer = false ∧ o.length = 0 ∧ bytes = []) ∨
  ∃ pointer data, h.findBuffer o = some (some pointer) ∧ h.charactersAt chars pointer = some data ∧
    o.offset.toNat + o.length.toNat ≤ data.length ∧
    bytes = (data.drop o.offset.toNat).take o.length.toNat

namespace Strings

/-- The string at an address is made of the sequences. -/
structure MadeOf (chars : UInt64 → List UInt8) (s : Strings) (a : UInt64)
    (qs : List Utf8Sequence) : Prop where
  nonnull : a ≠ 0
  spells : s.heap.Spells chars (s.string a) (joined qs)

/-- **An iterator on the `j`-th code point** of a string: it is valid, has the code point, and its
offsets are where the sequence starts and ends. -/
structure At (qs : List Utf8Sequence) (a : UInt64) (j : Nat) (i : IteratorState) : Prop where
  string : i.string = a
  valid : i.isValid = true
  codePoint : qs[j]?.map Utf8Sequence.codePoint = some i.dereference
  current : i.currentOffset.toNat = startOf qs j
  next : i.nextOffset.toNat = startOf qs (j + 1)

/-- Where moves lead from the `j`-th of `k` places, if not out of them. -/
def position (k : Nat) : Nat → List IteratorCall → Option Nat
  | j, [] => some j
  | j, .increment :: calls => if j + 1 < k then position k (j + 1) calls else none
  | j, .decrement :: calls => if 0 < j then position k (j - 1) calls else none

/-! ## One move -/

variable {chars : UInt64 → List UInt8} {s : Strings} {a : UInt64} {qs : List Utf8Sequence}
  {i : IteratorState} {j : Nat}

/-- The correct buffer is what the pointer in the union points to. -/
theorem hasBuffer_of_findBuffer {h : BufferHeap} {o : StringObject} {pointer : DataPointer}
    (hfind : h.findBuffer o = some (some pointer)) : o.hasBuffer = true := by
  unfold BufferHeap.findBuffer at hfind
  unfold StringObject.hasBuffer
  cases hs : o.storage with
  | managed buffer =>
    cases buffer with
    | none => simp [hs] at hfind
    | some b => rfl
  | unmanaged constString =>
    by_cases hzero : constString = 0
    · simp [hs, hzero] at hfind
    · simpa using hzero

/-- The iterators of an empty string, whatever pointer it has, are at its end. -/
theorem stringIterator_of_empty (ha : a ≠ 0) (hlength : (s.string a).length = 0)
    (uninitialized : UInt32) : s.stringIterator chars a 0 uninitialized =
      some ([], ⟨⟨a, 0⟩, 0, uninitialized, true⟩) := by
  rw [stringIterator, if_pos ⟨ha, .inr rfl⟩, hlength, if_neg (UInt64.lt_irrefl _)]

/-- **What a step forward leaves**: an iterator where it was, or one that is where its step, which
was no exception, has led. -/
theorem increment_leaves {pushed : List ExceptionCode} {i' : IteratorState}
    (hrun : s.increment chars i = some (pushed, i')) :
    i.Stays i' ∨ ∃ pointer data,
      s.heap.findBuffer (s.string i.string) = some (some pointer) ∧
      s.heap.charactersAt chars pointer = some data ∧
      utf8Increment (data.drop (s.string i.string).offset.toNat) (s.string i.string).length
        i.nextOffset i.cachedCodePointValue =
          some (.none, i'.nextOffset, i'.cachedCodePointValue) ∧
      i'.string = i.string ∧ i'.currentOffset = i.nextOffset ∧ i'.isValid = true := by
  unfold Strings.increment at hrun
  split_ifs at hrun with hstring hvalid
  · obtain ⟨buffer, hfind, hrun⟩ := Option.bind_eq_some_iff.mp hrun
    cases buffer with
    | none =>
      obtain ⟨-, rfl⟩ := Prod.mk.inj (Option.some.inj hrun)
      exact .inl (.inl rfl)
    | some pointer =>
      obtain ⟨data, hdata, hrun⟩ := Option.bind_eq_some_iff.mp hrun
      obtain ⟨⟨exception, nextOffset, value⟩, hincrement, hrun⟩ := Option.bind_eq_some_iff.mp hrun
      dsimp only at hrun
      split_ifs at hrun with hexception
      · obtain ⟨-, rfl⟩ := Prod.mk.inj (Option.some.inj hrun)
        obtain ⟨-, hstays⟩ := (utf8Increment_leaves hincrement).resolve_right
          fun h => hexception (h.elim And.left And.left)
        exact .inl (.inr ⟨rfl, hstays, rfl⟩)
      · obtain ⟨-, rfl⟩ := Prod.mk.inj (Option.some.inj hrun)
        obtain rfl := not_not.mp hexception
        exact .inr ⟨pointer, data, hfind, hdata, hincrement, rfl, rfl, hvalid⟩
  · obtain ⟨-, rfl⟩ := Prod.mk.inj (Option.some.inj hrun)
    exact .inl (.inl rfl)

/-- **What a step back leaves.** -/
theorem decrement_leaves {pushed : List ExceptionCode} {i' : IteratorState}
    (hrun : s.decrement chars i = some (pushed, i')) :
    i.Stays i' ∨ ∃ pointer data,
      s.heap.findBuffer (s.string i.string) = some (some pointer) ∧
      s.heap.charactersAt chars pointer = some data ∧
      utf8Decrement (data.drop (s.string i.string).offset.toNat) i.currentOffset
        i.cachedCodePointValue = some (.none, i'.currentOffset, i'.cachedCodePointValue) ∧
      i'.string = i.string ∧ i'.nextOffset = i.currentOffset ∧ i'.isValid = true := by
  unfold Strings.decrement at hrun
  split_ifs at hrun with hstring hvalid
  · obtain ⟨buffer, hfind, hrun⟩ := Option.bind_eq_some_iff.mp hrun
    split_ifs at hrun
    · obtain ⟨pointer, hpointer, hrun⟩ := Option.bind_eq_some_iff.mp hrun
      obtain ⟨data, hdata, hrun⟩ := Option.bind_eq_some_iff.mp hrun
      obtain ⟨⟨exception, currentOffset, value⟩, hdecrement, hrun⟩ :=
        Option.bind_eq_some_iff.mp hrun
      rw [hpointer] at hfind
      dsimp only at hrun
      split_ifs at hrun with hexception
      · obtain ⟨-, rfl⟩ := Prod.mk.inj (Option.some.inj hrun)
        obtain ⟨-, hstays⟩ := (utf8Decrement_leaves hdecrement).resolve_right
          fun h => hexception (h.elim And.left And.left)
        exact .inl (.inr ⟨congrArg (StringIterator.mk i.string) hstays, rfl, rfl⟩)
      · obtain ⟨-, rfl⟩ := Prod.mk.inj (Option.some.inj hrun)
        obtain rfl := not_not.mp hexception
        exact .inr ⟨pointer, data, hfind, hdata, hdecrement, rfl, rfl, hvalid⟩
    · obtain ⟨-, rfl⟩ := Prod.mk.inj (Option.some.inj hrun)
      exact .inl (.inl rfl)
  · obtain ⟨-, rfl⟩ := Prod.mk.inj (Option.some.inj hrun)
    exact .inl (.inl rfl)

/-- A string with characters: where they are, and that they start with the sequences. -/
theorem MadeOf.characters (hmade : s.MadeOf chars a qs) (hqs : qs ≠ []) :
    ∃ pointer data, s.heap.findBuffer (s.string a) = some (some pointer) ∧
      s.heap.charactersAt chars pointer = some data ∧ (s.string a).hasBuffer = true ∧
      joined qs <+: data.drop (s.string a).offset.toNat ∧
      (s.string a).length.toNat ≤ (data.drop (s.string a).offset.toNat).length ∧
      startOf qs qs.length = (s.string a).length.toNat := by
  rcases hmade.spells with ⟨-, -, hnil⟩ | ⟨pointer, data, hfind, hdata, hfits, hbytes⟩
  · obtain ⟨q, qs, rfl⟩ := List.exists_cons_of_ne_nil hqs
    exact absurd (List.append_eq_nil_iff.mp hnil).1 q.bytes_ne_nil
  · refine ⟨pointer, data, hfind, hdata, ?_, hbytes ▸ List.take_prefix _ _, ?_, ?_⟩
    · exact hasBuffer_of_findBuffer hfind
    · rw [List.length_drop]
      omega
    · rw [startOf_length, hbytes, List.length_take, List.length_drop]
      omega

/-- The sequences of a string start before its end. -/
theorem MadeOf.startOf_le (hmade : s.MadeOf chars a qs) (hj : j < qs.length) :
    startOf qs (j + 1) ≤ (s.string a).length.toNat := by
  obtain ⟨_, _, -, -, -, -, -, hend⟩ := hmade.characters (List.ne_nil_of_length_pos (by omega))
  rw [← hend]
  exact startOf_mono hj (Nat.le_refl _)

/-- A step forward over a sequence. -/
theorem MadeOf.increment (hmade : s.MadeOf chars a qs) (hj : j < qs.length)
    (hstring : i.string = a) (hvalid : i.isValid = true)
    (hnext : i.nextOffset.toNat = startOf qs j) :
    ∃ i', s.increment chars i = some ([], i') ∧ At qs a j i' := by
  obtain ⟨pointer, data, hfind, hdata, -, hpre, hlength, -⟩ :=
    hmade.characters (List.ne_nil_of_length_pos (by omega))
  have hle := hmade.startOf_le hj
  have hlt := (s.string a).length.toNat_lt
  have hstart : i.nextOffset = .ofNat (startOf qs j) := by rw [← hnext, UInt64.ofNat_toNat]
  have hrun := utf8Increment_startOf hpre hlength hj hle i.cachedCodePointValue
  refine ⟨{ i with
    currentOffset := i.nextOffset
    nextOffset := .ofNat (startOf qs (j + 1))
    cachedCodePointValue := qs[j].codePoint }, ?_, hstring, hvalid, ?_, hnext, ?_⟩
  · rw [Strings.increment, if_pos (hstring ▸ hmade.nonnull), if_pos hvalid, hstring]
    simp only [hfind, hdata, hstart, hrun, Option.bind_eq_bind, Option.bind_some]
    rfl
  · rw [List.getElem?_eq_getElem hj]
    rfl
  · exact toNat_startOf (by omega)

/-- A step back over a sequence. -/
theorem MadeOf.decrement (hmade : s.MadeOf chars a qs) (hj : j < qs.length)
    (hstring : i.string = a) (hvalid : i.isValid = true)
    (hcurrent : i.currentOffset.toNat = startOf qs (j + 1)) :
    ∃ i', s.decrement chars i = some ([], i') ∧ At qs a j i' := by
  obtain ⟨pointer, data, hfind, hdata, hbuffer, hpre, hlength, -⟩ :=
    hmade.characters (List.ne_nil_of_length_pos (by omega))
  have hle := hmade.startOf_le hj
  have hlt := (s.string a).length.toNat_lt
  have hstart : i.currentOffset = .ofNat (startOf qs (j + 1)) := by
    rw [← hcurrent, UInt64.ofNat_toNat]
  have hrun := utf8Decrement_startOf hpre hj (by omega) (by omega) i.cachedCodePointValue
  refine ⟨{ i with
    currentOffset := .ofNat (startOf qs j)
    nextOffset := i.currentOffset
    cachedCodePointValue := qs[j].codePoint }, ?_, hstring, hvalid, ?_, ?_, hcurrent⟩
  · rw [Strings.decrement, if_pos (hstring ▸ hmade.nonnull), if_pos hvalid, hstring]
    simp only [hfind, hdata, hbuffer, hstart, hrun, Option.bind_eq_bind, Option.bind_some]
    rfl
  · rw [List.getElem?_eq_getElem hj]
    rfl
  · have hstep := startOf_lt hj
    exact toNat_startOf (by omega)

theorem At.lt_length (hat : At qs a j i) : j < qs.length := by
  obtain ⟨q, hq, -⟩ := Option.map_eq_some_iff.mp hat.codePoint
  exact (List.getElem?_eq_some_iff.mp hq).1

/-- **A move stays on the code points.** -/
theorem At.step (hmade : s.MadeOf chars a qs) (hat : At qs a j i) {call : IteratorCall} {j' : Nat}
    (hposition : position qs.length j [call] = some j') :
    ∃ i', s.move chars i call = some ([], i') ∧ At qs a j' i' := by
  cases call with
  | increment =>
    simp only [position] at hposition
    split_ifs at hposition with hj
    obtain rfl := Option.some.inj hposition
    exact hmade.increment hj hat.string hat.valid hat.next
  | decrement =>
    simp only [position] at hposition
    split_ifs at hposition with hj
    obtain rfl := Option.some.inj hposition
    have hlt := hat.lt_length
    refine hmade.decrement (by omega) hat.string hat.valid ?_
    rw [Nat.sub_add_cancel hj]
    exact hat.current

/-- A walk takes its first move and then the others. -/
theorem position_cons {k j' : Nat} {call : IteratorCall} {calls : List IteratorCall}
    (h : position k j (call :: calls) = some j') :
    ∃ m, position k j [call] = some m ∧ position k m calls = some j' := by
  cases call with
  | increment =>
    simp only [position] at h ⊢
    split_ifs at h ⊢
    exact ⟨_, rfl, h⟩
  | decrement =>
    simp only [position] at h ⊢
    split_ifs at h ⊢
    exact ⟨_, rfl, h⟩

/-- Every walk from an iterator that stays within the string leads to the code points it passes. -/
def WalksFrom (chars : UInt64 → List UInt8) (s : Strings) (qs : List Utf8Sequence) (a : UInt64)
    (j : Nat) (i : IteratorState) : Prop :=
  ∀ calls j', position qs.length j calls = some j' →
    ∃ pushed i', exec (s.move chars) i calls = some (pushed, i') ∧ At qs a j' i'

theorem At.walksFrom (hmade : s.MadeOf chars a qs) (hat : At qs a j i) :
    WalksFrom chars s qs a j i := by
  intro calls
  induction calls generalizing j i with
  | nil =>
    rintro j' hposition
    obtain rfl := Option.some.inj hposition
    exact ⟨[], i, rfl, hat⟩
  | cons call calls ih =>
    intro j' hposition
    obtain ⟨m, hfirst, hrest⟩ := position_cons hposition
    obtain ⟨i₁, hmove, hat₁⟩ := hat.step hmade hfirst
    obtain ⟨pushed, i', hrun, hat'⟩ := ih hat₁ j' hrest
    exact ⟨[] :: pushed, i', exec_cons_eq_some.mpr ⟨[], pushed, i₁, hmove, hrun, rfl⟩, hat'⟩

/-! ## Walks -/

/-- The iterators a string gives out have the string's assertions on their side. -/
theorem MadeOf.stringIterator (hmade : s.MadeOf chars a qs) (hqs : qs ≠ []) (offset : UInt64)
    (uninitialized : UInt32) : s.stringIterator chars a offset uninitialized =
      if offset < (s.string a).length then
        s.increment chars ⟨⟨a, offset⟩, offset, uninitialized, true⟩
      else some ([], ⟨⟨a, offset⟩, offset, uninitialized, true⟩) := by
  obtain ⟨_, _, -, -, hbuffer, -⟩ := hmade.characters hqs
  rw [Strings.stringIterator, if_pos ⟨hmade.nonnull, .inl hbuffer⟩]

/-- **`begin()` is on the first code point.** -/
theorem MadeOf.begin (hmade : s.MadeOf chars a qs) (hqs : qs ≠ []) (uninitialized : UInt32) :
    ∃ i, s.begin chars a uninitialized = some ([], i) ∧ At qs a 0 i := by
  have hpos : 0 < qs.length := List.length_pos_of_ne_nil hqs
  have hlength : (0 : UInt64) < (s.string a).length := by
    have hle := hmade.startOf_le hpos
    have hlt := startOf_lt hpos
    rw [UInt64.lt_iff_toNat_lt, UInt64.toNat_zero]
    omega
  rw [Strings.begin, hmade.stringIterator hqs, if_pos hlength]
  exact hmade.increment hpos rfl rfl rfl

/-- **`end()` is where the last sequence ends.** -/
theorem MadeOf.end (hmade : s.MadeOf chars a qs) (hqs : qs ≠ []) (uninitialized : UInt32) :
    s.end chars a uninitialized =
      some ([], ⟨⟨a, (s.string a).length⟩, (s.string a).length, uninitialized, true⟩) := by
  rw [Strings.end, hmade.stringIterator hqs, if_neg (UInt64.lt_irrefl _)]

/-- **Walks keep to the code points**: from `begin()`, and from `--end()`, every sequence of moves
that does not leave the string leads to an iterator that is on the code point it should be. -/
theorem run_iterator (hmade : s.MadeOf chars a qs) (hqs : qs ≠ []) (uninitialized : UInt32) :
    (∃ i, s.begin chars a uninitialized = some ([], i) ∧ WalksFrom chars s qs a 0 i) ∧
    ∃ last i, s.end chars a uninitialized = some ([], last) ∧
      s.decrement chars last = some ([], i) ∧ WalksFrom chars s qs a (qs.length - 1) i := by
  obtain ⟨i, hbegin, hat⟩ := hmade.begin hqs uninitialized
  obtain ⟨_, _, -, -, -, -, -, hend⟩ := hmade.characters hqs
  have hpos : 0 < qs.length := List.length_pos_of_ne_nil hqs
  have hlast : (s.string a).length.toNat = startOf qs (qs.length - 1 + 1) := by
    rw [Nat.sub_add_cancel hpos, hend]
  obtain ⟨i', hdecrement, hat'⟩ := hmade.decrement
    (i := ⟨⟨a, (s.string a).length⟩, (s.string a).length, uninitialized, true⟩)
    (Nat.sub_lt hpos Nat.one_pos) rfl rfl hlast
  exact ⟨⟨i, hbegin, hat.walksFrom hmade⟩, _, i', hmade.end hqs uninitialized, hdecrement,
    hat'.walksFrom hmade⟩

/-- The characters `"añ"`. -/
def sampleText : List UInt8 := [0x61, 0xc3, 0xb1]

/-- A string that wraps them. -/
def sampleString : Strings := start.construct 1 ⟨.unmanaged 0x10, 0, 3⟩

/-- Its sequences. -/
def sampleSequences : List Utf8Sequence :=
  [⟨[0x61], 0x61, by decide⟩, ⟨[0xc3, 0xb1], 0xf1, by decide⟩]

theorem sampleString_madeOf : sampleString.MadeOf (fun _ => sampleText) 1 sampleSequences :=
  ⟨by decide, .inr ⟨.constString 0x10, sampleText, rfl, rfl, by decide, rfl⟩⟩

theorem run_iterator_sample :
    (∃ i, sampleString.begin (fun _ => sampleText) 1 0 = some ([], i) ∧
      WalksFrom (fun _ => sampleText) sampleString sampleSequences 1 0 i) ∧
    ∃ last i, sampleString.end (fun _ => sampleText) 1 0 = some ([], last) ∧
      sampleString.decrement (fun _ => sampleText) last = some ([], i) ∧
      WalksFrom (fun _ => sampleText) sampleString sampleSequences 1 1 i :=
  run_iterator sampleString_madeOf (List.cons_ne_nil _ _) 0

/-! ## The loop over a string -/

/-- An iterator on a code point equals `end()` iff the code point is the last. -/
theorem At.equal_end (hmade : s.MadeOf chars a qs) (hat : At qs a j i) (uninitialized : UInt32) :
    i.equal ⟨⟨a, (s.string a).length⟩, (s.string a).length, uninitialized, true⟩ = true ↔
      j + 1 = qs.length := by
  have hj := hat.lt_length
  obtain ⟨_, _, -, -, -, -, -, hend⟩ := hmade.characters (List.ne_nil_of_length_pos (by omega))
  unfold IteratorState.equal
  have hnext : i.nextOffset = (s.string a).length ↔ startOf qs (j + 1) = startOf qs qs.length := by
    rw [← UInt64.toNat_inj, hat.next, hend]
  rw [hat.string, Bool.and_eq_true, beq_iff_eq, beq_iff_eq, hnext]
  exact ⟨fun h => startOf_inj hj (Nat.le_refl _) h.2, fun h => ⟨rfl, by rw [h]⟩⟩

/-- The code point of an iterator and those after it. -/
theorem At.drop_eq_cons (hat : At qs a j i) : (qs.map Utf8Sequence.codePoint).drop j =
    i.dereference :: (qs.map Utf8Sequence.codePoint).drop (j + 1) := by
  have hcode := hat.codePoint
  rw [← List.getElem?_map] at hcode
  obtain ⟨hlt, hget⟩ := List.getElem?_eq_some_iff.mp hcode
  rw [List.drop_eq_getElem_cons hlt, hget]

/-- **The loop ends, and visits all code points from where it starts but the last.** -/
theorem At.traverse_eq (hmade : s.MadeOf chars a qs) (uninitialized : UInt32) {fuel : Nat}
    (hat : At qs a j i) (hfuel : qs.length ≤ j + fuel) :
    ∃ visited final, s.traverse chars a uninitialized fuel i = some (visited, final) ∧
      visited.map IteratorState.dereference =
        ((qs.map Utf8Sequence.codePoint).drop j).dropLast := by
  have hj := hat.lt_length
  have hqs : qs ≠ [] := List.ne_nil_of_length_pos (by omega)
  have hequal := hat.equal_end hmade uninitialized
  induction fuel generalizing i j with
  | zero => omega
  | succ fuel ih =>
    rw [traverse, hmade.end hqs, Option.bind_eq_bind, Option.bind_some]
    dsimp only
    by_cases hlast : j + 1 = qs.length
    · refine ⟨[], i, if_pos (hequal.mpr hlast), ?_⟩
      rw [hat.drop_eq_cons, List.drop_of_length_le (by rw [List.length_map]; omega)]
      rfl
    · obtain ⟨i', hrun, hat'⟩ :=
        hmade.increment (by omega : j + 1 < qs.length) hat.string hat.valid hat.next
      obtain ⟨visited, final, hrest, hvisited⟩ :=
        ih hat' (by omega) hat'.lt_length (hat'.equal_end hmade uninitialized)
      refine ⟨i :: visited, final, ?_, ?_⟩
      · rw [if_neg (mt hequal.mp hlast), hrun, Option.bind_eq_bind, Option.bind_some, hrest]
        rfl
      · rw [List.map_cons, hvisited, hat.drop_eq_cons, hat'.drop_eq_cons]
        rfl

/-- More passes than a loop needs do not change it. -/
theorem traverse_mono {string : UInt64} {uninitialized : UInt32} {fuel fuel' : Nat}
    (hle : fuel ≤ fuel') {r : List IteratorState × IteratorState}
    (hrun : s.traverse chars string uninitialized fuel i = some r) :
    s.traverse chars string uninitialized fuel' i = some r := by
  induction fuel generalizing i fuel' r with
  | zero => exact absurd hrun nofun
  | succ fuel ih =>
    obtain ⟨fuel', rfl⟩ := Nat.exists_eq_add_of_le' hle
    rw [← Nat.add_assoc, traverse]
    rw [traverse] at hrun
    obtain ⟨⟨_, last⟩, hend, hrun⟩ := Option.bind_eq_some_iff.mp hrun
    rw [hend, Option.bind_eq_bind, Option.bind_some]
    dsimp only at hrun ⊢
    split_ifs at hrun ⊢ with hequal
    · exact hrun
    · obtain ⟨⟨_, next⟩, hnext, hrun⟩ := Option.bind_eq_some_iff.mp hrun
      obtain ⟨⟨visited, final⟩, hrest, hrun⟩ := Option.bind_eq_some_iff.mp hrun
      rw [hnext, Option.bind_eq_bind, Option.bind_some, ih (by omega) hrest]
      exact hrun

/-- **The loop from `begin()` to `end()` visits every code point**: it ends, its iterators are all
valid, and they dereference to the code points, in order and each once. -/
def FullTraversal (chars : UInt64 → List UInt8) (s : Strings) (a : UInt64)
    (qs : List Utf8Sequence) : Prop :=
  ∀ uninitialized, ∃ pushed i fuel visited final,
    s.begin chars a uninitialized = some (pushed, i) ∧
      s.traverse chars a uninitialized fuel i = some (visited, final) ∧
      (∀ i ∈ visited, i.isValid) ∧ final.isValid ∧
      visited.map IteratorState.dereference = qs.map Utf8Sequence.codePoint

/-- **The loop visits every code point iff there is none.** -/
theorem fullTraversal_iff (hmade : s.MadeOf chars a qs) :
    FullTraversal chars s a qs ↔ qs = [] := by
  constructor
  · intro hfull
    by_contra hqs
    obtain ⟨_, i, fuel, visited, final, hbegin, hrun, -, -, hvisited⟩ := hfull 0
    obtain ⟨i', hbegin', hat⟩ := hmade.begin hqs 0
    obtain ⟨-, rfl⟩ := Prod.mk.inj (Option.some.inj (hbegin.symm.trans hbegin'))
    obtain ⟨visited', final', hrun', hvisited'⟩ :=
      hat.traverse_eq hmade 0 (Nat.le_add_left qs.length 0)
    -- both runs are the one with the passes of the two together
    have hall := traverse_mono (Nat.le_add_right fuel qs.length) hrun
    rw [traverse_mono (Nat.le_add_left qs.length fuel) hrun'] at hall
    obtain ⟨rfl, -⟩ := Prod.mk.inj (Option.some.inj hall)
    rw [hvisited, List.drop_zero] at hvisited'
    have hlength := congrArg List.length hvisited'
    rw [List.length_dropLast, List.length_map] at hlength
    exact hqs (List.length_eq_zero_iff.mp (by omega))
  · rintro rfl uninitialized
    have hempty : (s.string a).length = 0 := by
      rcases hmade.spells with ⟨-, hzero, -⟩ | ⟨_, data, -, -, hfits, hbytes⟩
      · exact hzero
      · have hlength := congrArg List.length hbytes
        rw [List.length_take, List.length_drop] at hlength
        refine UInt64.toNat_inj.mp ?_
        have hnil : (joined []).length = 0 := rfl
        rw [UInt64.toNat_zero]
        omega
    have hiterator : s.stringIterator chars a 0 uninitialized = _ :=
      stringIterator_of_empty hmade.nonnull hempty uninitialized
    refine ⟨[], _, 1, [], ⟨⟨a, 0⟩, 0, uninitialized, true⟩, hiterator, ?_, ?_, rfl, rfl⟩
    · rw [traverse, Strings.end, hempty, hiterator, Option.bind_eq_bind, Option.bind_some]
      simp [IteratorState.equal]
    · exact fun i hi => absurd hi List.not_mem_nil

theorem fullTraversal_iff_sample :
    FullTraversal (fun _ => sampleText) sampleString 1 sampleSequences ↔ sampleSequences = [] :=
  fullTraversal_iff sampleString_madeOf

/-- **A loop over `"a"` visits nothing.** -/
theorem not_fullTraversal : ¬ ∀ (chars : UInt64 → List UInt8) (s : Strings) (a : UInt64)
    (qs : List Utf8Sequence), s.MadeOf chars a qs → FullTraversal chars s a qs := by
  intro h
  have hmade : (start.construct 1 ⟨.unmanaged 0x10, 0, 1⟩).MadeOf (fun _ => [0x61]) 1
      [⟨[0x61], 0x61, by decide⟩] :=
    ⟨by decide, .inr ⟨.constString 0x10, [0x61], rfl, rfl, by decide, rfl⟩⟩
  obtain ⟨_, i, fuel, visited, final, hbegin, hrun, -, -, hvisited⟩ := h _ _ _ _ hmade 0
  obtain ⟨-, rfl⟩ := Prod.mk.inj (Option.some.inj hbegin)
  -- the first pass finds the iterator equal to `end()`
  have hnone : ∀ fuel, Strings.traverse (fun _ => [0x61])
      (start.construct 1 ⟨.unmanaged 0x10, 0, 1⟩) 1 0 (fuel + 1)
      ⟨⟨1, 0⟩, 1, 0x61, true⟩ = some ([], ⟨⟨1, 0⟩, 1, 0x61, true⟩) := fun _ => rfl
  cases fuel with
  | zero => exact absurd hrun nofun
  | succ fuel =>
    obtain ⟨rfl, -⟩ := Prod.mk.inj (Option.some.inj ((hnone fuel).symm.trans hrun))
    exact absurd hvisited nofun

end Strings

end Hologine.Text
