import Hologine.Library.Bytes
import Hologine.Text.Format
import Hologine.Text.StringWindow

/-!
# Building strings

Model of `holo::string_builder` (`core/text/string_builder.cpp:18-27, 46-149`) and of
`format::integer::append_format` (`core/text/format.hpp:269-287`). The buffers of a builder are the
blocks it has allocated, by when it allocated them; every allocation succeeds. What a block has
before it is written is passed in, as is what `std::snprintf` prints for a format string, a width
and a value.

Slips of the source:
* the constructor does not set `length`, and `request_buffer` does not add to it: it stays what the
  memory had;
* `to_string` sets the length of the buffer it makes and not that of the string, which stays zero;
* `append_format` asks for a buffer of one byte more than the text, and the terminator stays in it.

Results:
* `Linked.step`: every append links one more buffer to the others, with what it appends.
* `copyBuffers_eq`: the loop of `to_string` copies the buffers, one after another.
* `length_toString`: the string has no length, whatever was appended.
* `buildsConcatenation_iff`: so it is the concatenation of the texts **iff** they are all empty.
-/

namespace Hologine.Text

open Hologine.Library Hologine.Library.Bytes Hologine.Library.Run

/-- `string_builder::character_buffer`, with what has been written to the characters behind it. -/
structure CharacterBuffer where
  next : Option Nat
  length : UInt64
  data : List UInt8
  deriving Repr, DecidableEq

/-- A `string_builder`, and the blocks it has allocated. -/
structure StringBuilder where
  bufferListHead : Option Nat
  bufferListTail : Option Nat
  length : UInt64
  buffers : List CharacterBuffer
  deriving Repr, DecidableEq

/-- What the memory has where the source does not set it: the length of a builder, and the data of
the buffer of a string. -/
structure Uninitialized where
  length : UInt64
  data : Nat → UInt8

/-- What is appended: a string, of a heap, or a format. -/
inductive BuilderCall
  | append (heap : BufferHeap) (string : StringObject)
  | appendFormat (format : IntegerFormat)

/-- `sizeof(character_buffer)`. -/
def sizeofCharacterBuffer : UInt64 := 16

namespace StringBuilder

/-- `string_builder::string_builder`. -/
def new (uninitialized : Uninitialized) : StringBuilder := ⟨none, none, uninitialized.length, []⟩

/-- `string_builder::request_buffer`. The size may wrap, and the block be less than its header. -/
def requestBuffer (b : StringBuilder) (length : UInt64) : Option (Nat × StringBuilder) :=
  if sizeofCharacterBuffer ≤ sizeofCharacterBuffer + length then
    let buffer := b.buffers.length
    let buffers := b.buffers ++ [⟨none, length, []⟩]
    match b.bufferListTail with
    | some tail => some (buffer, { b with
        buffers := buffers.modify tail fun t => { t with next := some buffer }
        bufferListTail := some buffer })
    | none => some (buffer, { b with
        buffers := buffers
        bufferListHead := some buffer
        bufferListTail := some buffer })
  else none

/-- A write of characters to a buffer. -/
def fill (b : StringBuilder) (buffer : Nat) (data : List UInt8) : Option StringBuilder := do
  let t ← b.buffers[buffer]?
  if data.length ≤ t.length.toNat then
    some { b with buffers := b.buffers.set buffer { t with data := data } }
  else none

variable (chars : UInt64 → List UInt8) (print : List UInt8 → Int → Int → List UInt8)

/-- `string_builder::append(const holo::string&)`. -/
def append (b : StringBuilder) (h : BufferHeap) (string : StringObject) :
    Option (Bool × StringBuilder) := do
  let pointer ← h.dataPointer string
  let (buffer, b) ← b.requestBuffer string.length
  let data ← h.charactersAt chars pointer
  if string.offset.toNat + string.length.toNat ≤ data.length then do
    let b ← b.fill buffer (slice data string.offset.toNat string.length.toNat)
    some (true, b)
  else none

/-- `integer::append_format`. -/
def appendFormat (b : StringBuilder) (format : IntegerFormat) : Option (Bool × StringBuilder) :=
  let text := print format.formatString format.width format.value
  let (count, _) := snprintf text 0
  if 0 < count then do
    let (buffer, b) ← b.requestBuffer (.ofNat count + 1)
    let (_, written) := snprintf text (.ofNat count + 1)
    let b ← b.fill buffer written
    some (true, b)
  else some (false, b)

/-- One append. -/
def step (b : StringBuilder) : BuilderCall → Option (Bool × StringBuilder)
  | .append heap string => b.append chars heap string
  | .appendFormat format => b.appendFormat print format

/-- The loop of `to_string`, to `data` from `index` on. `fuel` bounds the buffers. -/
def copyBuffers (b : StringBuilder) : Nat → List UInt8 → UInt64 → Option Nat → Option (List UInt8)
  | _, data, _, none => some data
  | 0, _, _, some _ => none
  | fuel + 1, data, index, some buffer => do
    let t ← b.buffers[buffer]?
    if t.length.toNat ≤ t.data.length ∧ index.toNat + t.length.toNat ≤ data.length then
      b.copyBuffers fuel (overwrite data index.toNat (t.data.take t.length.toNat))
        (index + t.length) t.next
    else none

/-- `string_builder::to_string`, to a heap. The record is zeroed, and its allocator stays null. -/
def toString (b : StringBuilder) (h : BufferHeap) (allocator : UInt64)
    (uninitialized : Uninitialized) : Option (StringObject × BufferHeap) :=
  if 0 < b.length then do
    let (record, h) := h.allocate allocator
    let (data, h) := h.allocate allocator
    let bytes ← b.copyBuffers b.buffers.length
      ((List.range b.length.toNat).map uninitialized.data) 0 b.bufferListHead
    some ({ StringObject.empty with storage := .managed (some record) }, { h with
      buffers := Function.update h.buffers record
        (some ⟨data, b.length, 1, 0⟩)
      bytes := Function.update h.bytes data bytes })
  else some (.empty, h)

end StringBuilder

namespace BuilderCall

variable (chars : UInt64 → List UInt8) (print : List UInt8 → Int → Int → List UInt8)

/-- The text an append is to add. -/
def text : BuilderCall → List UInt8
  | .append heap string => (heap.window chars string).getD []
  | .appendFormat format => print format.formatString format.width format.value

/-- The buffers an append adds, by what is in them. -/
def contents : BuilderCall → List (List UInt8)
  | .append heap string => [(heap.window chars string).getD []]
  | .appendFormat format =>
    let text := print format.formatString format.width format.value
    if text = [] then [] else [text ++ [0]]

/-- A string that is appended has its window in its data. -/
def Valid : BuilderCall → Prop
  | .append heap string => ∃ pointer data, heap.Denotes chars string pointer data
  | .appendFormat _ => True

end BuilderCall

namespace StringBuilder

/-! ## Appending -/

/-- **The buffers of a builder**, linked from the first to the last in the order of the appends. -/
structure Linked (b : StringBuilder) (contents : List (List UInt8)) : Prop where
  head : b.bufferListHead = if contents = [] then none else some 0
  tail : b.bufferListTail = if contents = [] then none else some (contents.length - 1)
  length : b.buffers.length = contents.length
  buffers : ∀ i (hi : i < contents.length), ∃ t, b.buffers[i]? = some t ∧ t.data = contents[i] ∧
    t.length.toNat = contents[i].length ∧
    t.next = if i + 1 < contents.length then some (i + 1) else none

variable {chars : UInt64 → List UInt8} {print : List UInt8 → Int → Int → List UInt8}
  {b b' : StringBuilder} {contents : List (List UInt8)} {length : UInt64} {buffer : Nat}

theorem linked_new (uninitialized : Uninitialized) : (new uninitialized).Linked [] where
  head := rfl
  tail := rfl
  length := rfl
  buffers i hi := absurd hi (Nat.not_lt_zero i)

/-- Where the list of a builder of `n` buffers begins and ends. -/
structure Ends (b : StringBuilder) (n : Nat) : Prop where
  head : b.bufferListHead = if n = 0 then none else some 0
  tail : b.bufferListTail = if n = 0 then none else some (n - 1)
  length : b.buffers.length = n

theorem Linked.ends (hlinked : b.Linked contents) : b.Ends contents.length where
  head := by simp only [hlinked.head, List.length_eq_zero_iff]
  tail := by simp only [hlinked.tail, List.length_eq_zero_iff]
  length := hlinked.length

/-- The buffers after one has been requested: the new one is at the end, and the one before it is
linked to it. -/
theorem Ends.requestBuffer {n : Nat} (hends : b.Ends n)
    (hrun : b.requestBuffer length = some (buffer, b')) :
    buffer = n ∧ b'.Ends (n + 1) ∧ b'.length = b.length ∧
      b'.buffers[buffer]? = some ⟨none, length, []⟩ ∧
      ∀ i < n, b'.buffers[i]? = (b.buffers[i]?).map fun t =>
        if i + 1 = n then { t with next := some buffer } else t := by
  unfold StringBuilder.requestBuffer at hrun
  split_ifs at hrun with hsize
  have hlength := hends.length
  rw [hends.tail] at hrun
  by_cases hempty : n = 0
  · rw [if_pos hempty] at hrun
    obtain ⟨rfl, rfl⟩ := Prod.mk.inj (Option.some.inj hrun)
    subst hempty
    have hnil : b.buffers = [] := List.length_eq_zero_iff.mp hlength
    refine ⟨hlength, ⟨?_, ?_, ?_⟩, rfl, ?_, fun i hi => absurd hi (Nat.not_lt_zero i)⟩
    · rw [hlength]
      rfl
    · rw [hlength]
      rfl
    · rw [hnil]
      rfl
    · rw [hnil]
      rfl
  · rw [if_neg hempty] at hrun
    obtain ⟨rfl, rfl⟩ := Prod.mk.inj (Option.some.inj hrun)
    refine ⟨hlength, ⟨?_, ?_, ?_⟩, rfl, ?_, fun i hi => ?_⟩
    · rw [if_neg (Nat.succ_ne_zero n)]
      exact hends.head.trans (if_neg hempty)
    · rw [if_neg (Nat.succ_ne_zero n), Nat.add_sub_cancel]
      exact congrArg some hlength
    · rw [List.length_modify, List.length_append, hlength, List.length_singleton]
    · rw [List.getElem?_modify, List.getElem?_append_right (Nat.le_refl _), Nat.sub_self]
      simp only [show n - 1 ≠ b.buffers.length by omega, if_false]
      rfl
    · rw [List.getElem?_modify, List.getElem?_append_left (by omega)]
      by_cases hlast : i + 1 = n
      · simp only [hlast, if_true, show n - 1 = i by omega]
        rfl
      · simp only [hlast, if_false, show n - 1 ≠ i by omega]
        rfl

/-- **A buffer that is requested and filled is linked behind the others.** -/
theorem Linked.fill (hlinked : b.Linked contents)
    (hrun : b.requestBuffer length = some (buffer, b')) {data : List UInt8}
    (hdata : data.length = length.toNat) :
    ∃ b'', b'.fill buffer data = some b'' ∧ b''.Linked (contents ++ [data]) ∧
      b''.length = b.length := by
  obtain ⟨rfl, hends, hsame, hnew, hold⟩ := hlinked.ends.requestBuffer hrun
  have hcount := hends.length
  have hlt : contents.length < b'.buffers.length := by omega
  refine ⟨{ b' with buffers := b'.buffers.set contents.length ⟨none, length, data⟩ }, ?_,
    ⟨?_, ?_, ?_, ?_⟩, hsame⟩
  · rw [StringBuilder.fill, hnew, Option.bind_eq_bind, Option.bind_some,
      if_pos (Nat.le_of_eq hdata)]
  · rw [if_neg (by simp)]
    exact hends.head.trans (if_neg (Nat.succ_ne_zero _))
  · rw [if_neg (by simp), List.length_append, List.length_singleton]
    exact hends.tail.trans (if_neg (Nat.succ_ne_zero _))
  · simp [hcount]
  · intro i hi
    rw [List.length_append, List.length_singleton] at hi
    by_cases hlast : i = contents.length
    · subst hlast
      refine ⟨⟨none, length, data⟩, ?_, ?_, ?_, ?_⟩
      · simp [hlt]
      · simp
      · simp [hdata]
      · simp
    · have hi' : i < contents.length := by omega
      obtain ⟨t, ht, htdata, htlength, htnext⟩ := hlinked.buffers i hi'
      have hget := hold i hi'
      rw [ht, Option.map_some] at hget
      refine ⟨_, (List.getElem?_set_ne (Ne.symm hlast)).trans hget, ?_, ?_, ?_⟩
      · rw [List.getElem_append_left hi', ← htdata]
        split_ifs <;> rfl
      · rw [List.getElem_append_left hi', ← htlength]
        split_ifs <;> rfl
      · rw [List.length_append, List.length_singleton, if_pos (Nat.succ_lt_succ hi')]
        by_cases hbefore : i + 1 = contents.length
        · rw [if_pos hbefore, hbefore]
        · rw [if_neg hbefore, htnext, if_pos (by omega)]

/-- What `snprintf` writes where there is room for the text and its terminator. -/
theorem snprintf_fits {text : List UInt8} (hlt : text.length + 1 < 2 ^ 64) :
    snprintf text (.ofNat text.length + 1) = (text.length, text ++ [0]) := by
  have hsize : (UInt64.ofNat text.length + 1).toNat = text.length + 1 := by
    rw [UInt64.toNat_add, UInt64.toNat_ofNat', UInt64.toNat_one]
    omega
  have hne : UInt64.ofNat text.length + 1 ≠ 0 := by
    intro hzero
    rw [hzero, UInt64.toNat_zero] at hsize
    omega
  rw [snprintf, if_neg hne, hsize, Nat.add_sub_cancel, List.take_length]

/-- **What an append does**: it requests a buffer for what it adds and fills it, if it adds
anything. -/
theorem step_cases (b : StringBuilder) {call : BuilderCall} (hvalid : call.Valid chars)
    (hsize : ∀ c ∈ call.contents chars print, c.length < 2 ^ 64) :
    (call.contents chars print = [] ∧ b.step chars print call = some (false, b)) ∨
      ∃ length data, call.contents chars print = [data] ∧ data.length = length.toNat ∧
        b.step chars print call = (b.requestBuffer length).bind fun r =>
          (r.2.fill r.1 data).map fun b' => (true, b') := by
  cases call with
  | append heap string =>
    obtain ⟨pointer, data, hstring⟩ := hvalid
    refine .inr ⟨string.length, (data.drop string.offset.toNat).take string.length.toNat, ?_,
      hstring.length_window, ?_⟩
    · rw [BuilderCall.contents, hstring.window, Option.getD_some]
    · simp only [StringBuilder.step, append, hstring.points, hstring.data, Option.bind_eq_bind,
        Option.bind_some, if_pos hstring.fits, Option.map_eq_bind]
      rfl
  | appendFormat format =>
    simp only [StringBuilder.step, appendFormat]
    simp only [BuilderCall.contents] at hsize ⊢
    generalize print format.formatString format.width format.value = text at hsize ⊢
    by_cases hempty : text = []
    · subst hempty
      exact .inl ⟨rfl, rfl⟩
    · have hpos : 0 < text.length := List.length_pos_of_ne_nil hempty
      rw [if_neg hempty] at hsize ⊢
      have hlt : text.length + 1 < 2 ^ 64 := by simpa using hsize
      have hwritten := congrArg Prod.snd (snprintf_fits hlt)
      refine .inr ⟨.ofNat text.length + 1, text ++ [0], rfl, ?_, ?_⟩
      · rw [UInt64.toNat_add, UInt64.toNat_ofNat', UInt64.toNat_one, List.length_append,
          List.length_singleton]
        omega
      · simp only [snprintf] at hwritten
        simp only [snprintf, if_pos hpos, hwritten, Option.bind_eq_bind, Option.map_eq_bind]
        rfl

/-- **Every append links one more buffer to the others**, with what it appends. -/
theorem Linked.step (hlinked : b.Linked contents) {call : BuilderCall} (hvalid : call.Valid chars)
    {answer : Bool} (hsize : ∀ c ∈ call.contents chars print, c.length < 2 ^ 64)
    (hrun : b.step chars print call = some (answer, b')) :
    b'.Linked (contents ++ call.contents chars print) ∧ b'.length = b.length := by
  rcases b.step_cases hvalid hsize with ⟨hnone, heq⟩ | ⟨length, data, hone, hlength, heq⟩
  · obtain ⟨-, rfl⟩ := Prod.mk.inj (Option.some.inj (heq.symm.trans hrun))
    rw [hnone, List.append_nil]
    exact ⟨hlinked, rfl⟩
  · obtain ⟨⟨buffer, b₁⟩, hrequest, hrest⟩ := Option.bind_eq_some_iff.mp (heq.symm.trans hrun)
    obtain ⟨b₂, hfill, hlinked', hsame⟩ := hlinked.fill hrequest hlength
    rw [hfill, Option.map_some] at hrest
    obtain ⟨-, rfl⟩ := Prod.mk.inj (Option.some.inj hrest)
    rw [hone]
    exact ⟨hlinked', hsame⟩

/-- A block whose size does not wrap has room for its header. -/
theorem requestBuffer_isSome (b : StringBuilder) (hlt : length.toNat + 16 < 2 ^ 64) :
    ∃ r, b.requestBuffer length = some r := by
  have hheader : sizeofCharacterBuffer ≤ sizeofCharacterBuffer + length := by
    rw [UInt64.le_iff_toNat_le, UInt64.toNat_add, show sizeofCharacterBuffer.toNat = 16 from rfl]
    omega
  unfold requestBuffer
  rw [if_pos hheader]
  cases b.bufferListTail with
  | none => exact ⟨_, rfl⟩
  | some tail => exact ⟨_, rfl⟩

/-- An append of little is defined. -/
theorem Linked.step_isSome (hlinked : b.Linked contents) {call : BuilderCall}
    (hvalid : call.Valid chars) (hsize : ∀ c ∈ call.contents chars print, c.length + 16 < 2 ^ 64) :
    ∃ answer b', b.step chars print call = some (answer, b') := by
  rcases b.step_cases hvalid fun c hc => Nat.lt_of_le_of_lt (Nat.le_add_right _ 16) (hsize c hc)
    with ⟨-, heq⟩ | ⟨length, data, hone, hlength, heq⟩
  · exact ⟨false, b, heq⟩
  · have hroom : data.length + 16 < 2 ^ 64 := hsize data (by rw [hone]; exact List.mem_cons_self)
    obtain ⟨⟨buffer, b₁⟩, hrequest⟩ := b.requestBuffer_isSome (hlength ▸ hroom)
    obtain ⟨b₂, hfill, -, -⟩ := hlinked.fill hrequest hlength
    exact ⟨true, b₂, by rw [heq, hrequest, Option.bind_some, hfill, Option.map_some]⟩

/-! ## The string -/

/-- **The loop copies the buffers, one after another**, as long as there is room. -/
theorem copyBuffers_eq (hlinked : b.Linked contents) {fuel i : Nat} (hi : i ≤ contents.length)
    (hfuel : contents.length ≤ i + fuel) {data : List UInt8} {index : UInt64}
    (hroom : index.toNat + (contents.drop i).flatten.length ≤ data.length)
    (hlt : data.length < 2 ^ 64) :
    b.copyBuffers fuel data index (if i < contents.length then some i else none) =
      some (overwrite data index.toNat (contents.drop i).flatten) := by
  induction fuel generalizing i data index with
  | zero =>
    rw [if_neg (by omega), List.drop_of_length_le (by omega), List.flatten_nil, overwrite_nil,
      copyBuffers]
  | succ fuel ih =>
    by_cases hend : i < contents.length
    · obtain ⟨t, ht, htdata, htlength, htnext⟩ := hlinked.buffers i hend
      have hsplit := congrArg List.flatten (List.drop_eq_getElem_cons hend)
      rw [List.flatten_cons] at hsplit
      rw [hsplit, List.length_append, ← htlength] at hroom
      have htake : t.data.take t.length.toNat = contents[i] := by
        rw [htlength, htdata, List.take_length]
      have hsame : (overwrite data index.toNat contents[i]).length = data.length :=
        length_overwrite (by omega)
      have hnext : (index + t.length).toNat = index.toNat + contents[i].length := by
        rw [UInt64.toNat_add, htlength]
        omega
      have hroom' : (index + t.length).toNat + (contents.drop (i + 1)).flatten.length ≤
          (overwrite data index.toNat contents[i]).length := by
        rw [hnext, hsame]
        omega
      have hrest := ih hend (by omega) hroom' (hsame ▸ hlt)
      rw [if_pos hend, copyBuffers, ht, Option.bind_eq_bind, Option.bind_some,
        if_pos ⟨by rw [htdata]; omega, by omega⟩, htake, htnext, hrest, hnext,
        overwrite_overwrite _ _ (by omega), hsplit]
    · rw [if_neg hend, List.drop_of_length_le (by omega), List.flatten_nil, overwrite_nil,
        copyBuffers]

variable {h h' : BufferHeap} {allocator : UInt64} {uninitialized : Uninitialized}
  {string : StringObject} {calls : List BuilderCall}

/-- **The string that is built has no length.** -/
theorem length_toString (hrun : b.toString h allocator uninitialized = some (string, h')) :
    string.offset = 0 ∧ string.length = 0 := by
  unfold StringBuilder.toString at hrun
  split_ifs at hrun
  · obtain ⟨bytes, -, hrun⟩ := Option.bind_eq_some_iff.mp hrun
    obtain ⟨rfl, -⟩ := Prod.mk.inj (Option.some.inj hrun)
    exact ⟨rfl, rfl⟩
  · obtain ⟨rfl, -⟩ := Prod.mk.inj (Option.some.inj hrun)
    exact ⟨rfl, rfl⟩

/-- A string without a length denotes nothing. -/
theorem window_of_length_zero (hlength : string.length = 0) {bytes : List UInt8}
    (hwindow : h.window chars string = some bytes) : bytes = [] := by
  obtain ⟨data, -, hbytes⟩ := Option.bind_eq_some_iff.mp hwindow
  rw [hlength] at hbytes
  exact (Option.some.inj hbytes).symm

/-- **A string is built where the buffers fit the length**, and its buffer starts with them. -/
theorem Linked.toString (hlinked : b.Linked contents) (hcoh : h.Coherent)
    (hroom : contents.flatten.length ≤ b.length.toNat) (allocator : UInt64)
    (uninitialized : Uninitialized) :
    ∃ string h', b.toString h allocator uninitialized = some (string, h') ∧
      h'.window chars string = some [] ∧
      (b.length ≠ 0 → ∃ data, h'.characters chars string = some data ∧
        contents.flatten <+: data) := by
  have hlt := b.length.toNat_lt
  unfold StringBuilder.toString
  by_cases hzero : b.length = 0
  · rw [hzero, if_neg (UInt64.lt_irrefl 0)]
    exact ⟨.empty, h, rfl, rfl, fun hne => absurd rfl hne⟩
  · have hpos : 0 < b.length := UInt64.pos_iff_ne_zero.mpr hzero
    let fresh := (List.range b.length.toNat).map uninitialized.data
    have hfresh : fresh.length = b.length.toNat := by rw [List.length_map, List.length_range]
    have hcopy : b.copyBuffers b.buffers.length fresh 0 b.bufferListHead =
        some (overwrite fresh 0 contents.flatten) := by
      have hhead : b.bufferListHead = if 0 < contents.length then some 0 else none := by
        rw [hlinked.head]
        cases contents with
        | nil => rfl
        | cons c contents => rfl
      rw [hhead, hlinked.length]
      refine copyBuffers_eq hlinked (Nat.zero_le _) (Nat.le_add_left _ _) ?_ (hfresh ▸ hlt)
      rw [hfresh, UInt64.toNat_zero, List.drop_zero, Nat.zero_add]
      exact hroom
    -- the two blocks are new
    have hrecord := hcoh.timesReleased_of_le (Nat.le_refl h.owners.length)
    have hblock := hcoh.timesReleased_of_le (Nat.le_succ h.owners.length)
    let string : StringObject := ⟨.managed (some h.owners.length), 0, 0⟩
    let h' : BufferHeap := {
      owners := h.owners ++ [allocator] ++ [allocator]
      released := h.released
      buffers := Function.update h.buffers h.owners.length
        (some ⟨h.owners.length + 1, b.length, 1, 0⟩)
      bytes := Function.update h.bytes (h.owners.length + 1) (overwrite fresh 0 contents.flatten) }
    have hdenotes : h'.Denotes chars string (.data (h.owners.length + 1))
        (overwrite fresh 0 contents.flatten) := by
      refine ⟨?_, ?_, Nat.zero_le _⟩
      · have hget : h'.getBuffer (some h.owners.length) =
            some ⟨h.owners.length + 1, b.length, 1, 0⟩ := by
          rw [BufferHeap.getBuffer, Option.bind_eq_bind, Option.bind_some]
          exact (if_pos hrecord).trans (Function.update_self ..)
        rw [BufferHeap.dataPointer]
        exact (congrArg (fun r => Option.bind r _) hget :)
      · exact (if_pos hblock).trans (congrArg some (Function.update_self ..))
    refine ⟨string, h', ?_, hdenotes.window, fun _ =>
      ⟨overwrite fresh 0 contents.flatten, ?_, List.prefix_append _ _⟩⟩
    · rw [if_pos hpos]
      simp only [BufferHeap.allocate, List.length_append, List.length_singleton,
        Option.bind_eq_bind]
      exact (congrArg (fun r => Option.bind r _) hcopy :)
    · rw [BufferHeap.characters, hdenotes.points]
      exact hdenotes.data

/-- What an append adds if its text is empty: no characters. -/
theorem flatten_contents {call : BuilderCall} (htext : call.text chars print = []) :
    (call.contents chars print).flatten = [] ∧
      ∀ c ∈ call.contents chars print, c.length + 16 < 2 ^ 64 := by
  cases call with
  | append heap string =>
    rw [BuilderCall.text] at htext
    rw [BuilderCall.contents, htext]
    exact ⟨rfl, fun c hc => by rw [List.mem_singleton.mp hc]; decide⟩
  | appendFormat format =>
    rw [BuilderCall.text] at htext
    simp [BuilderCall.contents, htext]

/-- Appends of nothing leave a builder that has nothing. -/
theorem Linked.exec_empty (hlinked : b.Linked contents) (hnil : contents.flatten = [])
    (hvalid : ∀ call ∈ calls, call.Valid chars)
    (htext : ∀ call ∈ calls, call.text chars print = []) :
    ∃ answers b' contents', exec (StringBuilder.step chars print) b calls = some (answers, b') ∧
      b'.Linked contents' ∧ contents'.flatten = [] ∧ b'.length = b.length := by
  induction calls generalizing b contents with
  | nil => exact ⟨[], b, contents, rfl, hlinked, hnil, rfl⟩
  | cons call calls ih =>
    have htext₁ := htext call List.mem_cons_self
    have hvalid₁ := hvalid call List.mem_cons_self
    obtain ⟨hflatten, hsize⟩ := flatten_contents htext₁
    obtain ⟨answer, b₁, hstep⟩ : ∃ answer b', b.step chars print call = some (answer, b') :=
      hlinked.step_isSome hvalid₁ hsize
    obtain ⟨hlinked₁, hsame₁⟩ := hlinked.step hvalid₁
      (fun c hc => Nat.lt_of_le_of_lt (Nat.le_add_right _ 16) (hsize c hc)) hstep
    obtain ⟨answers, b', contents', hrun, hlinked', hnil', hsame'⟩ :=
      ih hlinked₁ (by rw [List.flatten_append, hnil, hflatten]; rfl)
        (fun c hc => hvalid c (List.mem_cons_of_mem _ hc))
        (fun c hc => htext c (List.mem_cons_of_mem _ hc))
    exact ⟨answer :: answers, b', contents',
      exec_cons_eq_some.mpr ⟨answer, answers, b₁, hstep, hrun, rfl⟩, hlinked', hnil',
      hsame'.trans hsame₁⟩

/-- **A string is built of the texts**: the appends and `to_string` are defined, and the string is
the texts, one after another. -/
def BuildsConcatenation (chars : UInt64 → List UInt8)
    (print : List UInt8 → Int → Int → List UInt8) (uninitialized : Uninitialized) (h : BufferHeap)
    (allocator : UInt64) (calls : List BuilderCall) : Prop :=
  ∃ answers b string h',
    exec (StringBuilder.step chars print) (new uninitialized) calls = some (answers, b) ∧
      b.toString h allocator uninitialized = some (string, h') ∧
      h'.window chars string = some (calls.flatMap (BuilderCall.text chars print))

/-- **The string is the concatenation of the texts iff they are all empty.** -/
theorem buildsConcatenation_iff (hcoh : h.Coherent)
    (hvalid : ∀ call ∈ calls, call.Valid chars) :
    BuildsConcatenation chars print uninitialized h allocator calls ↔
      ∀ call ∈ calls, call.text chars print = [] := by
  constructor
  · rintro ⟨answers, b, string, h', -, hstring, hwindow⟩
    exact List.flatMap_eq_nil_iff.mp
      (window_of_length_zero (length_toString hstring).2 hwindow)
  · intro htext
    obtain ⟨answers, b, contents, hrun, hlinked, hnil, -⟩ :=
      (linked_new uninitialized).exec_empty rfl hvalid htext
    obtain ⟨string, h', hstring, hwindow, -⟩ :=
      hlinked.toString hcoh (by rw [hnil]; exact Nat.zero_le _) allocator uninitialized
    refine ⟨answers, b, string, h', hrun, hstring, ?_⟩
    rw [hwindow, List.flatMap_eq_nil_iff.mpr htext]

/-- An empty window at the end of `"a"`, and the whole of it with a number that prints as `"0"`. -/
theorem buildsConcatenation_iff_appended :
    let format := IntegerFormat.integer .int 0 0 0 0 0 0 0
    BuildsConcatenation (fun _ => [0x61]) (fun _ _ _ => [0x30]) ⟨7, fun _ => 0⟩
        Strings.start.heap 0x20 [.append Strings.start.heap ⟨.unmanaged 0x10, 1, 0⟩] ∧
      ¬ BuildsConcatenation (fun _ => [0x61]) (fun _ _ _ => [0x30]) ⟨7, fun _ => 0⟩
        Strings.start.heap 0x20 [.append Strings.start.heap ⟨.unmanaged 0x10, 0, 1⟩,
          .appendFormat format] := by
  intro format
  refine ⟨(buildsConcatenation_iff Strings.inv_start.counted.toCoherent ?_).mpr ?_, fun h => ?_⟩
  · intro call hcall
    rw [List.mem_singleton.mp hcall]
    exact ⟨.constString 0x10, [0x61], rfl, rfl, by decide⟩
  · intro call hcall
    rw [List.mem_singleton.mp hcall]
    rfl
  · have hempty := (buildsConcatenation_iff Strings.inv_start.counted.toCoherent ?_).mp h
    · exact absurd (hempty (.appendFormat format) (by simp)) nofun
    · intro call hcall
      rcases List.mem_cons.mp hcall with rfl | hcall
      · exact ⟨.constString 0x10, [0x61], rfl, rfl, by decide⟩
      · rw [List.mem_singleton.mp hcall]
        trivial

/-- **A builder that `"a"` is appended to builds an empty string.** -/
theorem not_buildsConcatenation : ¬ ∀ (chars : UInt64 → List UInt8)
    (print : List UInt8 → Int → Int → List UInt8) (uninitialized : Uninitialized) (h : BufferHeap)
    (allocator : UInt64) (calls : List BuilderCall), h.Coherent →
      (∀ call ∈ calls, call.Valid chars) →
        BuildsConcatenation chars print uninitialized h allocator calls := by
  intro hall
  obtain ⟨answers, b, string, h', -, hstring, hwindow⟩ :=
    hall (fun _ => [0x61]) (fun _ _ _ => [0x30]) ⟨1, fun _ => 0⟩ Strings.start.heap 0x20
      [.append Strings.start.heap ⟨.unmanaged 0x10, 0, 1⟩]
      Strings.inv_start.counted.toCoherent (by
        intro call hcall
        rw [List.mem_singleton.mp hcall]
        exact ⟨.constString 0x10, [0x61], rfl, rfl, by decide⟩)
  exact absurd (window_of_length_zero (length_toString hstring).2 hwindow) nofun

end StringBuilder

end Hologine.Text
