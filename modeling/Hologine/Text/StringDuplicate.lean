import Hologine.Text.StringConstructors
import Hologine.Text.StringSubstring

/-!
# Duplicating a string

Model of the two overloads of `string::duplicate` (`core/text/string.cpp:104-147`). Beside the
string they make they are modelled with the bytes they read of the data of the other: where the
first is, and how many.

The slip of the source is in the overload with an allocator, to which the other leads: of a managed
string it returns `buffer->data`, which becomes a string that wraps the data of the buffer, up to
the first null, which need not be there.

Results:
* `Inv.run_content`: a string keeps what it is made of in every run that spares it.
* `run_independent_iff`: a duplicate is a string of its own **iff** the overload with an allocator
  gets an unmanaged string, and the memory has the managed mode.
-/

namespace Hologine.Text

open Hologine.Library Hologine.Library.Bytes Hologine.Library.Run

/-- `std::strlen`; a null that is not there is looked for behind the characters. -/
def strlen (characters : List UInt8) : Option Nat := characters.findIdx? (· == 0)

/-- The two overloads. -/
inductive DuplicateCall
  | duplicate
  | duplicateWith (allocator : UInt64)
  deriving Repr, DecidableEq

namespace Strings

variable (chars : UInt64 → List UInt8) (address : Nat → UInt64)

/-- `string::duplicate(holo::allocator*)`. -/
def duplicateWith (s : Strings) (target string allocator : UInt64)
    (grantsRecord grantsData : Bool) (mode : Int) : Option (Strings × Nat × Nat) :=
  let o := s.string string
  if o.length = 0 then some (s.construct target .empty, 0, 0)
  else
    match o.storage with
    | .managed buffer => do
      let record ← s.heap.getBuffer buffer
      -- the pointer becomes a string, by the constructor that takes a C string
      let data ← s.heap.charactersAt chars (.data record.data)
      let length ← strlen data
      some (s.construct target ⟨.unmanaged (address record.data), 0, .ofNat length⟩, 0, length + 1)
    | .unmanaged constString => do
      let data := chars constString
      if o.offset.toNat + o.length.toNat ≤ data.length then do
        let s ← s.copyRange address target allocator (slice data o.offset.toNat o.length.toNat)
          grantsRecord grantsData mode
        some (s, o.offset.toNat, o.length.toNat)
      else none

/-- `string::duplicate()`. -/
def duplicate (s : Strings) (target string : UInt64) (grantsRecord grantsData : Bool)
    (mode : Int) : Option (Strings × Nat × Nat) :=
  let o := s.string string
  if o.length = 0 then some (s.construct target .empty, 0, 0)
  else
    match o.storage with
    | .unmanaged _ => do
      let s ← s.copyConstruct target string
      some (s, 0, 0)
    | .managed buffer => do
      let record ← s.heap.getBuffer buffer
      s.duplicateWith chars address target string record.allocator grantsRecord grantsData mode

/-- A duplication, with allocations that succeed. -/
def runDuplicate (s : Strings) (target string : UInt64) (mode : Int) :
    DuplicateCall → Option (Strings × Nat × Nat)
  | .duplicate => s.duplicate chars address target string true true mode
  | .duplicateWith allocator =>
    s.duplicateWith chars address target string allocator true true mode

/-- **A duplicate is a string of its own**: it has the bytes of the window of the other in a new
buffer that it alone holds, only they were read, and it keeps them whatever becomes of the other
strings. -/
def Independent (s : Strings) (target string : UInt64) (mode : Int) (call : DuplicateCall) : Prop :=
  ∃ s' first count b bytes,
    s.runDuplicate chars address target string mode call = some (s', first, count) ∧
    s.heap.content chars (s.string string) = some bytes ∧
    (s'.string target).buffer = some b ∧ s.heap.buffers b = none ∧ s'.holders b = 1 ∧
    s'.heap.content chars (s'.string target) = some bytes ∧
    (∀ i, first ≤ i → i < first + count → (s.string string).Covers i) ∧
    ∀ calls, Along (step chars) (fun s call => s.Legal call ∧ Spares target call) s' calls →
      ∃ os s'', exec (step chars) s' calls = some (os, s'') ∧
        s''.heap.content chars (s''.string target) = some bytes

/-! ## What is left of the other strings -/

open BufferHeap

variable {chars address} {s s' : Strings} {a target string allocator : UInt64}
  {text : List UInt8} {mode : Int}

/-- The content of a string that is all of some characters. -/
theorem Inv.content_of_carries (hinv : s.Inv) (ha : a ∈ s.live)
    (ho : s.heap.Carries chars (s.string a) text) (hlt : text.length < 2 ^ 64) :
    s.heap.content chars (s.string a) = some text := by
  obtain ⟨pointer, hdenotes, -⟩ := hinv.denotes ha ho
  have hlength : (s.string a).length.toNat = text.length := by
    rw [ho.2.1, UInt64.toNat_ofNat', Nat.mod_eq_of_lt hlt]
  rw [content_of_denotes hdenotes, ho.1, hlength, UInt64.toNat_zero, slice_whole]

/-- **A string keeps what it carries** in every run that spares it. -/
theorem Inv.run_content (hinv : s.Inv) (ha : a ∈ s.live)
    (ho : s.heap.Carries chars (s.string a) text) (hlt : text.length < 2 ^ 64)
    {calls : List StringCall}
    (hcalls : Along (Strings.step chars) (fun s call => s.Legal call ∧ Spares a call) s calls) :
    ∃ os s', exec (Strings.step chars) s calls = some (os, s') ∧
      s'.heap.content chars (s'.string a) = some text := by
  have hstep : ∀ (s : Strings) (call : StringCall),
      (s.Inv ∧ a ∈ s.live ∧ s.heap.Carries chars (s.string a) text) →
      s.Legal call ∧ Spares a call → ∃ o s', Strings.step chars s call = some (o, s') ∧
        s'.Inv ∧ a ∈ s'.live ∧ s'.heap.Carries chars (s'.string a) text := by
    rintro s call ⟨hinv, ha, ho⟩ ⟨hlegal, hspares⟩
    obtain ⟨s', hstep, hinv'⟩ := hinv.step chars hlegal
    obtain ⟨ha', hsame⟩ := step_frame hlegal ha hspares hstep
    have hkeep := hinv.step_keeps hlegal hstep
    exact ⟨(), s', hstep, hinv', ha', hsame ▸ carries_keeps hkeep ho⟩
  obtain ⟨os, s', hexec, hinv', ha', ho'⟩ := exec_of_defined _ hstep ⟨hinv, ha, ho⟩ hcalls
  exact ⟨os, s', hexec, hinv'.content_of_carries ha' ho' hlt⟩

/-! ## Duplicates -/

/-- A duplicate of a managed string is not managed. -/
theorem buffer_duplicateWith {r : Strings × Nat × Nat} {buffer : Option Nat}
    {grantsRecord grantsData : Bool} (hlength : (s.string string).length ≠ 0)
    (hmanaged : (s.string string).storage = .managed buffer)
    (hrun : s.duplicateWith chars address target string allocator grantsRecord grantsData mode =
      some r) : (r.1.string target).buffer = none := by
  unfold duplicateWith at hrun
  dsimp only at hrun
  rw [if_neg hlength, hmanaged] at hrun
  obtain ⟨record, -, hrun⟩ := Option.bind_eq_some_iff.mp hrun
  obtain ⟨data, -, hrun⟩ := Option.bind_eq_some_iff.mp hrun
  obtain ⟨length, -, hrun⟩ := Option.bind_eq_some_iff.mp hrun
  obtain rfl := Option.some.inj hrun
  simp only [construct, Function.update_self, StringObject.buffer]

/-- A duplicate of an unmanaged string is a string from the range of its window. -/
theorem duplicateWith_unmanaged {constString : UInt64} {grantsRecord grantsData : Bool}
    (hlength : (s.string string).length ≠ 0)
    (hunmanaged : (s.string string).storage = .unmanaged constString)
    (hfits : (s.string string).offset.toNat + (s.string string).length.toNat ≤
      (chars constString).length) :
    s.duplicateWith chars address target string allocator grantsRecord grantsData mode =
      (s.copyRange address target allocator (slice (chars constString)
        (s.string string).offset.toNat (s.string string).length.toNat) grantsRecord grantsData
        mode).map fun s' =>
          (s', (s.string string).offset.toNat, (s.string string).length.toNat) := by
  unfold duplicateWith
  dsimp only
  rw [if_neg hlength, hunmanaged]
  dsimp only
  rw [if_pos hfits, Option.map_eq_bind]
  rfl

/-- **A duplicate of an unmanaged string is a string of its own** where the memory has the managed
mode. -/
theorem Windowed.independent (hwin : s.Windowed chars) (hinv : s.Inv) (hstring : string ∈ s.live)
    (hlength : (s.string string).length ≠ 0) (hvacant : s.Vacant target) {constString : UInt64}
    (hunmanaged : (s.string string).storage = .unmanaged constString) :
    Independent chars address s target string StorageMode.managed (.duplicateWith allocator) := by
  obtain ⟨pointer, data, hdenotes⟩ := hwin.denotes hinv hstring
  have hdata : chars constString = data := by
    have hcharacters := hdenotes.characters
    simp only [BufferHeap.characters, dataPointer, hunmanaged, charactersAt, Option.bind_eq_bind,
      Option.bind_some, Option.some.injEq] at hcharacters
    exact hcharacters
  have hfits := hdenotes.fits
  have hcontent := content_of_denotes hdenotes
  rw [← hdata] at hfits hcontent
  generalize hbytes : slice (chars constString) (s.string string).offset.toNat
    (s.string string).length.toNat = bytes at hcontent
  have hlt : bytes.length < 2 ^ 64 := by
    rw [← hbytes, length_slice hfits]
    exact UInt64.toNat_lt _
  have hcoh := hinv.counted.toCoherent
  obtain ⟨s', hcopy, hinv'⟩ := hinv.copyChars hvacant allocator bytes
  obtain rfl := Option.some.inj ((copyChars_eq hcoh target allocator bytes).symm.trans hcopy)
  have hvalue := Function.update_self target
    (⟨.managed (some s.heap.owners.length), 0, .ofNat bytes.length⟩ : StringObject) s.string
  have hrecord : (s.heap.withBuffer allocator bytes).buffers s.heap.owners.length =
      some ⟨s.heap.owners.length + 1, .ofNat bytes.length, 1, allocator⟩ := by
    rw [withBuffer_buffers, Function.update_self]
  have hcarries : (s.heap.withBuffer allocator bytes).Carries chars
      ⟨.managed (some s.heap.owners.length), 0, .ofNat bytes.length⟩ bytes :=
    ⟨rfl, rfl, _, _, rfl, hrecord, Function.update_self ..⟩
  rw [← hvalue] at hcarries
  have hrun : s.duplicateWith chars address target string allocator true true
      StorageMode.managed = _ := duplicateWith_unmanaged hlength hunmanaged hfits
  rw [hbytes, copyRange_managed hcoh, copyChars_eq hcoh, Option.map_some] at hrun
  refine ⟨_, _, _, s.heap.owners.length, bytes, hrun, hcontent, ?_, ?_,
    (hinv'.counted.count _ _ hrecord).symm, ?_, ?_, ?_⟩
  · exact congrArg StringObject.buffer hvalue
  · by_contra hsome
    obtain ⟨record, hb⟩ := Option.ne_none_iff_exists'.mp hsome
    exact Nat.lt_irrefl _ (hcoh.lt_length hb).1
  · exact hinv'.content_of_carries List.mem_cons_self hcarries hlt
  · exact fun i hle hlt => ⟨hle, hlt⟩
  · exact fun calls hcalls => hinv'.run_content List.mem_cons_self hcarries hlt hcalls

/-- **Which duplicates of the strings of a run are strings of their own**: those that the overload
with an allocator makes of unmanaged strings, where the memory has the managed mode. -/
theorem run_independent_iff {calls : List StringCall} {os : List Unit}
    (hlegal : Along (step chars) WindowLegal start calls)
    (hrun : exec (step chars) start calls = some (os, s)) (hstring : string ∈ s.live)
    (hlength : (s.string string).length ≠ 0) (hvacant : s.Vacant target) (mode : Int)
    {call : DuplicateCall}
    (hcall : call = .duplicate → ∃ buffer, (s.string string).storage = .managed buffer) :
    Independent chars address s target string mode call ↔
      (∃ constString, (s.string string).storage = .unmanaged constString) ∧
        mode = StorageMode.managed := by
  obtain ⟨hinv, hwin⟩ := run_windowed hlegal hrun
  cases hs : (s.string string).storage with
  | managed buffer =>
    refine iff_of_false ?_ fun ⟨⟨constString, h⟩, _⟩ => absurd h (by simp)
    rintro ⟨s', first, count, b, bytes, hduplicate, -, hbuffer, -⟩
    have hnone : (s'.string target).buffer = none := by
      cases call with
      | duplicateWith allocator => exact buffer_duplicateWith hlength hs hduplicate
      | duplicate =>
        unfold runDuplicate duplicate at hduplicate
        dsimp only at hduplicate
        rw [if_neg hlength, hs] at hduplicate
        obtain ⟨record, -, hduplicate⟩ := Option.bind_eq_some_iff.mp hduplicate
        exact buffer_duplicateWith hlength hs hduplicate
    exact absurd (hnone.symm.trans hbuffer) (by simp)
  | unmanaged constString =>
    cases call with
    | duplicate =>
      obtain ⟨buffer, h⟩ := hcall rfl
      exact absurd (hs.symm.trans h) (by simp)
    | duplicateWith allocator =>
      constructor
      · rintro ⟨s', first, count, b, bytes, hduplicate, -, hbuffer, -⟩
        refine ⟨⟨constString, rfl⟩, by_contra fun hmode => ?_⟩
        unfold runDuplicate duplicateWith at hduplicate
        dsimp only at hduplicate
        rw [if_neg hlength, hs] at hduplicate
        dsimp only at hduplicate
        split_ifs at hduplicate
        obtain ⟨s'', hcopy, heq⟩ := Option.bind_eq_some_iff.mp hduplicate
        obtain ⟨rfl, -⟩ := Prod.mk.inj (Option.some.inj heq)
        rw [buffer_copyRange hmode hcopy] at hbuffer
        exact absurd hbuffer (by simp)
      · rintro ⟨-, rfl⟩
        exact hwin.independent hinv hstring hlength hvacant hs

/-- The duplicate of the substring `"foo"` of `"barfoo"`. -/
theorem run_independent_iff_sample : ∃ os s,
    exec (step sampleChars) start sampleCalls = some (os, s) ∧
      (Independent sampleChars (fun _ => 0x1000) s 4 2 StorageMode.managed (.duplicateWith 0x50) ↔
        (∃ constString, (s.string 2).storage = .unmanaged constString) ∧
          StorageMode.managed = StorageMode.managed) := by
  have hlegal : Along (step sampleChars) WindowLegal start sampleCalls := by decide
  exact ⟨_, _, rfl, run_independent_iff hlegal rfl (by decide) (by decide) (by decide) _
    fun h => absurd h (by simp)⟩

/-- **The duplicate of a managed `"hi"` looks for a null behind the buffer.** -/
theorem not_run_independent : ¬ ∀ (chars : UInt64 → List UInt8) (address : Nat → UInt64)
    (calls : List StringCall) (os : List Unit) (s : Strings),
    Along (step chars) WindowLegal start calls → exec (step chars) start calls = some (os, s) →
      ∀ string ∈ s.live, (s.string string).length ≠ 0 → ∀ target, s.Vacant target →
        ∀ (mode : Int) (call : DuplicateCall),
          (call = .duplicate → ∃ buffer, (s.string string).storage = .managed buffer) →
            Independent chars address s target string mode call := by
  intro h
  obtain ⟨s', first, count, b, bytes, hduplicate, -⟩ := h (fun _ => [0x68, 0x69])
    (fun _ => 0x1000) [.copyChars 1 0x10 0x20 true true] _ _ (by decide) rfl 1 (by decide)
    (by decide) 2 (by decide) StorageMode.managed .duplicate fun _ => ⟨_, rfl⟩
  have hnone : none = some (s', first, count) := hduplicate
  exact absurd hnone (by simp)

end Strings

end Hologine.Text
