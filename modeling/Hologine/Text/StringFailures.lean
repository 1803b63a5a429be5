import Hologine.Text.StringBuilder
import Hologine.Text.StringDuplicate

/-!
# Strings without memory

What the functions that make a `holo::string` in memory of an allocator leave when an allocation
fails: the two constructors (`core/text/string.cpp:34-40`, `core/text/string.hpp:260-323`),
`duplicate` (`core/text/string.cpp:125-147`) and `string_builder::to_string`
(`core/text/string_builder.cpp:46-67`).

Slips of the source:
* the constructor that takes a C string reads the length of the buffer that was not made;
* the range constructor leaves the storage mode as the memory has it: in the managed mode the string
  has a null buffer, which comparisons and assignments read.

Results:
* `timesReleased_refuse`: what is allocated before the failure is released again.
* `validEmpty_of_empty`: the empty string can be used for everything.
* `run_survives_iff`: a failure leaves an empty string that can be used **iff** the function is
  `to_string`, or one that leaves the unmanaged mode that the memory has.
-/

namespace Hologine.Text

open Hologine.Library Hologine.Library.Run

/-- `string_builder::to_string`, by whether the allocator grants the record and the data. -/
def StringBuilder.toStringGranted (b : StringBuilder) (h : BufferHeap) (allocator : UInt64)
    (uninitialized : Uninitialized) (grantsRecord grantsData : Bool) :
    Option (StringObject × BufferHeap) :=
  if 0 < b.length then
    if grantsRecord then
      if grantsData then b.toString h allocator uninitialized
      else
        let (record, h) := h.allocate allocator
        some (.empty, h.deallocate allocator record)
    else some (.empty, h)
  else b.toString h allocator uninitialized

/-- The functions, with their arguments; `mode` is what the memory has in the storage mode of the
string. -/
inductive MakingCall
  | copyChars (allocator : UInt64) (text : List UInt8)
  | copyRange (allocator : UInt64) (text : List UInt8) (mode : Int)
  | duplicateWith (string allocator : UInt64) (mode : Int)
  | toString (builder : StringBuilder) (allocator : UInt64) (uninitialized : Uninitialized)

namespace Strings

variable (chars : UInt64 → List UInt8) (address : Nat → UInt64)

/-- One call. -/
def make (s : Strings) (target : UInt64) (grantsRecord grantsData : Bool) :
    MakingCall → Option Strings
  | .copyChars allocator text => s.copyChars target allocator text grantsRecord grantsData
  | .copyRange allocator text mode =>
    s.copyRange address target allocator text grantsRecord grantsData mode
  | .duplicateWith string allocator mode =>
    (s.duplicateWith chars address target string allocator grantsRecord grantsData mode).map
      Prod.fst
  | .toString builder allocator uninitialized =>
    (builder.toStringGranted s.heap allocator uninitialized grantsRecord grantsData).map
      fun r => { s with heap := r.2 }.construct target r.1

/-- Whether a call allocates: a string without a length is not duplicated, a managed one is wrapped,
and a builder without a length makes an empty string. -/
def Allocates (s : Strings) : MakingCall → Prop
  | .copyChars _ _ | .copyRange _ _ _ => True
  | .duplicateWith string _ _ => string ∈ s.live ∧ (s.string string).length ≠ 0 ∧
      ∃ constString, (s.string string).storage = .unmanaged constString
  | .toString builder _ _ => 0 < builder.length

/-- **A string that can be used**: it is empty, can be iterated over, compared with all strings and
assigned to and from them, copied and destroyed. -/
def ValidEmpty (s : Strings) (a : UInt64) : Prop :=
  (s.string a).length = 0 ∧
  (∀ u v, ∃ i j, s.begin chars a u = some ([], i) ∧ s.end chars a v = some ([], j) ∧
    i.equal j = true) ∧
  (∀ other ∈ s.live, (s.heap.equal chars (s.string a) (s.string other)).isSome ∧
    (s.heap.equal chars (s.string other) (s.string a)).isSome ∧
    (s.assign a other).isSome ∧ (s.assign other a).isSome) ∧
  (∀ target, s.Vacant target → (s.copyConstruct target a).isSome) ∧
  (s.destruct a).isSome

/-- **A call survives a failure**: it leaves a string that can be used, and has released every block
it has allocated. -/
def Survives (s : Strings) (target : UInt64) (grantsRecord grantsData : Bool) (call : MakingCall) :
    Prop :=
  ∃ s', s.make chars address target grantsRecord grantsData call = some s' ∧
    s'.ValidEmpty chars target ∧
    ∀ block, s.heap.owners.length ≤ block → block < s'.heap.owners.length →
      s'.heap.timesReleased block = 1

/-- Which calls survive: the constructor that takes a C string does not. -/
def Recovers : MakingCall → Prop
  | .copyChars _ _ => False
  | .copyRange _ _ mode => mode = StorageMode.unmanaged
  | .duplicateWith _ _ mode => mode = StorageMode.unmanaged
  | .toString _ _ _ => True

end Strings

/-! ## What was allocated before the failure -/

namespace BufferHeap

variable {h : BufferHeap} {n : Nat → Nat}

/-- The heap after a record has been allocated, or not, and released. -/
def refuse (h : BufferHeap) (allocator : UInt64) (grantsRecord : Bool) : BufferHeap :=
  if grantsRecord then
    (h.allocate allocator).2.deallocate allocator (h.allocate allocator).1
  else h

theorem constructBuffer_refused (h : BufferHeap) (allocator : UInt64) (text : List UInt8)
    {grantsRecord grantsData : Bool} (hfails : (grantsRecord && grantsData) = false) :
    h.constructBuffer allocator text grantsRecord grantsData =
      (none, h.refuse allocator grantsRecord) := by
  cases grantsRecord with
  | false => rfl
  | true =>
    obtain rfl : grantsData = false := hfails
    rfl

theorem CountedBy.refuse (hn : h.CountedBy n) (allocator : UInt64) (grantsRecord : Bool) :
    (h.refuse allocator grantsRecord).CountedBy n := by
  cases grantsRecord with
  | false => exact hn
  | true =>
    have hcoh := hn.toCoherent
    have hold : ∀ block, block < h.owners.length →
        (h.refuse allocator true).timesReleased block = h.timesReleased block := by
      intro block hlt
      refine (timesReleased_deallocate _ allocator h.owners.length block).trans ?_
      rw [if_neg (Nat.ne_of_gt hlt)]
      rfl
    refine ⟨⟨?_, hcoh.apart, ?_⟩, hn.count, ?_, ?_⟩
    · intro b record hb
      obtain ⟨hrecord, hdata⟩ := hcoh.owned b record hb
      exact ⟨owners_append hrecord _, owners_append hdata _⟩
    · intro r hr
      rcases List.mem_cons.mp hr with rfl | hr
      · exact List.getElem?_concat_length
      · exact owners_append (hcoh.toOwner r hr) _
    · intro b record hb
      rw [hold b (hcoh.lt_length hb).1]
      exact hn.record b record hb
    · intro b record hb
      rw [hold _ (hcoh.lt_length hb).2]
      exact hn.data b record hb

/-- **What is allocated before a failure is released.** -/
theorem timesReleased_refuse (hcoh : h.Coherent) (allocator : UInt64) (grantsRecord : Bool)
    {block : Nat} (hle : h.owners.length ≤ block)
    (hlt : block < (h.refuse allocator grantsRecord).owners.length) :
    (h.refuse allocator grantsRecord).timesReleased block = 1 := by
  cases grantsRecord with
  | false => exact absurd hlt (Nat.not_lt.mpr hle)
  | true =>
    have hlength : (h.refuse allocator true).owners.length = h.owners.length + 1 :=
      List.length_append
    obtain rfl : block = h.owners.length := by omega
    refine (timesReleased_deallocate _ allocator h.owners.length h.owners.length).trans ?_
    rw [if_pos rfl]
    exact congrArg (· + 1) (hcoh.timesReleased_of_le (Nat.le_refl _))

end BufferHeap

/-! ## What a failure leaves -/

namespace Strings

open BufferHeap

variable {chars : UInt64 → List UInt8} {address : Nat → UInt64} {s : Strings}
  {a target allocator : UInt64} {text : List UInt8} {grantsRecord grantsData : Bool} {mode : Int}

/-- Where a string that lives has its characters. -/
theorem Inv.dataPointer (hinv : s.Inv) (ha : a ∈ s.live) :
    ∃ pointer, s.heap.dataPointer (s.string a) = some pointer := by
  cases hs : (s.string a).storage with
  | managed buffer =>
    obtain ⟨b, record, rfl, -, hget, -⟩ := hinv.getBuffer ha hs
    exact ⟨.data record.data, by
      simp only [BufferHeap.dataPointer, hs, hget, Option.bind_eq_bind, Option.bind_some]⟩
  | unmanaged constString => exact ⟨.constString constString, by
      simp only [BufferHeap.dataPointer, hs]⟩

/-- An empty string is compared without a byte read. -/
theorem isSome_equal {h : BufferHeap} {left right : StringObject} {p q : DataPointer}
    (hl : h.dataPointer left = some p) (hr : h.dataPointer right = some q)
    (hzero : left.length - left.offset = 0 ∨ right.length - right.offset = 0) :
    (h.equal chars left right).isSome := by
  unfold BufferHeap.equal
  dsimp only
  split_ifs with hne
  · rfl
  · have hlength : left.length - left.offset = 0 :=
      hzero.elim id fun hright => (not_not.mp hne).trans hright
    simp only [hl, hr, Option.bind_eq_bind, Option.bind_some, hlength, true_or, if_true,
      Option.isSome_some]

/-- **The empty string can be used for everything.** -/
theorem validEmpty_of_empty (hinv : s.Inv) (ha : a ∈ s.live) (hempty : s.string a = .empty) :
    s.ValidEmpty chars a := by
  have hlength : (s.string a).length = 0 := by rw [hempty]; rfl
  have hzero : (s.string a).length - (s.string a).offset = 0 := by rw [hempty]; rfl
  have hnonnull : a ≠ 0 := fun heq => hinv.nonnull (heq ▸ ha)
  obtain ⟨p, hp⟩ := hinv.dataPointer ha
  refine ⟨hlength, fun u v => ?_, fun other hother => ⟨?_, ?_, ?_, ?_⟩, fun t ht => ?_, ?_⟩
  · refine ⟨⟨⟨a, 0⟩, 0, u, true⟩, ⟨⟨a, 0⟩, 0, v, true⟩,
      stringIterator_of_empty hnonnull hlength u, ?_, ?_⟩
    · rw [Strings.end, hlength]
      exact stringIterator_of_empty hnonnull hlength v
    · simp [IteratorState.equal]
  · obtain ⟨q, hq⟩ := hinv.dataPointer hother
    exact isSome_equal hp hq (.inl hzero)
  · obtain ⟨q, hq⟩ := hinv.dataPointer hother
    exact isSome_equal hq hp (.inr hzero)
  · obtain ⟨s', hrun, -⟩ := hinv.assign ha hother
    exact Option.isSome_iff_exists.mpr ⟨s', hrun⟩
  · obtain ⟨s', hrun, -⟩ := hinv.assign hother ha
    exact Option.isSome_iff_exists.mpr ⟨s', hrun⟩
  · obtain ⟨s', hrun, -⟩ := hinv.copyConstruct ht ha
    exact Option.isSome_iff_exists.mpr ⟨s', hrun⟩
  · obtain ⟨s', hrun, -⟩ := hinv.destruct ha
    exact Option.isSome_iff_exists.mpr ⟨s', hrun⟩

/-- **A call that leaves the empty string survives.** -/
theorem survives_of_empty (hinv : s.Inv) (hvacant : s.Vacant target) (allocator : UInt64)
    {call : MakingCall}
    (hrun : s.make chars address target grantsRecord grantsData call =
      some ({ s with heap := s.heap.refuse allocator grantsRecord }.construct target .empty)) :
    Survives chars address s target grantsRecord grantsData call := by
  have hheld := held_of_unmanaged (s := .empty) rfl
  have hn := hinv.counted.refuse allocator grantsRecord
  have hinv' : ({ s with heap := s.heap.refuse allocator grantsRecord }.construct target
      .empty).Inv := by
    refine hinv.construct _ hvacant (fun _ hs => by simp [StringObject.empty] at hs) ?_
      fun b hb => ?_
    · simpa only [hheld, Nat.add_zero] using hn
    · cases grantsRecord <;> exact hb
  refine ⟨_, hrun, validEmpty_of_empty hinv' List.mem_cons_self (Function.update_self ..), ?_⟩
  exact fun block hle hlt => timesReleased_refuse hinv.counted.toCoherent allocator _ hle hlt

/-- A string from a range whose buffer could not be made. -/
theorem copyRange_refused (hfails : (grantsRecord && grantsData) = false) :
    s.copyRange address target allocator text grantsRecord grantsData mode =
      (Storage.ofMode address mode none).map fun storage =>
        { s with heap := s.heap.refuse allocator grantsRecord }.construct target
          ⟨storage, 0, 0⟩ := by
  unfold copyRange
  rw [constructBuffer_refused _ _ _ hfails, Option.map_eq_bind]
  rfl

/-- A managed string without a buffer cannot be compared. -/
theorem not_validEmpty (ha : a ∈ s.live) (hs : (s.string a).storage = .managed none) :
    ¬ s.ValidEmpty chars a := by
  rintro ⟨-, -, huse, -⟩
  obtain ⟨hequal, -⟩ := huse a ha
  have hnone : s.heap.dataPointer (s.string a) = none := by
    unfold BufferHeap.dataPointer
    rw [hs]
    rfl
  unfold BufferHeap.equal at hequal
  simp only [hnone, ne_eq, not_true_eq_false, if_false, Option.bind_eq_bind, Option.bind_none,
    Option.isSome_none, Bool.false_eq_true] at hequal

/-- **The range constructor survives iff the memory has the unmanaged mode.** -/
theorem survives_range_iff (hinv : s.Inv) (hvacant : s.Vacant target) (allocator : UInt64)
    {call : MakingCall}
    (hrun : s.make chars address target grantsRecord grantsData call =
      (Storage.ofMode address mode none).map fun storage =>
        { s with heap := s.heap.refuse allocator grantsRecord }.construct target ⟨storage, 0, 0⟩) :
    Survives chars address s target grantsRecord grantsData call ↔
      mode = StorageMode.unmanaged := by
  constructor
  · rintro ⟨s', hmake, hvalid, -⟩
    obtain ⟨storage, hstorage, rfl⟩ := Option.map_eq_some_iff.mp (hrun.symm.trans hmake)
    unfold Storage.ofMode at hstorage
    split_ifs at hstorage with hmanaged hunmanaged
    · obtain rfl := Option.some.inj hstorage
      have hvalue := Function.update_self target (⟨.managed none, 0, 0⟩ : StringObject) s.string
      have hstorage := congrArg StringObject.storage hvalue
      exact absurd hvalid (not_validEmpty List.mem_cons_self hstorage)
    · exact hunmanaged
  · rintro rfl
    exact survives_of_empty hinv hvacant allocator hrun

/-- **What survives a failure of an allocation**, for all strings and builders of a run: `to_string`
does, the constructor that takes a C string does not, and the range constructor and `duplicate` do
where the memory has the unmanaged mode. -/
theorem run_survives_iff {calls : List StringCall} {os : List Unit}
    (hlegal : Along (step chars) WindowLegal start calls)
    (hrun : exec (step chars) start calls = some (os, s)) (hvacant : s.Vacant target)
    (address : Nat → UInt64) {call : MakingCall} (hallocates : s.Allocates call)
    (hfails : (grantsRecord && grantsData) = false) :
    Survives chars address s target grantsRecord grantsData call ↔ Recovers call := by
  obtain ⟨hinv, hwin⟩ := run_windowed hlegal hrun
  cases call with
  | copyChars allocator text =>
    refine iff_of_false ?_ id
    rintro ⟨s', hmake, -⟩
    simp only [make, copyChars, constructBuffer_refused _ _ _ hfails, BufferHeap.getBuffer,
      Option.bind_eq_bind, Option.bind_none, reduceCtorEq] at hmake
  | copyRange allocator text mode =>
    exact survives_range_iff hinv hvacant allocator (copyRange_refused hfails)
  | duplicateWith string allocator mode =>
    obtain ⟨hstring, hlength, constString, hs⟩ := hallocates
    have hfits := hwin string hstring
    unfold Fits at hfits
    rw [hs] at hfits
    refine survives_range_iff hinv hvacant allocator ?_
    rw [make, duplicateWith_unmanaged hlength hs hfits, copyRange_refused hfails, Option.map_map,
      Option.map_map]
    rfl
  | toString builder allocator uninitialized =>
    refine iff_of_true (survives_of_empty hinv hvacant allocator ?_) trivial
    have hpos : 0 < builder.length := hallocates
    unfold make StringBuilder.toStringGranted
    dsimp only
    rw [if_pos hpos]
    cases grantsRecord with
    | false => rfl
    | true =>
      obtain rfl : grantsData = false := hfails
      rfl

theorem run_survives_iff_sample : ∃ os s,
    exec (step fun _ => [0x61]) start [.wrap 1 0x10] = some (os, s) ∧
      (Survives (fun _ => [0x61]) (fun _ => 0x1000) s 2 true false
          (.duplicateWith 1 0x50 StorageMode.unmanaged) ↔
        Recovers (.duplicateWith 1 0x50 StorageMode.unmanaged)) := by
  have hlegal : Along (step fun _ => [0x61]) WindowLegal start [.wrap 1 0x10] := by decide
  exact ⟨_, _, rfl, run_survives_iff hlegal rfl (by decide) _
    ⟨by decide, by decide, 0x10, rfl⟩ rfl⟩

/-- **Without memory the constructor reads the length of no buffer.** -/
theorem not_run_survives : ¬ ∀ (chars : UInt64 → List UInt8) (calls : List StringCall)
    (os : List Unit) (s : Strings), Along (step chars) WindowLegal start calls →
      exec (step chars) start calls = some (os, s) → ∀ target, s.Vacant target →
        ∀ (address : Nat → UInt64) (call : MakingCall), s.Allocates call →
          ∀ grantsRecord grantsData, (grantsRecord && grantsData) = false →
            Survives chars address s target grantsRecord grantsData call := by
  intro h
  obtain ⟨s', hmake, -⟩ := h (fun _ => [0x61]) [] [] start trivial rfl 1 (by decide)
    (fun _ => 0x1000) (.copyChars 0x20 [0x61]) trivial false true rfl
  have hnone : none = some s' := hmake
  exact absurd hnone (by simp)

end Strings

end Hologine.Text
