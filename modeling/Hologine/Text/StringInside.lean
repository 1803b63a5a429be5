import Hologine.Text.StringConstructors

/-!
# Windows and the data they are in

Whether the window of a `holo::string`, which is `length` bytes from `offset` on
(`core/text/string.hpp:248-257`), is in its data, when `substring` gets any two iterators of the
string (`core/text/string.cpp:84-102`). All it checks is that they are of this string: they may come
in the other order, or have been taken before the string was assigned to.

Results:
* `inside_narrowed_iff`: a substring is inside its data **iff** its iterators are in order and the
  last is inside that data.
* `Kept.step`: what every call keeps, if the iterators of substrings are so and the range
  constructor finds the managed mode.
* `run_inside`: so all windows of a run of such calls are inside their data.
-/

namespace Hologine.Text

open Hologine.Library Hologine.Library.Run

namespace BufferHeap

variable (chars : UInt64 → List UInt8)

/-- The length of the underlying data of a string. -/
def dataLength (h : BufferHeap) (o : StringObject) : Nat :=
  match o.storage with
  | .managed buffer =>
    match buffer.bind h.buffers with
    | some record => (h.bytes record.data).length
    | none => 0
  | .unmanaged constString => (chars constString).length

/-- The window of a string ends in its data, and does not wrap around. -/
def Inside (h : BufferHeap) (o : StringObject) : Prop :=
  o.offset.toNat + o.length.toNat < 2 ^ 64 ∧
    o.offset.toNat + o.length.toNat ≤ h.dataLength chars o

end BufferHeap

/-- A call, or a string from a range of characters, where `mode` is what the memory has in
`storage_mode`. -/
inductive WindowCall
  | call (c : StringCall)
  | copyRange (target allocator : UInt64) (text : List UInt8) (grantsRecord grantsData : Bool)
      (mode : Int)
  deriving Repr, DecidableEq

namespace Strings

open BufferHeap

variable (chars : UInt64 → List UInt8) (address : Nat → UInt64)

/-- One call. -/
def windowStep (s : Strings) : WindowCall → Option (Unit × Strings)
  | .call c => s.step chars c
  | .copyRange target allocator text grantsRecord grantsData mode =>
    (s.copyRange address target allocator text grantsRecord grantsData mode).map (Prod.mk ())

/-- The strings a call reads live, and the iterators of a substring are of its string. -/
def Uses (s : Strings) : WindowCall → Prop
  | .call (.copy _ other) => other ∈ s.live
  | .call (.assign _ other) => other ∈ s.live
  | .call (.substring _ _ string first last) =>
    string ∈ s.live ∧ first.string = string ∧ last.string = string
  | _ => True

instance (s : Strings) (call : WindowCall) : Decidable (s.Uses call) :=
  match call with
  | .call (.copy _ other) => inferInstanceAs (Decidable (other ∈ s.live))
  | .call (.assign _ other) => inferInstanceAs (Decidable (other ∈ s.live))
  | .call (.substring _ _ string first last) => inferInstanceAs (Decidable
      (string ∈ s.live ∧ first.string = string ∧ last.string = string))
  | .call (.empty _) => isTrue trivial
  | .call (.wrap _ _) => isTrue trivial
  | .call (.copyChars _ _ _ _ _) => isTrue trivial
  | .call (.destroy _) => isTrue trivial
  | .copyRange _ _ _ _ _ _ => isTrue trivial

/-- **What keeps windows inside**: the iterators of a substring are in order and inside the data of
its string; a string that is made from a range is where the memory has the managed mode, or has no
characters. -/
def Bounded (s : Strings) : WindowCall → Prop
  | .call (.substring _ _ string first last) => first.currentOffset ≤ last.currentOffset ∧
      last.currentOffset.toNat ≤ s.heap.dataLength chars (s.string string)
  | .copyRange _ _ text grantsRecord grantsData mode =>
    mode = StorageMode.managed ∨ text = [] ∨ grantsRecord = false ∨ grantsData = false
  | _ => True

instance (s : Strings) (call : WindowCall) : Decidable (s.Bounded chars call) :=
  match call with
  | .call (.substring _ _ string first last) => inferInstanceAs (Decidable
      (first.currentOffset ≤ last.currentOffset ∧
        last.currentOffset.toNat ≤ s.heap.dataLength chars (s.string string)))
  | .copyRange _ _ text grantsRecord grantsData mode => inferInstanceAs (Decidable
      (mode = StorageMode.managed ∨ text = [] ∨ grantsRecord = false ∨ grantsData = false))
  | .call (.empty _) => isTrue trivial
  | .call (.wrap _ _) => isTrue trivial
  | .call (.copyChars _ _ _ _ _) => isTrue trivial
  | .call (.copy _ _) => isTrue trivial
  | .call (.assign _ _) => isTrue trivial
  | .call (.destroy _) => isTrue trivial

/-- **The invariant**: every string that lives is inside its data, which has been allocated. -/
structure Kept (s : Strings) : Prop where
  allocated : s.heap.Allocated
  inside : ∀ a ∈ s.live, s.heap.Inside chars (s.string a)

end Strings

/-! ## One window -/

namespace BufferHeap

variable {chars : UInt64 → List UInt8} {h h' : BufferHeap} {o : StringObject}

/-- Data that is kept stays as long as it is. -/
theorem Keeps.dataLength_le (hkeep : h.Keeps h') (o : StringObject) :
    h.dataLength chars o ≤ h'.dataLength chars o := by
  unfold dataLength
  cases o.storage with
  | managed buffer =>
    cases buffer with
    | none => exact Nat.le_refl _
    | some b =>
      dsimp only [Option.bind_some]
      cases hb : h.buffers b with
      | none => exact Nat.zero_le _
      | some record =>
        obtain ⟨record', hb', hdata, hbytes⟩ := hkeep b record hb
        rw [hb']
        dsimp only
        rw [hdata, hbytes]
  | unmanaged constString => exact Nat.le_refl _

theorem Inside.keeps (ho : h.Inside chars o) (hkeep : h.Keeps h') : h'.Inside chars o :=
  ⟨ho.1, Nat.le_trans ho.2 (hkeep.dataLength_le o)⟩

/-- Nothing is inside everything. -/
theorem inside_of_empty (hoffset : o.offset = 0) (hlength : o.length = 0) : h.Inside chars o := by
  unfold Inside
  rw [hoffset, hlength]
  exact ⟨by decide, Nat.zero_le _⟩

/-- **A substring is inside iff its iterators are in order and the last is inside.** -/
theorem inside_narrowed_iff {first last : StringIterator} :
    h.Inside chars (o.narrowed first last) ↔ first.currentOffset ≤ last.currentOffset ∧
      last.currentOffset.toNat ≤ h.dataLength chars o := by
  have hsame : h.dataLength chars (o.narrowed first last) = h.dataLength chars o := rfl
  have hvalue : (o.narrowed first last).offset = first.currentOffset ∧
      (o.narrowed first last).length = last.currentOffset - first.currentOffset := ⟨rfl, rfl⟩
  have hlt := last.currentOffset.toNat_lt
  have hlt' := first.currentOffset.toNat_lt
  rw [Inside, hsame, hvalue.1, hvalue.2]
  by_cases horder : first.currentOffset ≤ last.currentOffset
  · rw [UInt64.toNat_sub_of_le _ _ horder]
    rw [UInt64.le_iff_toNat_le] at horder ⊢
    omega
  · -- the length wraps, and so does the window
    rw [UInt64.toNat_sub]
    rw [UInt64.le_iff_toNat_le] at horder ⊢
    omega

/-- The data of a new buffer is the text. -/
theorem inside_withBuffer (allocator : UInt64) (text : List UInt8) :
    (h.withBuffer allocator text).Inside chars
      ⟨.managed (some h.owners.length), 0, .ofNat text.length⟩ := by
  have hlength : (h.withBuffer allocator text).dataLength chars
      ⟨.managed (some h.owners.length), 0, .ofNat text.length⟩ = text.length := by
    simp only [dataLength, Option.bind_some, withBuffer_buffers, Function.update_self]
    exact congrArg List.length (Function.update_self ..)
  have hle : (UInt64.ofNat text.length).toNat ≤ text.length := by
    rw [UInt64.toNat_ofNat']
    exact Nat.mod_le _ _
  have hlt := (UInt64.ofNat text.length).toNat_lt
  rw [Inside, hlength, UInt64.toNat_zero, Nat.zero_add]
  exact ⟨hlt, hle⟩

theorem Allocated.withBuffer (hplace : h.Allocated) (allocator : UInt64) (text : List UInt8) :
    (h.withBuffer allocator text).Allocated := by
  intro b record hb
  have hlength : (h.withBuffer allocator text).owners.length = h.owners.length + 2 :=
    List.length_append
  rw [hlength]
  rcases buffers_withBuffer hb with ⟨rfl, rfl⟩ | hb
  · exact ⟨by omega, Nat.lt_succ_self _⟩
  · obtain ⟨hlt, hlt'⟩ := hplace b record hb
    exact ⟨by omega, by omega⟩

/-- **What the construction of a buffer leaves**: a new buffer, or none and the heap that was. -/
theorem constructBuffer_leaves (hplace : h.Allocated) (allocator : UInt64) (text : List UInt8)
    (grantsRecord grantsData : Bool) {buffer : Option Nat}
    (hbuilt : h.constructBuffer allocator text grantsRecord grantsData = (buffer, h')) :
    h.Keeps h' ∧ h'.Allocated ∧
      ((grantsRecord = true ∧ grantsData = true ∧ buffer = some h.owners.length ∧
          h' = h.withBuffer allocator text) ∨
        ((grantsRecord = false ∨ grantsData = false) ∧ buffer = none)) := by
  cases grantsRecord with
  | false =>
    obtain ⟨rfl, rfl⟩ := Prod.mk.inj hbuilt
    exact ⟨Keeps.refl h, hplace, .inr ⟨.inl rfl, rfl⟩⟩
  | true =>
    cases grantsData with
    | false =>
      obtain ⟨rfl, rfl⟩ := Prod.mk.inj hbuilt
      refine ⟨fun b record hb => ⟨record, hb, rfl, rfl⟩, fun b record hb => ?_,
        .inr ⟨.inr rfl, rfl⟩⟩
      obtain ⟨hlt, hlt'⟩ := hplace b record hb
      have hlength : (h.owners ++ [allocator]).length = h.owners.length + 1 := List.length_append
      change b < (h.owners ++ [allocator]).length ∧ record.data < (h.owners ++ [allocator]).length
      rw [hlength]
      exact ⟨by omega, by omega⟩
    | true =>
      rw [constructBuffer_eq] at hbuilt
      obtain ⟨rfl, rfl⟩ := Prod.mk.inj hbuilt
      exact ⟨Keeps.withBuffer hplace allocator text, hplace.withBuffer allocator text,
        .inl ⟨rfl, rfl, rfl, rfl⟩⟩

end BufferHeap

/-! ## The windows of a run -/

namespace Strings

open BufferHeap

variable {chars : UInt64 → List UInt8} {address : Nat → UInt64} {s s' : Strings}
  {target allocator : UInt64} {text : List UInt8} {grantsRecord grantsData : Bool} {mode : Int}

theorem Kept.construct (h : s.Kept chars) {heap : BufferHeap} (hkeep : s.heap.Keeps heap)
    (hplace : heap.Allocated) {value : StringObject} (hvalue : heap.Inside chars value) :
    ({ s with heap := heap }.construct target value).Kept chars := by
  refine ⟨hplace, fun a ha => ?_⟩
  change heap.Inside chars (Function.update s.string target value a)
  by_cases heq : a = target
  · rw [heq, Function.update_self]
    exact hvalue
  · rw [Function.update_of_ne heq]
    exact (h.inside a ((List.mem_cons.mp ha).resolve_left heq)).keeps hkeep

/-- Strings that are there after counting, or were there. -/
theorem Kept.recounts (h : s.Kept chars) (hcount : s.heap.Recounts s'.heap)
    (hstrings : ∀ a ∈ s'.live, s.heap.Inside chars (s'.string a)) : s'.Kept chars :=
  ⟨hcount.allocated h.allocated, fun a ha => (hstrings a ha).keeps hcount.keeps⟩

theorem Kept.update (h : s.Kept chars) {value : StringObject} (hvalue : s.heap.Inside chars value)
    {a : UInt64} (ha : a ≠ target → a ∈ s.live) :
    s.heap.Inside chars (Function.update s.string target value a) := by
  by_cases heq : a = target
  · rwa [heq, Function.update_self]
  · rw [Function.update_of_ne heq]
    exact h.inside a (ha heq)

theorem Kept.copyChars (h : s.Kept chars)
    (hrun : s.copyChars target allocator text grantsRecord grantsData = some s') :
    s'.Kept chars := by
  unfold Strings.copyChars at hrun
  generalize hbuilt : s.heap.constructBuffer allocator text grantsRecord grantsData = built at hrun
  obtain ⟨buffer, heap⟩ := built
  obtain ⟨record, hget, hrun⟩ := Option.bind_eq_some_iff.mp hrun
  obtain rfl := Option.some.inj hrun
  obtain ⟨b, rfl, hb, -⟩ := getBuffer_eq_some hget
  obtain ⟨hkeep, hplace, ⟨-, -, hbuffer, rfl⟩ | ⟨-, hnone⟩⟩ :=
    constructBuffer_leaves h.allocated allocator text grantsRecord grantsData hbuilt
  · obtain rfl := Option.some.inj hbuffer
    rw [withBuffer_buffers, Function.update_self] at hb
    obtain rfl := Option.some.inj hb
    exact h.construct hkeep hplace (inside_withBuffer allocator text)
  · exact absurd hnone (by simp)

theorem Kept.copyRange (h : s.Kept chars)
    (hbounded : s.Bounded chars
      (.copyRange target allocator text grantsRecord grantsData mode))
    (hrun : s.copyRange address target allocator text grantsRecord grantsData mode = some s') :
    s'.Kept chars := by
  unfold Strings.copyRange at hrun
  generalize hbuilt : s.heap.constructBuffer allocator text grantsRecord grantsData = built at hrun
  obtain ⟨buffer, heap⟩ := built
  obtain ⟨storage, hmode, hrun⟩ := Option.bind_eq_some_iff.mp hrun
  dsimp only at hrun
  obtain ⟨hkeep, hplace, ⟨hrecord, hdata, rfl, rfl⟩ | ⟨-, rfl⟩⟩ :=
    constructBuffer_leaves h.allocated allocator text grantsRecord grantsData hbuilt
  · rw [if_pos (by simp)] at hrun
    obtain ⟨record, hget, hrun⟩ := Option.bind_eq_some_iff.mp hrun
    obtain rfl := Option.some.inj hrun
    obtain ⟨b, hbuffer, hb, -⟩ := getBuffer_eq_some hget
    obtain rfl := Option.some.inj hbuffer
    rw [withBuffer_buffers, Function.update_self] at hb
    obtain rfl := Option.some.inj hb
    refine h.construct hkeep hplace ?_
    rcases hbounded with rfl | rfl | hrefused | hrefused
    · rw [Storage.ofMode, if_pos rfl] at hmode
      obtain rfl := Option.some.inj hmode
      exact inside_withBuffer allocator text
    · exact inside_of_empty rfl rfl
    · exact absurd (hrecord.symm.trans hrefused) (by simp)
    · exact absurd (hdata.symm.trans hrefused) (by simp)
  · rw [if_neg (by simp)] at hrun
    obtain rfl := Option.some.inj hrun
    exact h.construct hkeep hplace (inside_of_empty rfl rfl)

/-- **What every call keeps**: the windows are inside. -/
theorem Kept.step (h : s.Kept chars) {call : WindowCall} (huses : s.Uses call)
    (hbounded : s.Bounded chars call) (hrun : s.windowStep chars address call = some ((), s')) :
    s'.Kept chars := by
  cases call with
  | copyRange target allocator text grantsRecord grantsData mode =>
    exact h.copyRange hbounded (map_mk_eq_some.mp hrun)
  | call c =>
    have hcall := map_mk_eq_some.mp hrun
    cases c with
    | empty target =>
      obtain rfl := Option.some.inj hcall
      exact h.construct (Keeps.refl s.heap) h.allocated (inside_of_empty rfl rfl)
    | wrap target data =>
      obtain rfl := Option.some.inj hcall
      refine h.construct (Keeps.refl s.heap) h.allocated ⟨?_, ?_⟩
      · rw [UInt64.toNat_zero, Nat.zero_add]
        exact UInt64.toNat_lt _
      · rw [UInt64.toNat_zero, Nat.zero_add, UInt64.toNat_ofNat']
        exact Nat.mod_le _ _
    | copyChars target allocator data grantsRecord grantsData => exact h.copyChars hcall
    | copy target other =>
      obtain ⟨hcount, hlive, hstring⟩ := copyConstruct_leaves hcall
      refine h.recounts hcount fun a ha => ?_
      rw [hstring]
      exact h.update (h.inside other huses) fun hne =>
        (List.mem_cons.mp (hlive ▸ ha)).resolve_left hne
    | assign target other =>
      obtain ⟨hcount, hlive, hstring⟩ := assign_leaves hcall
      refine h.recounts hcount fun a ha => ?_
      rw [hstring]
      exact h.update (h.inside other huses) fun _ => hlive ▸ ha
    | substring target temporary string first last =>
      obtain ⟨hstring, hfirst, hlast⟩ := huses
      obtain ⟨hcount, hstrings, hlive⟩ := substring_leaves hfirst hlast hcall
      refine h.recounts hcount fun a ha => ?_
      rw [hstrings]
      split_ifs with hnew
      · exact inside_narrowed_iff.mpr hbounded
      · obtain ⟨htarget, htemporary⟩ := not_or.mp hnew
        exact h.inside a (((hlive a htemporary).mp ha).resolve_left htarget)
    | destroy target =>
      obtain ⟨hcount, hlive, hstring⟩ := destruct_leaves hcall
      refine h.recounts hcount fun a ha => ?_
      rw [hstring]
      exact h.inside a (List.mem_of_mem_erase (hlive ▸ ha))

theorem kept_start : start.Kept chars :=
  ⟨fun _ _ hb => absurd hb (by simp [start]), fun _ ha => absurd ha List.not_mem_nil⟩

/-- **The windows of the strings of a run are inside their data**, if all the calls are bounded. -/
theorem run_inside {calls : List WindowCall} {os : List Unit}
    (hcalls : Along (windowStep chars address) (fun s call => s.Uses call ∧ s.Bounded chars call)
      start calls)
    (hrun : exec (windowStep chars address) start calls = some (os, s)) :
    ∀ a ∈ s.live, s.heap.Inside chars (s.string a) := by
  have hkept : s.Kept chars := exec_invariant (Kept chars)
    (fun s call _ s' h hcall hstep => h.step hcall.1 hcall.2 hstep) kept_start hcalls hrun
  exact hkept.inside

/-- `"foo"` copied to a buffer, its last two characters, and an empty string in its place. -/
def sampleWindowCalls : List WindowCall :=
  [.copyRange 1 0x10 [0x66, 0x6f, 0x6f] true true 0, .call (.substring 2 none 1 ⟨1, 1⟩ ⟨1, 3⟩),
    .call (.empty 3), .call (.assign 1 3)]

theorem run_inside_sample : ∃ os s,
    exec (windowStep (fun _ => []) fun _ => 0x1000) start sampleWindowCalls = some (os, s) ∧
      ∀ a ∈ s.live, s.heap.Inside (fun _ => []) (s.string a) := by
  have hcalls : Along (windowStep (fun _ => []) fun _ => 0x1000)
      (fun s call => s.Uses call ∧ s.Bounded (fun _ => []) call) start sampleWindowCalls := by
    decide
  exact ⟨_, _, rfl, run_inside hcalls rfl⟩

/-- **The substring of `"a"` from `end()` to `begin()` is longer than any data.** -/
theorem not_run_inside : ¬ ∀ (chars : UInt64 → List UInt8) (address : Nat → UInt64)
    (calls : List WindowCall) (os : List Unit) (s : Strings),
    Along (windowStep chars address) Uses start calls →
      exec (windowStep chars address) start calls = some (os, s) →
        ∀ a ∈ s.live, s.heap.Inside chars (s.string a) := by
  intro h
  have hinside := h (fun _ => [0x61]) (fun _ => 0x1000)
    [.call (.wrap 1 0x10), .call (.substring 2 none 1 ⟨1, 1⟩ ⟨1, 0⟩)] _ _ (by decide) rfl 2
    (by decide)
  exact absurd hinside.1 (by decide)

end Strings

end Hologine.Text
