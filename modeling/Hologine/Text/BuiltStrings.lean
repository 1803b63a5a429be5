import Hologine.Text.StringBuilder

/-!
# The buffers of built strings

What becomes of the buffer that `string_builder::to_string` makes
(`core/text/string_builder.cpp:46-90`) when the strings that hold it are copied, assigned to and
destroyed (`core/text/string.cpp:149-208`).

Slip of the source: `to_string` fills the record of the buffer by hand and does not set its
allocator, so it is the null that the record is constructed with. Copies, assignments and substrings
do not read it, but the last string that holds the buffer releases the record and the data to it.

Results:
* `Mirrors.step`: strings whose records name other allocators do the same under every call.
* `Built.step`: so buffers are counted also where `to_string` has made some of them.
* `Built.returned_iff`: a call makes no release to a wrong allocator **iff** it leaves every record
  that names none to be held.
* `run_returned_iff`: so do the calls of a run **iff** the last string that holds a built buffer
  stays.
-/

namespace Hologine.Text

open Hologine.Library Hologine.Library.Run

/-- A call of the strings, or `string_builder::to_string`, to a string. -/
inductive BuildingCall
  | string (call : StringCall)
  | toString (target : UInt64) (builder : StringBuilder) (allocator : UInt64)
      (uninitialized : Uninitialized)

/-- The allocator that a string is made with is there. -/
def StringCall.HasAllocator : StringCall → Prop
  | .copyChars _ allocator _ _ _ => allocator ≠ 0
  | _ => True

instance (call : StringCall) : Decidable call.HasAllocator :=
  match call with
  | .copyChars _ allocator _ _ _ => inferInstanceAs (Decidable (allocator ≠ 0))
  | .empty _ | .wrap _ _ | .copy _ _ | .assign _ _ | .substring _ _ _ _ _ | .destroy _ =>
    isTrue trivial

namespace Strings

variable (chars : UInt64 → List UInt8)

/-- One call. -/
def buildingStep (s : Strings) : BuildingCall → Option (Unit × Strings)
  | .string call => s.step chars call
  | .toString target builder allocator uninitialized =>
    (builder.toString s.heap allocator uninitialized).map fun r =>
      ((), { s with heap := r.2 }.construct target r.1)

/-- A legal call, with an allocator that is there. What `to_string` copies is in the buffers of the
builder, and in the data it makes. -/
def BuildingLegal (s : Strings) : BuildingCall → Prop
  | .string call => s.Legal call ∧ call.HasAllocator
  | .toString target builder allocator uninitialized =>
    s.Vacant target ∧ allocator ≠ 0 ∧ (builder.toString s.heap allocator uninitialized).isSome

instance (s : Strings) (call : BuildingCall) : Decidable (s.BuildingLegal call) :=
  match call with
  | .string call => inferInstanceAs (Decidable (s.Legal call ∧ call.HasAllocator))
  | .toString target builder allocator uninitialized =>
    inferInstanceAs (Decidable (s.Vacant target ∧ allocator ≠ 0 ∧
      (builder.toString s.heap allocator uninitialized).isSome = true))

/-- A call that the last string that holds a buffer is destroyed or reassigned by. -/
def DropsLast (s : Strings) (b : Nat) : StringCall → Prop
  | .assign target other =>
    target ≠ other ∧ (s.string target).buffer = some b ∧ s.holders b = 1
  | .destroy target => (s.string target).buffer = some b ∧ s.holders b = 1
  | _ => False

/-- A call that leaves the buffers whose records name no allocator to be held. -/
def LeavesBuilt (s : Strings) : BuildingCall → Prop
  | .string call => ∀ b record, s.heap.buffers b = some record → record.allocator = 0 →
      ¬ s.DropsLast b call
  | .toString _ _ _ _ => True

end Strings

/-! ## Records that name other allocators -/

/-- A record, whatever allocator it names. -/
def StringBuffer.anonymous (record : StringBuffer) : StringBuffer :=
  { record with allocator := 0 }

theorem StringBuffer.eq_of_anonymous {record record' : StringBuffer}
    (h : record'.anonymous = record.anonymous) : record'.data = record.data ∧
      record'.length = record.length ∧ record'.referenceCount = record.referenceCount := by
  obtain ⟨hdata, hlength, hcount, -⟩ := StringBuffer.mk.inj h
  exact ⟨hdata, hlength, hcount⟩

namespace BufferHeap

/-- **Heaps that differ in the allocators** that the records name and the releases are made to. -/
structure Mirrors (h g : BufferHeap) : Prop where
  owners : g.owners = h.owners
  blocks : g.released.map Prod.snd = h.released.map Prod.snd
  buffers : ∀ b, (g.buffers b).map StringBuffer.anonymous =
    (h.buffers b).map StringBuffer.anonymous

variable {h h' g : BufferHeap} {b : Nat} {record record' : StringBuffer} {buffer : Option Nat}

theorem Mirrors.symm (hm : h.Mirrors g) : g.Mirrors h :=
  ⟨hm.owners.symm, hm.blocks.symm, fun b => (hm.buffers b).symm⟩

theorem Mirrors.exists_buffer (hm : h.Mirrors g) (hb : h.buffers b = some record) :
    ∃ record', g.buffers b = some record' ∧ record'.anonymous = record.anonymous := by
  have hbuffer := hm.buffers b
  rw [hb, Option.map_some] at hbuffer
  exact Option.map_eq_some_iff.mp hbuffer

theorem Mirrors.timesReleased (hm : h.Mirrors g) (block : Nat) :
    g.timesReleased block = h.timesReleased block := by
  have hcount : ∀ h : BufferHeap, h.timesReleased block =
      (h.released.map Prod.snd).countP fun b => b = block := fun h => by
    rw [List.countP_map]
    rfl
  rw [hcount, hcount, hm.blocks]

theorem Mirrors.getBuffer (hm : h.Mirrors g) (hget : h.getBuffer (some b) = some record) :
    ∃ record', g.getBuffer (some b) = some record' ∧ record'.anonymous = record.anonymous := by
  rw [BufferHeap.getBuffer, Option.bind_eq_bind, Option.bind_some] at hget ⊢
  split_ifs at hget with hlive
  rw [if_pos ((hm.timesReleased b).trans hlive)]
  exact hm.exists_buffer hget

theorem Mirrors.withCount (hm : h.Mirrors g) (heq : record'.anonymous = record.anonymous)
    (c : UInt64) : (h.withCount b record c).Mirrors (g.withCount b record' c) := by
  refine ⟨hm.owners, hm.blocks, fun b' => ?_⟩
  rw [withCount_buffers, withCount_buffers]
  by_cases hsame : b' = b
  · rw [hsame, Function.update_self, Function.update_self, Option.map_some, Option.map_some]
    exact congrArg (fun r => some { r with referenceCount := c }) heq
  · rw [Function.update_of_ne hsame, Function.update_of_ne hsame]
    exact hm.buffers b'

/-- **A heap with one more buffer**: the record and the data are two new blocks of an allocator, and
the record names it or none. -/
structure Adds (h h' : BufferHeap) (allocator : UInt64) (record : StringBuffer) : Prop where
  owners : h'.owners = h.owners ++ [allocator, allocator]
  released : h'.released = h.released
  buffers : h'.buffers = Function.update h.buffers h.owners.length (some record)
  named : record.allocator = 0 ∨ record.allocator = allocator

theorem adds_withBuffer (h : BufferHeap) (allocator : UInt64) (text : List UInt8) :
    h.Adds (h.withBuffer allocator text) allocator
      ⟨h.owners.length + 1, .ofNat text.length, 1, allocator⟩ :=
  ⟨rfl, rfl, rfl, .inr rfl⟩

/-- What is added is as if characters had been copied. -/
theorem Adds.mirrors {allocator : UInt64} {text : List UInt8} (hadds : h.Adds h' allocator record)
    (hm : h.Mirrors g) (heq : record.anonymous = ⟨h.owners.length + 1, .ofNat text.length, 1, 0⟩) :
    h'.Mirrors (g.withBuffer allocator text) := by
  refine ⟨?_, hadds.released ▸ hm.blocks, fun b => ?_⟩
  · rw [hadds.owners, withBuffer, hm.owners]
  · rw [hadds.buffers, withBuffer_buffers, hm.owners]
    by_cases hnew : b = h.owners.length
    · rw [hnew, Function.update_self, Function.update_self, Option.map_some, Option.map_some, heq]
      rfl
    · rw [Function.update_of_ne hnew, Function.update_of_ne hnew]
      exact hm.buffers b

theorem Mirrors.referenceBuffer (hm : h.Mirrors g) (hrun : h.referenceBuffer buffer = some h') :
    ∃ g', g.referenceBuffer buffer = some g' ∧ h'.Mirrors g' := by
  obtain ⟨record, hget, -⟩ := Option.bind_eq_some_iff.mp hrun
  obtain ⟨b, rfl, -, -⟩ := getBuffer_eq_some hget
  obtain ⟨record', hget', heq⟩ := hm.getBuffer hget
  rw [referenceBuffer_eq hget] at hrun
  obtain rfl := Option.some.inj hrun
  obtain ⟨-, -, hcount⟩ := StringBuffer.eq_of_anonymous heq
  exact ⟨_, referenceBuffer_eq hget', hcount ▸ hm.withCount heq _⟩

theorem Mirrors.dereferenceBuffer (hm : h.Mirrors g)
    (hrun : h.dereferenceBuffer buffer = some h') :
    ∃ g', g.dereferenceBuffer buffer = some g' ∧ h'.Mirrors g' := by
  obtain ⟨record, hget, -⟩ := Option.bind_eq_some_iff.mp hrun
  obtain ⟨b, rfl, -, -⟩ := getBuffer_eq_some hget
  obtain ⟨record', hget', heq⟩ := hm.getBuffer hget
  obtain ⟨hdata, -, hcount⟩ := StringBuffer.eq_of_anonymous heq
  have hless := hm.withCount (b := b) heq (record.referenceCount - 1)
  rw [dereferenceBuffer_eq hget] at hrun
  rw [dereferenceBuffer_eq hget', hcount]
  split_ifs at hrun ⊢ with hzero hlast
  -- the same blocks are released
  · obtain rfl := Option.some.inj hrun
    refine ⟨_, rfl, hless.owners, ?_, hless.buffers⟩
    exact congrArg₂ (fun data blocks => b :: data :: blocks) hdata hm.blocks
  · obtain rfl := Option.some.inj hrun
    exact ⟨_, rfl, hless⟩

theorem Mirrors.dropBuffer {s : StringObject} (hm : h.Mirrors g)
    (hrun : h.dropBuffer s = some h') : ∃ g', g.dropBuffer s = some g' ∧ h'.Mirrors g' := by
  unfold BufferHeap.dropBuffer at hrun ⊢
  cases hs : s.storage with
  | managed buffer =>
    rw [hs] at hrun
    exact hm.dereferenceBuffer hrun
  | unmanaged constString =>
    rw [hs] at hrun
    obtain rfl := Option.some.inj hrun
    exact ⟨g, rfl, hm⟩

theorem Mirrors.takeBuffer {s : StringObject} (hm : h.Mirrors g)
    (hrun : h.takeBuffer s = some h') : ∃ g', g.takeBuffer s = some g' ∧ h'.Mirrors g' := by
  unfold BufferHeap.takeBuffer at hrun ⊢
  cases hs : s.storage with
  | managed buffer =>
    rw [hs] at hrun
    exact hm.referenceBuffer hrun
  | unmanaged constString =>
    rw [hs] at hrun
    obtain rfl := Option.some.inj hrun
    exact ⟨g, rfl, hm⟩

end BufferHeap

namespace Strings

/-- Strings that differ in the allocators their records name. -/
structure Mirrors (s t : Strings) : Prop where
  heap : s.heap.Mirrors t.heap
  live : t.live = s.live
  string : t.string = s.string

variable {chars : UInt64 → List UInt8} {s s' t : Strings} {target other : UInt64} {b : Nat}
  {record : StringBuffer} {call : StringCall}

theorem Mirrors.symm (hm : s.Mirrors t) : t.Mirrors s :=
  ⟨hm.heap.symm, hm.live.symm, hm.string.symm⟩

theorem Mirrors.holders (hm : s.Mirrors t) : t.holders = s.holders := by
  funext b
  rw [Strings.holders, Strings.holders, hm.live, hm.string]

theorem Mirrors.legal (hm : s.Mirrors t) (hlegal : s.Legal call) : t.Legal call := by
  unfold Legal Vacant VacantBeside Vacant at hlegal ⊢
  rw [hm.live]
  exact hlegal

theorem Mirrors.construct (hm : s.Mirrors t) (target : UInt64) (value : StringObject) :
    (s.construct target value).Mirrors (t.construct target value) := by
  refine ⟨hm.heap, congrArg (target :: ·) hm.live, ?_⟩
  rw [Strings.construct, Strings.construct, hm.string]

theorem Mirrors.copyConstruct (hm : s.Mirrors t) (hrun : s.copyConstruct target other = some s') :
    ∃ t', t.copyConstruct target other = some t' ∧ s'.Mirrors t' := by
  unfold Strings.copyConstruct at hrun ⊢
  rw [hm.string]
  dsimp only at hrun ⊢
  split at hrun
  · split_ifs at hrun ⊢
    · obtain ⟨heap, htake, hrun⟩ := Option.bind_eq_some_iff.mp hrun
      obtain rfl := Option.some.inj hrun
      obtain ⟨heap', htake', hheap⟩ := hm.heap.referenceBuffer htake
      rw [htake']
      refine ⟨_, rfl, Mirrors.construct ?_ target _⟩
      exact ⟨hheap, hm.live, rfl⟩
    · obtain rfl := Option.some.inj hrun
      exact ⟨_, rfl, hm.construct target _⟩
  · obtain rfl := Option.some.inj hrun
    exact ⟨_, rfl, hm.construct target _⟩

theorem Mirrors.destruct (hm : s.Mirrors t) (hrun : s.destruct target = some s') :
    ∃ t', t.destruct target = some t' ∧ s'.Mirrors t' := by
  have hlive := congrArg (List.erase · target) hm.live
  unfold Strings.destruct at hrun ⊢
  rw [hm.string]
  dsimp only at hrun ⊢
  split at hrun
  · split_ifs at hrun ⊢
    · obtain ⟨heap, hdrop, hrun⟩ := Option.bind_eq_some_iff.mp hrun
      obtain rfl := Option.some.inj hrun
      obtain ⟨heap', hdrop', hheap⟩ := hm.heap.dereferenceBuffer hdrop
      rw [hdrop']
      exact ⟨_, rfl, hheap, hlive, rfl⟩
    · obtain rfl := Option.some.inj hrun
      exact ⟨_, rfl, hm.heap, hlive, rfl⟩
  · obtain rfl := Option.some.inj hrun
    exact ⟨_, rfl, hm.heap, hlive, rfl⟩

theorem Mirrors.assign (hm : s.Mirrors t) (hrun : s.assign target other = some s') :
    ∃ t', t.assign target other = some t' ∧ s'.Mirrors t' := by
  unfold Strings.assign at hrun ⊢
  rw [hm.string]
  split_ifs at hrun ⊢ with hne
  · obtain ⟨heap, hdrop, hrun⟩ := Option.bind_eq_some_iff.mp hrun
    obtain ⟨heap', htake, hrun⟩ := Option.bind_eq_some_iff.mp hrun
    obtain rfl := Option.some.inj hrun
    obtain ⟨heap₁, hdrop', hheap⟩ := hm.heap.dropBuffer hdrop
    obtain ⟨heap₂, htake', hheap'⟩ := hheap.takeBuffer htake
    simp only [hdrop', htake', Option.bind_eq_bind, Option.bind_some]
    exact ⟨_, rfl, hheap', hm.live, rfl⟩
  · obtain rfl := Option.some.inj hrun
    exact ⟨t, rfl, hm⟩

theorem Mirrors.narrow (hm : s.Mirrors t) (target : UInt64) (first last : StringIterator) :
    (s.narrow target first last).Mirrors (t.narrow target first last) := by
  refine ⟨hm.heap, hm.live, ?_⟩
  rw [narrow_string, narrow_string, hm.string]

theorem Mirrors.substring {temporary : Option UInt64} {string : UInt64}
    {first last : StringIterator} (hm : s.Mirrors t)
    (hrun : s.substring target temporary string first last = some s') :
    ∃ t', t.substring target temporary string first last = some t' ∧ s'.Mirrors t' := by
  unfold Strings.substring at hrun ⊢
  split_ifs at hrun ⊢ with hforeign
  · obtain rfl := Option.some.inj hrun
    refine ⟨_, rfl, Mirrors.construct ?_ target .empty⟩
    exact ⟨hm.heap, hm.live, hm.string⟩
  · cases temporary with
    | none =>
      obtain ⟨s₁, hcopy, hrun⟩ := Option.bind_eq_some_iff.mp hrun
      obtain rfl := Option.some.inj hrun
      obtain ⟨t₁, hcopy', hm₁⟩ := hm.copyConstruct hcopy
      simp only [hcopy', Option.bind_eq_bind, Option.bind_some]
      exact ⟨_, rfl, hm₁.narrow target first last⟩
    | some temporary =>
      obtain ⟨s₁, hcopy, hrun⟩ := Option.bind_eq_some_iff.mp hrun
      obtain ⟨s₂, hresult, hdestruct⟩ := Option.bind_eq_some_iff.mp hrun
      obtain ⟨t₁, hcopy', hm₁⟩ := hm.copyConstruct hcopy
      obtain ⟨t₂, hresult', hm₂⟩ := (hm₁.narrow temporary first last).copyConstruct hresult
      obtain ⟨t₃, hdestruct', hm₃⟩ := hm₂.destruct hdestruct
      simp only [hcopy', hresult', hdestruct', Option.bind_eq_bind, Option.bind_some]
      exact ⟨t₃, rfl, hm₃⟩

theorem Mirrors.copyChars (hm : s.Mirrors t) {allocator : UInt64} {text : List UInt8}
    (hrun : s.copyChars target allocator text true true = some s') :
    ∃ t', t.copyChars target allocator text true true = some t' ∧ s'.Mirrors t' := by
  have hheap := (BufferHeap.adds_withBuffer s.heap allocator text).mirrors hm.heap rfl
  unfold Strings.copyChars at hrun ⊢
  simp only [BufferHeap.constructBuffer_eq] at hrun ⊢
  obtain ⟨record, hget, hrun⟩ := Option.bind_eq_some_iff.mp hrun
  obtain rfl := Option.some.inj hrun
  obtain ⟨record', hget', heq⟩ := hheap.getBuffer hget
  obtain ⟨-, hlength, -⟩ := StringBuffer.eq_of_anonymous heq
  simp only [hm.heap.owners, hget', hlength, Option.bind_eq_bind, Option.bind_some]
  refine ⟨_, rfl, Mirrors.construct ?_ target _⟩
  exact ⟨hheap, hm.live, hm.string⟩

/-- **A call does the same whatever allocators the records name.** -/
theorem Mirrors.step (hm : s.Mirrors t) (hlegal : s.Legal call)
    (hrun : s.step chars call = some ((), s')) :
    ∃ t', t.step chars call = some ((), t') ∧ s'.Mirrors t' := by
  have hcall := map_mk_eq_some.mp hrun
  cases call with
  | empty target =>
    obtain rfl := Option.some.inj hcall
    exact ⟨_, rfl, hm.construct target .empty⟩
  | wrap target data =>
    obtain rfl := Option.some.inj hcall
    exact ⟨_, rfl, hm.construct target _⟩
  | copyChars target allocator data grantsRecord grantsData =>
    obtain ⟨-, rfl, rfl⟩ := hlegal
    exact exists_map_mk (hm.copyChars hcall)
  | copy target other => exact exists_map_mk (hm.copyConstruct hcall)
  | assign target other => exact exists_map_mk (hm.assign hcall)
  | substring target temporary string first last => exact exists_map_mk (hm.substring hcall)
  | destroy target => exact exists_map_mk (hm.destruct hcall)

end Strings

/-! ## What `to_string` makes -/

/-- **A built string is empty, or has a new buffer** whose record names no allocator. -/
theorem StringBuilder.toString_cases {builder : StringBuilder} {h h' : BufferHeap}
    {allocator : UInt64} {uninitialized : Uninitialized} {string : StringObject}
    (hrun : builder.toString h allocator uninitialized = some (string, h')) :
    (string = .empty ∧ h' = h) ∨
      string = ⟨.managed (some h.owners.length), 0, 0⟩ ∧
        h.Adds h' allocator ⟨h.owners.length + 1, builder.length, 1, 0⟩ := by
  unfold StringBuilder.toString at hrun
  split_ifs at hrun
  · obtain ⟨bytes, -, hrun⟩ := Option.bind_eq_some_iff.mp hrun
    obtain ⟨rfl, rfl⟩ := Prod.mk.inj (Option.some.inj hrun)
    refine .inr ⟨rfl, ?_, rfl, ?_, .inl rfl⟩
    · exact List.append_assoc h.owners [allocator] [allocator]
    · simp only [List.length_append, List.length_singleton]
  · obtain ⟨rfl, rfl⟩ := Prod.mk.inj (Option.some.inj hrun)
    exact .inl ⟨rfl, rfl⟩

/-! ## Who holds a buffer -/

namespace Strings

variable {chars : UInt64 → List UInt8} {s s' : Strings} {call : StringCall}

/-- **A buffer that is held is held after a call iff the last holder did not go with it.** -/
theorem dropsLast_iff (hnodup : s.live.Nodup) (hlegal : s.Legal call)
    (hrun : s.step chars call = some ((), s')) (b : Nat) :
    s.DropsLast b call ↔ s.holders b ≠ 0 ∧ s'.holders b = 0 := by
  have hcall := map_mk_eq_some.mp hrun
  cases call with
  | assign target other =>
    obtain ⟨-, hlive, hstring⟩ := assign_leaves hcall
    have hholders : s'.holders b = references s.live (Function.update
        (fun a => (s.string a).buffer) target (s.string other).buffer) b := by
      rw [holders, hlive, hstring, buffer_update]
    rw [hholders]
    exact (references_update_eq_zero_iff (fun a => (s.string a).buffer) b hnodup hlegal.1
      hlegal.2).symm
  | destroy target =>
    obtain ⟨-, hlive, hstring⟩ := destruct_leaves hcall
    have hholders : s'.holders b =
        references (s.live.erase target) (fun a => (s.string a).buffer) b := by
      rw [holders, hlive, hstring]
    rw [hholders]
    exact (references_erase_eq_zero_iff (fun a => (s.string a).buffer) b hlegal).symm
  | _ =>
    refine ⟨False.elim, fun hdrops => ?_⟩
    -- who has held it lives on, and still does
    obtain ⟨a, ha, hheld⟩ := List.countP_pos_iff.mp (Nat.pos_of_ne_zero hdrops.1)
    obtain ⟨ha', hsame⟩ := step_frame hlegal ha trivial hrun
    have hpos := held_le_holders ha' b
    rw [hsame, BufferHeap.held, if_pos (of_decide_eq_true hheld)] at hpos
    exact Nat.ne_of_gt hpos hdrops.2

end Strings

/-! ## What a call makes of the heap -/

namespace BufferHeap

/-- Every release is made to the allocator that the block is from. -/
def Returned (h : BufferHeap) : Prop := ∀ r ∈ h.released, h.owners[r.2]? = some r.1

theorem Adds.returned {h h' : BufferHeap} {allocator : UInt64} {record : StringBuffer}
    (hadds : h.Adds h' allocator record) (hreturned : h.Returned) : h'.Returned := by
  intro r hr
  rw [hadds.owners]
  exact owners_append (hreturned r (hadds.released ▸ hr)) _

end BufferHeap

namespace Strings

open BufferHeap

variable {chars : UInt64 → List UInt8} {s s' : Strings} {call : StringCall} {b : Nat}
  {record : StringBuffer} {allocator : UInt64}

/-- **A call counts, or adds a buffer**, and then drops none. -/
theorem step_heap (hlegal : s.Legal call) (hallocator : call.HasAllocator)
    (hrun : s.step chars call = some ((), s')) :
    s.heap.Recounts s'.heap ∨
      (∀ b, ¬ s.DropsLast b call) ∧ ∃ allocator record, allocator ≠ 0 ∧
        s.heap.Adds s'.heap allocator record := by
  have hcall := map_mk_eq_some.mp hrun
  cases call with
  | empty target =>
    obtain rfl := Option.some.inj hcall
    exact .inl (Recounts.refl s.heap)
  | wrap target data =>
    obtain rfl := Option.some.inj hcall
    exact .inl (Recounts.refl s.heap)
  | copyChars target allocator data grantsRecord grantsData =>
    obtain ⟨-, rfl, rfl⟩ := hlegal
    simp only [Strings.copyChars, constructBuffer_eq] at hcall
    obtain ⟨record, -, hcall⟩ := Option.bind_eq_some_iff.mp hcall
    obtain rfl := Option.some.inj hcall
    exact .inr ⟨fun _ => id, allocator, _, hallocator, adds_withBuffer s.heap allocator _⟩
  | copy target other => exact .inl (copyConstruct_leaves hcall).1
  | assign target other => exact .inl (assign_leaves hcall).1
  | substring target temporary string first last =>
    obtain ⟨-, -, -, hfirst, hlast⟩ := hlegal
    exact .inl (substring_leaves hfirst hlast hcall).1
  | destroy target => exact .inl (destruct_leaves hcall).1

/-! ## Buffers that are counted, whatever they name -/

/-- **The strings, with the buffers that `to_string` has made**: but for the allocators that the
records name they are as the strings of a run without it are, and a record names the allocator it
is from, or none. -/
structure Built (s : Strings) : Prop where
  mirrored : ∃ t : Strings, s.Mirrors t ∧ t.Inv
  named : ∀ b record, s.heap.buffers b = some record →
    record.allocator = 0 ∨ s.heap.owners[b]? = some record.allocator
  nonnull : 0 ∉ s.heap.owners

theorem built_start : start.Built where
  mirrored := ⟨start, ⟨⟨rfl, rfl, fun _ => rfl⟩, rfl, rfl⟩, inv_start⟩
  named _ _ hb := absurd hb (by simp [start])
  nonnull := List.not_mem_nil

theorem Built.nodup (hs : s.Built) : s.live.Nodup := by
  obtain ⟨t, hm, hinv⟩ := hs.mirrored
  exact hm.live ▸ hinv.nodup

/-- **Buffers are counted**, and the data is from where the record is. -/
theorem Built.counts (hs : s.Built) (hb : s.heap.buffers b = some record) :
    record.referenceCount.toNat = s.holders b ∧
      s.heap.timesReleased b = (if s.holders b = 0 then 1 else 0) ∧
      s.heap.timesReleased record.data = (if s.holders b = 0 then 1 else 0) ∧
      s.heap.owners[record.data]? = s.heap.owners[b]? := by
  obtain ⟨t, hm, hinv⟩ := hs.mirrored
  obtain ⟨record', hb', heq⟩ := hm.heap.exists_buffer hb
  obtain ⟨hdata, -, hcount⟩ := StringBuffer.eq_of_anonymous heq
  have hn := hinv.counted
  rw [hm.holders] at hn
  obtain ⟨hrecord, howner⟩ := hn.owned b record' hb'
  rw [← hm.heap.timesReleased, ← hm.heap.timesReleased, ← hm.heap.owners, ← hcount, ← hdata]
  exact ⟨hn.count b record' hb', hn.record b record' hb', hn.data b record' hb',
    howner.trans hrecord.symm⟩

/-- Records are not data. -/
theorem Built.apart (hs : s.Built) (hb : s.heap.buffers b = some record) {b' : Nat}
    {record' : StringBuffer} (hb' : s.heap.buffers b' = some record') : record.data ≠ b' := by
  obtain ⟨t, hm, hinv⟩ := hs.mirrored
  obtain ⟨r, hr, heq⟩ := hm.heap.exists_buffer hb
  obtain ⟨r', hr', -⟩ := hm.heap.exists_buffer hb'
  obtain ⟨hdata, -, -⟩ := StringBuffer.eq_of_anonymous heq
  exact hdata ▸ (hinv.counted.apart b r b' r' hr hr').1

/-- **The strings are counted iff no release is made to a wrong allocator.** -/
theorem Built.counted_iff (hs : s.Built) : s.Counted ↔ s.heap.Returned := by
  refine ⟨Counted.toOwner, fun hreturned => ⟨?_, ?_, ?_, hreturned⟩⟩
  · exact fun b record hb => (hs.counts hb).1
  · exact fun b record hb => (hs.counts hb).2.1
  · exact fun b record hb => (hs.counts hb).2.2.1

theorem Built.of_recounts (hs : s.Built) (hcount : s.heap.Recounts s'.heap)
    (hmirrored : ∃ t : Strings, s'.Mirrors t ∧ t.Inv) : s'.Built := by
  refine ⟨hmirrored, fun b record' hb' => ?_, hcount.owners ▸ hs.nonnull⟩
  obtain ⟨record, hb, heq⟩ := hcount.exists_buffer hb'
  rw [hcount.owners, StringBuffer.allocator_eq heq]
  exact hs.named b record hb

theorem Built.of_adds (hs : s.Built) (hadds : s.heap.Adds s'.heap allocator record)
    (hne : allocator ≠ 0) (hmirrored : ∃ t : Strings, s'.Mirrors t ∧ t.Inv) : s'.Built := by
  refine ⟨hmirrored, fun b' record' hb' => ?_, fun hmem => ?_⟩
  · rw [hadds.buffers] at hb'
    rw [hadds.owners]
    by_cases heq : b' = s.heap.owners.length
    · rw [heq, Function.update_self] at hb'
      obtain rfl := Option.some.inj hb'
      rcases hadds.named with hnone | hnamed
      · exact .inl hnone
      · rw [heq, hnamed]
        exact .inr (by simp)
    · rw [Function.update_of_ne heq] at hb'
      exact (hs.named b' record' hb').imp_right fun howner => owners_append howner _
  · rw [hadds.owners] at hmem
    rcases List.mem_append.mp hmem with hmem | hmem
    · exact hs.nonnull hmem
    · rcases List.mem_pair.mp hmem with heq | heq <;> exact hne heq.symm

/-- What a call releases is of a buffer that it drops the last holder of. -/
theorem Built.released_iff (hs : s.Built) (hs' : s'.Built) (hcount : s.heap.Recounts s'.heap)
    (hb : s.heap.buffers b = some record) {block : Nat} (hblock : block = b ∨ block = record.data) :
    s.heap.timesReleased block < s'.heap.timesReleased block ↔
      s.holders b ≠ 0 ∧ s'.holders b = 0 := by
  obtain ⟨record', hb', hdata, -⟩ := hcount.keeps b record hb
  obtain ⟨-, hrecord, hdataTimes, -⟩ := hs.counts hb
  obtain ⟨-, hrecord', hdataTimes', -⟩ := hs'.counts hb'
  rw [hdata] at hdataTimes'
  have htimes : s.heap.timesReleased block = if s.holders b = 0 then 1 else 0 := by
    rcases hblock with rfl | rfl
    · exact hrecord
    · exact hdataTimes
  have htimes' : s'.heap.timesReleased block = if s'.holders b = 0 then 1 else 0 := by
    rcases hblock with rfl | rfl
    · exact hrecord'
    · exact hdataTimes'
  rw [htimes, htimes']
  split_ifs <;> simp_all

/-- **A call makes no release to a wrong allocator iff it leaves every record that names none to be
held.** -/
theorem Built.returned_iff (hs : s.Built) (hs' : s'.Built) (hreturned : s.heap.Returned)
    (hcount : s.heap.Recounts s'.heap) :
    s'.heap.Returned ↔ ∀ b record, s.heap.buffers b = some record → record.allocator = 0 →
      ¬ (s.holders b ≠ 0 ∧ s'.holders b = 0) := by
  obtain ⟨more, hreleased, hmore⟩ := hcount.released
  have htimes : ∀ block, s'.heap.timesReleased block =
      more.countP (fun r => r.2 = block) + s.heap.timesReleased block := by
    intro block
    rw [timesReleased, hreleased, List.countP_append]
    rfl
  constructor
  · intro hreturned' b record hb hnone hdrops
    have hless := (hs.released_iff hs' hcount hb (.inl rfl)).mpr hdrops
    rw [htimes] at hless
    have hpos : 0 < more.countP fun r => r.2 = b := by omega
    obtain ⟨r, hr, hblock⟩ := List.countP_pos_iff.mp hpos
    obtain rfl : r.2 = b := of_decide_eq_true hblock
    -- the release is of this record, since no data is a record
    obtain ⟨b', record', hb', hallocator, hblock⟩ := hmore r hr
    rcases hblock with hsame | hdata
    · rw [← hsame, hb] at hb'
      obtain rfl := Option.some.inj hb'
      have howner := hreturned' r (hreleased ▸ List.mem_append_left _ hr)
      rw [hallocator, hnone] at howner
      exact hs'.nonnull (List.mem_of_getElem? howner)
    · exact hs.apart hb' hb hdata.symm
  · intro hheld r hr
    rw [hcount.owners]
    rcases List.mem_append.mp (hreleased ▸ hr) with hr | hr
    · obtain ⟨b, record, hb, hallocator, hblock⟩ := hmore r hr
      have hpos : 0 < more.countP fun r' => r'.2 = r.2 :=
        List.countP_pos_iff.mpr ⟨r, hr, decide_eq_true rfl⟩
      have hdrops := (hs.released_iff hs' hcount hb hblock).mp (by rw [htimes]; omega)
      have howner := (hs.named b record hb).resolve_left fun hnone => hheld b record hb hnone hdrops
      rw [hallocator]
      rcases hblock with hblock | hblock
      · rw [hblock, howner]
      · rw [hblock, (hs.counts hb).2.2.2, howner]
    · exact hreturned r hr

/-- **What every call keeps**: it is defined and leaves the buffers counted, and makes no release to
a wrong allocator iff it leaves the built buffers to be held. -/
theorem Built.step (hs : s.Built) (chars : UInt64 → List UInt8) {call : BuildingCall}
    (hlegal : s.BuildingLegal call) :
    ∃ s', s.buildingStep chars call = some ((), s') ∧ s'.Built ∧
      (s.heap.Returned → (s'.heap.Returned ↔ s.LeavesBuilt call)) := by
  obtain ⟨t, hm, hinv⟩ := hs.mirrored
  cases call with
  | string call =>
    obtain ⟨hlegal, hallocator⟩ := hlegal
    obtain ⟨t', hstep, hinv'⟩ := hinv.step chars (hm.legal hlegal)
    obtain ⟨s', hrun, hm'⟩ := hm.symm.step (hm.legal hlegal) hstep
    refine ⟨s', hrun, ?_⟩
    rcases step_heap hlegal hallocator hrun with hcount | ⟨hdrops, allocator, record, hne, hadds⟩
    · have hs' := hs.of_recounts hcount ⟨t', hm'.symm, hinv'⟩
      refine ⟨hs', fun hreturned => ?_⟩
      rw [hs.returned_iff hs' hreturned hcount]
      unfold LeavesBuilt
      simp only [dropsLast_iff hs.nodup hlegal hrun]
    · exact ⟨hs.of_adds hadds hne ⟨t', hm'.symm, hinv'⟩, fun hreturned =>
        iff_of_true (hadds.returned hreturned) fun b _ _ _ => hdrops b⟩
  | toString target builder allocator uninitialized =>
    obtain ⟨hvacant, hne, hdefined⟩ := hlegal
    obtain ⟨⟨string, heap⟩, hbuilt⟩ := Option.isSome_iff_exists.mp hdefined
    have hrun : s.buildingStep chars (.toString target builder allocator uninitialized) =
        some ((), { s with heap := heap }.construct target string) := by
      rw [buildingStep, hbuilt, Option.map_some]
    have hvacant' : t.Vacant target := ⟨hvacant.1, hm.live ▸ hvacant.2⟩
    refine ⟨_, hrun, ?_⟩
    rcases StringBuilder.toString_cases hbuilt with ⟨rfl, rfl⟩ | ⟨rfl, hadds⟩
    · refine ⟨hs.of_recounts (Recounts.refl s.heap) ?_, fun hreturned =>
        iff_of_true hreturned trivial⟩
      exact ⟨_, hm.construct target .empty, hinv.constructUnmanaged hvacant' 0 0 0⟩
    · -- the string is as one that has copied as many characters
      let text : List UInt8 := List.replicate builder.length.toNat 0
      have hlength : builder.length = .ofNat text.length := by
        rw [List.length_replicate, UInt64.ofNat_toNat]
      have hmirrors : heap.Mirrors (t.heap.withBuffer allocator text) :=
        hadds.mirrors hm.heap (by rw [← hlength]; rfl)
      refine ⟨hs.of_adds hadds hne ?_, fun hreturned => iff_of_true (hadds.returned hreturned)
        trivial⟩
      refine ⟨_, ?_, hinv.withBuffer hvacant' allocator text 0 0⟩
      rw [hm.heap.owners]
      refine Mirrors.construct ?_ target _
      exact ⟨hmirrors, hm.live, hm.string⟩

/-! ## The runs -/

/-- **In which runs the buffers are released to the allocators they are from**, once each, exactly
when the last string that holds them goes: in those where no last string goes whose buffer was
built. -/
theorem run_returned_iff {calls : List BuildingCall}
    (hlegal : Along (buildingStep chars) BuildingLegal start calls) :
    Along (buildingStep chars)
        (fun s call => ∃ s', s.buildingStep chars call = some ((), s') ∧ s'.Counted) start calls ↔
      Along (buildingStep chars) LeavesBuilt start calls := by
  refine along_congr (fun s : Strings => s.Built ∧ s.heap.Returned) ?_ ?_
    ⟨built_start, fun r hr => absurd hr List.not_mem_nil⟩ hlegal
  · rintro s call ⟨hs, hreturned⟩ hcall
    obtain ⟨s', hstep, hs', hiff⟩ := hs.step chars hcall
    rw [← hiff hreturned, ← hs'.counted_iff]
    constructor
    · rintro ⟨s'', hstep', hcounted⟩
      obtain ⟨-, rfl⟩ := Prod.mk.inj (Option.some.inj (hstep.symm.trans hstep'))
      exact hcounted
    · exact fun hcounted => ⟨s', hstep, hcounted⟩
  · rintro s call o s' ⟨hs, hreturned⟩ hcall hleaves hstep
    obtain ⟨s'', hstep', hs', hiff⟩ := hs.step chars hcall
    obtain ⟨-, rfl⟩ := Prod.mk.inj (Option.some.inj (hstep'.symm.trans hstep))
    exact ⟨hs', (hiff hreturned).mpr hleaves⟩

/-- A copy of a built string outlives it. -/
theorem run_returned_iff_copied :
    Along (buildingStep fun _ => [])
        (fun s call => ∃ s', s.buildingStep (fun _ => []) call = some ((), s') ∧ s'.Counted) start
        [.toString 1 (.new ⟨1, fun _ => 0⟩) 0x20 ⟨1, fun _ => 0⟩, .string (.copy 2 1),
          .string (.destroy 1)] ↔
      Along (buildingStep fun _ => []) LeavesBuilt start
        [.toString 1 (.new ⟨1, fun _ => 0⟩) 0x20 ⟨1, fun _ => 0⟩, .string (.copy 2 1),
          .string (.destroy 1)] :=
  run_returned_iff (by decide)

/-- **A built string that is destroyed** releases its buffer to no allocator. -/
theorem not_run_returned : ¬ ∀ (chars : UInt64 → List UInt8) (calls : List BuildingCall),
    Along (buildingStep chars) BuildingLegal start calls →
      Along (buildingStep chars)
        (fun s call => ∃ s', s.buildingStep chars call = some ((), s') ∧ s'.Counted) start
        calls := by
  intro h
  obtain ⟨-, hrest⟩ := h (fun _ => []) [.toString 1 (.new ⟨1, fun _ => 0⟩) 0x20 ⟨1, fun _ => 0⟩,
    .string (.destroy 1)] (by decide)
  obtain ⟨⟨s', hstep, hcounted⟩, -⟩ := hrest () _ rfl
  obtain ⟨-, rfl⟩ := Prod.mk.inj (Option.some.inj hstep)
  exact absurd (hcounted.toOwner (0, 0) (by decide)) (by decide)

end Strings

end Hologine.Text
