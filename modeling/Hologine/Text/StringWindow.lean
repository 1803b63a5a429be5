import Hologine.Text.String

/-!
# The bytes a string denotes

Model of how the functions of `core/text/` get at the characters of a `holo::string`
(`core/text/string.cpp:220-238`): by a data pointer, which is a buffer's data or the characters an
unmanaged string wraps. A string denotes `length` bytes of them from `offset` on, which is its
`window`.

Results:
* `Recounts.dropBuffer`, `Recounts.takeBuffer`: counting changes counts, and no data.
* `copyConstruct_leaves`, `destruct_leaves`, `assign_leaves`, `substring_leaves`: what the calls
  leave of the strings, where they are defined.
* `step_frame`: a call leaves the strings it is not for as they are.
* `run_windowed`: in every run every string that lives has all of its window in its data.
-/

namespace Hologine.Text

open Hologine.Library Hologine.Library.Run

/-- A record, whatever its count. -/
def StringBuffer.uncounted (record : StringBuffer) : StringBuffer :=
  { record with referenceCount := 0 }

theorem StringBuffer.data_eq {record record' : StringBuffer}
    (h : record'.uncounted = record.uncounted) : record'.data = record.data := by
  have hdata := congrArg StringBuffer.data h
  exact hdata

theorem StringBuffer.allocator_eq {record record' : StringBuffer}
    (h : record'.uncounted = record.uncounted) : record'.allocator = record.allocator := by
  have hallocator := congrArg StringBuffer.allocator h
  exact hallocator

/-- A pointer to characters: to the data of a buffer or to a C string. -/
inductive DataPointer
  | data (block : Nat)
  | constString (address : UInt64)
  deriving Repr, DecidableEq

namespace BufferHeap

variable (chars : UInt64 → List UInt8)

/-- The data pointer of a string. -/
def dataPointer (h : BufferHeap) (s : StringObject) : Option DataPointer :=
  match s.storage with
  | .managed buffer => do
    let record ← h.getBuffer buffer
    some (.data record.data)
  | .unmanaged constString => some (.constString constString)

/-- The characters at a data pointer. Released data is not there. -/
def charactersAt (h : BufferHeap) : DataPointer → Option (List UInt8)
  | .data block => if h.timesReleased block = 0 then some (h.bytes block) else none
  | .constString address => some (chars address)

/-- The characters of a string, whatever its window. -/
def characters (h : BufferHeap) (s : StringObject) : Option (List UInt8) := do
  let data ← h.dataPointer s
  h.charactersAt chars data

/-- The bytes a string denotes. -/
def window (h : BufferHeap) (s : StringObject) : Option (List UInt8) := do
  let data ← h.characters chars s
  some ((data.drop s.offset.toNat).take s.length.toNat)

/-- All of the window of a string is in the data the string has. -/
def Fits (h : BufferHeap) (s : StringObject) : Prop :=
  match s.storage with
  | .managed buffer => ∀ b record, buffer = some b → h.buffers b = some record →
      s.offset.toNat + s.length.toNat ≤ (h.bytes record.data).length
  | .unmanaged constString => s.offset.toNat + s.length.toNat ≤ (chars constString).length

/-- A string whose window is in its data: where that is and what it is. -/
structure Denotes (h : BufferHeap) (s : StringObject) (pointer : DataPointer)
    (bytes : List UInt8) : Prop where
  points : h.dataPointer s = some pointer
  data : h.charactersAt chars pointer = some bytes
  fits : s.offset.toNat + s.length.toNat ≤ bytes.length

theorem Denotes.characters {chars : UInt64 → List UInt8} {h : BufferHeap} {s : StringObject}
    {pointer : DataPointer} {bytes : List UInt8} (hs : h.Denotes chars s pointer bytes) :
    h.characters chars s = some bytes := by
  simp only [BufferHeap.characters, hs.points, hs.data, Option.bind_eq_bind, Option.bind_some]

theorem Denotes.window {chars : UInt64 → List UInt8} {h : BufferHeap} {s : StringObject}
    {pointer : DataPointer} {bytes : List UInt8} (hs : h.Denotes chars s pointer bytes) :
    h.window chars s = some ((bytes.drop s.offset.toNat).take s.length.toNat) := by
  rw [BufferHeap.window, hs.characters, Option.bind_eq_bind, Option.bind_some]

theorem Denotes.length_window {chars : UInt64 → List UInt8} {h : BufferHeap} {s : StringObject}
    {pointer : DataPointer} {bytes : List UInt8} (hs : h.Denotes chars s pointer bytes) :
    ((bytes.drop s.offset.toNat).take s.length.toNat).length = s.length.toNat := by
  have hfits := hs.fits
  rw [List.length_take, List.length_drop]
  omega

/-! ## What no call changes -/

/-- The data of the buffers of a heap, kept by another. -/
def Keeps (h h' : BufferHeap) : Prop :=
  ∀ b record, h.buffers b = some record → ∃ record', h'.buffers b = some record' ∧
    record'.data = record.data ∧ h'.bytes record.data = h.bytes record.data

variable {chars} {h h' h'' : BufferHeap} {s : StringObject} {buffer : Option Nat}

theorem Keeps.refl (h : BufferHeap) : h.Keeps h := fun _ record hb => ⟨record, hb, rfl, rfl⟩

theorem Keeps.trans (hkeep : h.Keeps h') (hkeep' : h'.Keeps h'') : h.Keeps h'' := by
  intro b record hb
  obtain ⟨record', hb', hdata, hbytes⟩ := hkeep b record hb
  obtain ⟨record'', hb'', hdata', hbytes'⟩ := hkeep' b record' hb'
  rw [hdata] at hdata' hbytes'
  exact ⟨record'', hb'', hdata', hbytes'.trans hbytes⟩

theorem Keeps.fits (hkeep : h.Keeps h') (hbacks : h.Backs s) (hfits : h.Fits chars s) :
    h'.Fits chars s := by
  unfold Fits at hfits ⊢
  cases hs : s.storage with
  | managed buffer =>
    rw [hs] at hfits
    rintro b record' rfl hb'
    obtain ⟨_, hsome, hbuffer⟩ := hbacks _ hs
    obtain rfl := Option.some.inj hsome
    obtain ⟨record, hb⟩ := Option.isSome_iff_exists.mp hbuffer
    obtain ⟨record'', hb'', hdata, hbytes⟩ := hkeep b record hb
    obtain rfl := Option.some.inj (hb'.symm.trans hb'')
    rw [hdata, hbytes]
    exact hfits b record rfl hb
  | unmanaged constString =>
    rw [hs] at hfits
    exact hfits

/-- The characters of a managed string are the data of its buffer. -/
theorem characters_of_managed {data : List UInt8} (hs : s.storage = .managed buffer)
    (hdata : h.characters chars s = some data) :
    ∃ b record, buffer = some b ∧ h.buffers b = some record ∧ data = h.bytes record.data := by
  obtain ⟨pointer, hpoints, hdata⟩ := Option.bind_eq_some_iff.mp hdata
  unfold dataPointer at hpoints
  rw [hs] at hpoints
  obtain ⟨record, hget, hpoints⟩ := Option.bind_eq_some_iff.mp hpoints
  obtain rfl := Option.some.inj hpoints
  obtain ⟨b, rfl, hb, -⟩ := getBuffer_eq_some hget
  unfold charactersAt at hdata
  dsimp only at hdata
  split_ifs at hdata
  exact ⟨b, record, rfl, hb, (Option.some.inj hdata).symm⟩

/-- **A heap that keeps the data keeps the characters of a string**, as long as they are there. -/
theorem Keeps.characters (hkeep : h.Keeps h') {data data' : List UInt8}
    (hdata : h.characters chars s = some data) (hdata' : h'.characters chars s = some data') :
    data' = data := by
  cases hs : s.storage with
  | managed buffer =>
    obtain ⟨b, record, rfl, hb, rfl⟩ := characters_of_managed hs hdata
    obtain ⟨b', record', hbuffer, hb', rfl⟩ := characters_of_managed hs hdata'
    obtain rfl := Option.some.inj hbuffer
    obtain ⟨record'', hb'', hsame, hbytes⟩ := hkeep b record hb
    obtain rfl := Option.some.inj (hb'.symm.trans hb'')
    rw [hsame, hbytes]
  | unmanaged constString =>
    simp only [BufferHeap.characters, dataPointer, hs, charactersAt, Option.bind_eq_bind,
      Option.bind_some, Option.some.injEq] at hdata hdata'
    rw [← hdata, ← hdata']

/-! ### Counting -/

/-- **A heap with other counts and more releases**, and nothing else that is new. The releases are
of records and of their data, to the allocators that the records name. -/
structure Recounts (h h' : BufferHeap) : Prop where
  owners : h'.owners = h.owners
  bytes : h'.bytes = h.bytes
  buffers : ∀ b, (h'.buffers b).map StringBuffer.uncounted =
    (h.buffers b).map StringBuffer.uncounted
  released : ∃ more, h'.released = more ++ h.released ∧ ∀ r ∈ more, ∃ b record,
    h.buffers b = some record ∧ r.1 = record.allocator ∧ (r.2 = b ∨ r.2 = record.data)

theorem Recounts.refl (h : BufferHeap) : h.Recounts h :=
  ⟨rfl, rfl, fun _ => rfl, [], rfl, fun _ hr => absurd hr List.not_mem_nil⟩

/-- A record after counting was there, but for its count. -/
theorem Recounts.exists_buffer (hcount : h.Recounts h') {b : Nat} {record' : StringBuffer}
    (hb' : h'.buffers b = some record') :
    ∃ record, h.buffers b = some record ∧ record'.uncounted = record.uncounted := by
  have hb := hcount.buffers b
  rw [hb', Option.map_some] at hb
  obtain ⟨record, hb, heq⟩ := Option.map_eq_some_iff.mp hb.symm
  exact ⟨record, hb, heq.symm⟩

theorem Recounts.trans (hcount : h.Recounts h') (hcount' : h'.Recounts h'') : h.Recounts h'' := by
  refine ⟨hcount'.owners.trans hcount.owners, hcount'.bytes.trans hcount.bytes,
    fun b => (hcount'.buffers b).trans (hcount.buffers b), ?_⟩
  obtain ⟨more, hreleased, hmore⟩ := hcount.released
  obtain ⟨more', hreleased', hmore'⟩ := hcount'.released
  refine ⟨more' ++ more, by rw [hreleased', hreleased, List.append_assoc], fun r hr => ?_⟩
  rcases List.mem_append.mp hr with hr | hr
  · obtain ⟨b, record', hb', hallocator, hblock⟩ := hmore' r hr
    obtain ⟨record, hb, heq⟩ := hcount.exists_buffer hb'
    rw [StringBuffer.data_eq heq] at hblock
    rw [StringBuffer.allocator_eq heq] at hallocator
    exact ⟨b, record, hb, hallocator, hblock⟩
  · exact hmore r hr

theorem Recounts.withCount {b : Nat} {record : StringBuffer} (hb : h.buffers b = some record)
    (c : UInt64) : h.Recounts (h.withCount b record c) := by
  refine ⟨rfl, rfl, fun b' => ?_, [], rfl, fun _ hr => absurd hr List.not_mem_nil⟩
  rw [withCount_buffers]
  by_cases heq : b' = b
  · rw [heq, Function.update_self, hb]
    rfl
  · rw [Function.update_of_ne heq]

theorem Recounts.keeps (hcount : h.Recounts h') : h.Keeps h' := by
  intro b record hb
  have hb' := hcount.buffers b
  rw [hb, Option.map_some] at hb'
  obtain ⟨record', hb', heq⟩ := Option.map_eq_some_iff.mp hb'
  exact ⟨record', hb', StringBuffer.data_eq heq, by rw [hcount.bytes]⟩

theorem Recounts.referenceBuffer (hrun : h.referenceBuffer buffer = some h') : h.Recounts h' := by
  obtain ⟨record, hget, -⟩ := Option.bind_eq_some_iff.mp hrun
  obtain ⟨b, rfl, hb, -⟩ := getBuffer_eq_some hget
  rw [referenceBuffer_eq hget] at hrun
  obtain rfl := Option.some.inj hrun
  exact Recounts.withCount hb _

theorem Recounts.dereferenceBuffer (hrun : h.dereferenceBuffer buffer = some h') :
    h.Recounts h' := by
  obtain ⟨record, hget, -⟩ := Option.bind_eq_some_iff.mp hrun
  obtain ⟨b, rfl, hb, -⟩ := getBuffer_eq_some hget
  rw [dereferenceBuffer_eq hget] at hrun
  have hless := Recounts.withCount hb (record.referenceCount - 1)
  split_ifs at hrun with hzero hlast
  · obtain rfl := Option.some.inj hrun
    refine ⟨hless.owners, hless.bytes, hless.buffers,
      [(record.allocator, b), (record.allocator, record.data)], rfl, fun r hr => ?_⟩
    rcases List.mem_pair.mp hr with rfl | rfl
    · exact ⟨b, record, hb, rfl, .inl rfl⟩
    · exact ⟨b, record, hb, rfl, .inr rfl⟩
  · obtain rfl := Option.some.inj hrun
    exact hless

theorem Recounts.dropBuffer (hrun : h.dropBuffer s = some h') : h.Recounts h' := by
  unfold BufferHeap.dropBuffer at hrun
  cases hs : s.storage with
  | managed buffer =>
    rw [hs] at hrun
    exact Recounts.dereferenceBuffer hrun
  | unmanaged constString =>
    rw [hs] at hrun
    obtain rfl := Option.some.inj hrun
    exact Recounts.refl h

theorem Recounts.takeBuffer (hrun : h.takeBuffer s = some h') : h.Recounts h' := by
  unfold BufferHeap.takeBuffer at hrun
  cases hs : s.storage with
  | managed buffer =>
    rw [hs] at hrun
    exact Recounts.referenceBuffer hrun
  | unmanaged constString =>
    rw [hs] at hrun
    obtain rfl := Option.some.inj hrun
    exact Recounts.refl h

/-- The records and their data are blocks that have been allocated. -/
def Allocated (h : BufferHeap) : Prop :=
  ∀ b record, h.buffers b = some record → b < h.owners.length ∧ record.data < h.owners.length

theorem Coherent.allocated (hcoh : h.Coherent) : h.Allocated := fun _ _ hb => hcoh.lt_length hb

theorem Recounts.allocated (hcount : h.Recounts h') (hplace : h.Allocated) : h'.Allocated := by
  intro b record' hb'
  obtain ⟨record, hb, heq⟩ := hcount.exists_buffer hb'
  rw [hcount.owners, StringBuffer.data_eq heq]
  exact hplace b record hb

/-- A new buffer is apart from those that are there. -/
theorem Keeps.withBuffer (hplace : h.Allocated) (allocator : UInt64) (text : List UInt8) :
    h.Keeps (h.withBuffer allocator text) := by
  intro b record hb
  obtain ⟨hlt, hlt'⟩ := hplace b record hb
  refine ⟨record, (Function.update_of_ne (Nat.ne_of_lt hlt) ..).trans hb, rfl, ?_⟩
  exact Function.update_of_ne (by omega) ..

end BufferHeap

/-! ## What a call leaves -/

/-- What `substring` makes of its copy of a string. -/
def StringObject.narrowed (o : StringObject) (first last : StringIterator) : StringObject :=
  { o with
    offset := first.currentOffset
    length := last.currentOffset - first.currentOffset }

/-- A window in a window is in the data, from wherever it starts. -/
theorem BufferHeap.Fits.narrowed {chars : UInt64 → List UInt8} {h : BufferHeap} {o : StringObject}
    {first last : StringIterator} (hfits : h.Fits chars o)
    (horder : first.currentOffset ≤ last.currentOffset) (hrange : last.currentOffset ≤ o.length) :
    h.Fits chars (o.narrowed first last) := by
  rw [UInt64.le_iff_toNat_le] at hrange
  have hend : first.currentOffset.toNat + (last.currentOffset - first.currentOffset).toNat ≤
      o.offset.toNat + o.length.toNat := by
    rw [UInt64.toNat_sub_of_le _ _ horder]
    rw [UInt64.le_iff_toNat_le] at horder
    omega
  unfold BufferHeap.Fits at hfits ⊢
  dsimp only [StringObject.narrowed]
  cases hs : o.storage with
  | managed buffer =>
    rw [hs] at hfits
    exact fun b record hbuffer hb => Nat.le_trans hend (hfits b record hbuffer hb)
  | unmanaged constString =>
    rw [hs] at hfits
    exact Nat.le_trans hend hfits

namespace Strings

open BufferHeap

variable {s s' : Strings} {target other : UInt64}

theorem narrow_string (s : Strings) (target : UInt64) (first last : StringIterator) :
    (s.narrow target first last).string =
      Function.update s.string target ((s.string target).narrowed first last) := rfl

/-- **A copy is what the other string is**, and changes no data. -/
theorem copyConstruct_leaves (hrun : s.copyConstruct target other = some s') :
    s.heap.Recounts s'.heap ∧ s'.live = target :: s.live ∧
      s'.string = Function.update s.string target (s.string other) := by
  unfold Strings.copyConstruct at hrun
  dsimp only at hrun
  split at hrun
  · split_ifs at hrun
    · obtain ⟨heap, htake, hrun⟩ := Option.bind_eq_some_iff.mp hrun
      obtain rfl := Option.some.inj hrun
      exact ⟨Recounts.referenceBuffer htake, rfl, rfl⟩
    · obtain rfl := Option.some.inj hrun
      exact ⟨Recounts.refl s.heap, rfl, rfl⟩
  · obtain rfl := Option.some.inj hrun
    exact ⟨Recounts.refl s.heap, rfl, rfl⟩

/-- **A string that goes leaves the others as they are.** -/
theorem destruct_leaves (hrun : s.destruct target = some s') :
    s.heap.Recounts s'.heap ∧ s'.live = s.live.erase target ∧ s'.string = s.string := by
  unfold Strings.destruct at hrun
  split at hrun
  · split_ifs at hrun
    · obtain ⟨heap, hdrop, hrun⟩ := Option.bind_eq_some_iff.mp hrun
      obtain rfl := Option.some.inj hrun
      exact ⟨Recounts.dereferenceBuffer hdrop, rfl, rfl⟩
    · obtain rfl := Option.some.inj hrun
      exact ⟨Recounts.refl s.heap, rfl, rfl⟩
  · obtain rfl := Option.some.inj hrun
    exact ⟨Recounts.refl s.heap, rfl, rfl⟩

/-- **A string that is assigned to is what the other is**, and no data changes. -/
theorem assign_leaves (hrun : s.assign target other = some s') :
    s.heap.Recounts s'.heap ∧ s'.live = s.live ∧
      s'.string = Function.update s.string target (s.string other) := by
  unfold Strings.assign at hrun
  split_ifs at hrun with hne
  · obtain ⟨heap, hdrop, hrun⟩ := Option.bind_eq_some_iff.mp hrun
    obtain ⟨heap', htake, hrun⟩ := Option.bind_eq_some_iff.mp hrun
    obtain rfl := Option.some.inj hrun
    exact ⟨(Recounts.dropBuffer hdrop).trans (Recounts.takeBuffer htake), rfl, rfl⟩
  · obtain rfl := Option.some.inj hrun
    refine ⟨Recounts.refl s.heap, rfl, ?_⟩
    rw [← not_not.mp hne, Function.update_eq_self]

/-- **A substring is the string it is of, narrowed**; a temporary, if there is one, is too. -/
theorem substring_leaves {temporary : Option UInt64} {string : UInt64} {first last : StringIterator}
    (hfirst : first.string = string) (hlast : last.string = string)
    (hrun : s.substring target temporary string first last = some s') :
    s.heap.Recounts s'.heap ∧
      (∀ a, s'.string a = if a = target ∨ temporary = some a then
        (s.string string).narrowed first last else s.string a) ∧
      ∀ a, temporary ≠ some a → (a ∈ s'.live ↔ a = target ∨ a ∈ s.live) := by
  have hsame : ¬ (first.string ≠ string ∨ last.string ≠ string) := by
    rw [not_or, not_not, not_not]
    exact ⟨hfirst, hlast⟩
  unfold Strings.substring at hrun
  rw [if_neg hsame] at hrun
  cases temporary with
  | none =>
    obtain ⟨s₁, hcopy, hrun⟩ := Option.bind_eq_some_iff.mp hrun
    obtain rfl := Option.some.inj hrun
    obtain ⟨hcount, hlive, hstring⟩ := copyConstruct_leaves hcopy
    refine ⟨hcount, fun a => ?_, fun a _ => ?_⟩
    · rw [narrow_string, hstring, Function.update_self, Function.update_idem,
        Function.update_apply]
      simp only [reduceCtorEq, or_false]
    · exact (congrArg (a ∈ ·) hlive).to_iff.trans List.mem_cons
  | some t =>
    obtain ⟨s₁, hcopy, hrun⟩ := Option.bind_eq_some_iff.mp hrun
    obtain ⟨s₂, hresult, hdestruct⟩ := Option.bind_eq_some_iff.mp hrun
    obtain ⟨hcount₁, hlive₁, hstring₁⟩ := copyConstruct_leaves hcopy
    obtain ⟨hcount₂, hlive₂, hstring₂⟩ := copyConstruct_leaves hresult
    obtain ⟨hcount₃, hlive₃, hstring₃⟩ := destruct_leaves hdestruct
    have hnarrow : (s₁.narrow t first last).string =
        Function.update s.string t ((s.string string).narrowed first last) := by
      rw [narrow_string, hstring₁, Function.update_self, Function.update_idem]
    refine ⟨(hcount₁.trans hcount₂).trans hcount₃, fun a => ?_, fun a hne => ?_⟩
    · rw [hstring₃, hstring₂, hnarrow, Function.update_self, Function.update_apply,
        Function.update_apply]
      by_cases htarget : a = target
      · rw [if_pos htarget, if_pos (.inl htarget)]
      · simp only [htarget, false_or, if_false, Option.some.injEq, eq_comm]
    · have hapart : a ≠ t := fun heq => hne (congrArg some heq.symm)
      have hlive : (s₁.narrow t first last).live = t :: s.live := hlive₁
      rw [hlive₃, List.mem_erase_of_ne hapart, hlive₂, hlive, List.mem_cons, List.mem_cons]
      simp only [hapart, false_or]

/-- A call that neither assigns to a string nor destroys it. -/
def Spares (a : UInt64) : StringCall → Prop
  | .assign target _ => target ≠ a
  | .destroy target => target ≠ a
  | _ => True

variable {chars : UInt64 → List UInt8} {a : UInt64} {call : StringCall}

/-- **A call leaves the strings it is not for as they are.** -/
theorem step_frame (hlegal : s.Legal call) (ha : a ∈ s.live) (hspares : Spares a call)
    (hrun : s.step chars call = some ((), s')) : a ∈ s'.live ∧ s'.string a = s.string a := by
  have hne : ∀ {target}, s.Vacant target → a ≠ target := fun hvacant heq => hvacant.2 (heq ▸ ha)
  have hmade : ∀ {target value}, s.Vacant target →
      Function.update s.string target value a = s.string a :=
    fun hvacant => Function.update_of_ne (hne hvacant) _ _
  have hcall := map_mk_eq_some.mp hrun
  cases call with
  | empty target =>
    obtain rfl := Option.some.inj hcall
    exact ⟨List.mem_cons_of_mem _ ha, hmade hlegal⟩
  | wrap target data =>
    obtain rfl := Option.some.inj hcall
    exact ⟨List.mem_cons_of_mem _ ha, hmade hlegal⟩
  | copyChars target allocator data grantsRecord grantsData =>
    obtain ⟨record, -, hcall⟩ := Option.bind_eq_some_iff.mp hcall
    obtain rfl := Option.some.inj hcall
    exact ⟨List.mem_cons_of_mem _ ha, hmade hlegal.1⟩
  | copy target other =>
    obtain ⟨-, hlive, hstring⟩ := copyConstruct_leaves hcall
    exact ⟨hlive ▸ List.mem_cons_of_mem _ ha, hstring ▸ hmade hlegal.1⟩
  | assign target other =>
    obtain ⟨-, hlive, hstring⟩ := assign_leaves hcall
    refine ⟨hlive ▸ ha, ?_⟩
    rw [hstring, Function.update_of_ne (Ne.symm hspares)]
  | substring target temporary string first last =>
    obtain ⟨hvacant, htemporary, -, hfirst, hlast⟩ := hlegal
    obtain ⟨-, hstrings, hlive⟩ := substring_leaves hfirst hlast hcall
    have htemp : temporary ≠ some a := by
      rintro rfl
      exact htemporary.1.2 ha
    exact ⟨(hlive a htemp).mpr (.inr ha),
      (hstrings a).trans (if_neg (not_or.mpr ⟨hne hvacant, htemp⟩))⟩
  | destroy target =>
    obtain ⟨-, hlive, hstring⟩ := destruct_leaves hcall
    refine ⟨?_, congrFun hstring a⟩
    rw [hlive, List.mem_erase_of_ne (Ne.symm hspares)]
    exact ha

/-- **No call changes the data of a buffer.** -/
theorem Inv.step_keeps (hinv : s.Inv) (hlegal : s.Legal call)
    (hrun : s.step chars call = some ((), s')) : s.heap.Keeps s'.heap := by
  have hcall := map_mk_eq_some.mp hrun
  cases call with
  | empty target =>
    obtain rfl := Option.some.inj hcall
    exact Keeps.refl s.heap
  | wrap target data =>
    obtain rfl := Option.some.inj hcall
    exact Keeps.refl s.heap
  | copyChars target allocator data grantsRecord grantsData =>
    obtain ⟨-, rfl, rfl⟩ := hlegal
    have hcoh := hinv.counted.toCoherent
    obtain rfl := Option.some.inj ((copyChars_eq hcoh target allocator _).symm.trans hcall)
    exact Keeps.withBuffer hcoh.allocated allocator _
  | copy target other => exact (copyConstruct_leaves hcall).1.keeps
  | assign target other => exact (assign_leaves hcall).1.keeps
  | substring target temporary string first last =>
    obtain ⟨-, -, -, hfirst, hlast⟩ := hlegal
    exact (substring_leaves hfirst hlast hcall).1.keeps
  | destroy target => exact (destruct_leaves hcall).1.keeps

/-- **The buffer of a managed string that lives is there**, and its data is. -/
theorem Inv.getBuffer (hinv : s.Inv) (ha : a ∈ s.live) {buffer : Option Nat}
    (hs : (s.string a).storage = .managed buffer) :
    ∃ b record, buffer = some b ∧ s.heap.buffers b = some record ∧
      s.heap.getBuffer (some b) = some record ∧ s.heap.timesReleased record.data = 0 := by
  obtain ⟨b, rfl, hb⟩ := hinv.backed a ha buffer hs
  obtain ⟨record, hb⟩ := Option.isSome_iff_exists.mp hb
  -- the string is one that holds the buffer
  have hheld := held_le_holders ha b
  rw [held_eq_update hs, if_pos rfl] at hheld
  have hget := hinv.counted.getBuffer hb (by omega)
  have hlive := hinv.counted.data b record hb
  rw [if_neg (by omega)] at hlive
  exact ⟨b, record, rfl, hb, hget, hlive⟩

end Strings

/-! ## Windows -/

namespace Strings

open BufferHeap

variable (chars : UInt64 → List UInt8)

/-- A legal call, with the iterators of a substring in its string and in order. -/
def WindowLegal (s : Strings) (call : StringCall) : Prop :=
  s.Legal call ∧
    match call with
    | .substring _ _ string first last =>
      first.currentOffset ≤ last.currentOffset ∧ last.currentOffset ≤ (s.string string).length
    | _ => True

instance (s : Strings) (call : StringCall) : Decidable (s.WindowLegal call) :=
  match call with
  | .empty target => inferInstanceAs (Decidable (s.Legal (.empty target) ∧ True))
  | .wrap target data => inferInstanceAs (Decidable (s.Legal (.wrap target data) ∧ True))
  | .copyChars target allocator data grantsRecord grantsData =>
    inferInstanceAs (Decidable
      (s.Legal (.copyChars target allocator data grantsRecord grantsData) ∧ True))
  | .copy target other => inferInstanceAs (Decidable (s.Legal (.copy target other) ∧ True))
  | .assign target other => inferInstanceAs (Decidable (s.Legal (.assign target other) ∧ True))
  | .substring target temporary string first last =>
    inferInstanceAs (Decidable (s.Legal (.substring target temporary string first last) ∧
      first.currentOffset ≤ last.currentOffset ∧
      last.currentOffset ≤ (s.string string).length))
  | .destroy target => inferInstanceAs (Decidable (s.Legal (.destroy target) ∧ True))

/-- Every string that lives has all of its window in its data. -/
def Windowed (s : Strings) : Prop := ∀ a ∈ s.live, s.heap.Fits chars (s.string a)

variable {chars} {s s' : Strings} {target other : UInt64}

/-- Strings that have been made, or have changed, in a heap that keeps what was there. -/
theorem Windowed.update (hwin : s.Windowed chars) (hinv : s.Inv) {heap : BufferHeap}
    (hkeep : s.heap.Keeps heap) {value : StringObject} (hvalue : heap.Fits chars value)
    {a : UInt64} (ha : a ≠ target → a ∈ s.live) :
    heap.Fits chars (Function.update s.string target value a) := by
  by_cases heq : a = target
  · rwa [heq, Function.update_self]
  · rw [Function.update_of_ne heq]
    exact hkeep.fits (hinv.backed a (ha heq)) (hwin a (ha heq))

theorem Windowed.construct (hwin : s.Windowed chars) (hinv : s.Inv) {heap : BufferHeap}
    (hkeep : s.heap.Keeps heap) {value : StringObject} (hvalue : heap.Fits chars value) :
    ({ s with heap := heap }.construct target value).Windowed chars := fun _ ha =>
  hwin.update hinv hkeep hvalue fun hne => (List.mem_cons.mp ha).resolve_left hne

theorem Windowed.copyConstruct (hwin : s.Windowed chars) (hinv : s.Inv) (hother : other ∈ s.live)
    (hrun : s.copyConstruct target other = some s') : s'.Windowed chars := by
  obtain ⟨hcount, hlive, hstring⟩ := copyConstruct_leaves hrun
  have hvalue := hcount.keeps.fits (hinv.backed other hother) (hwin other hother)
  intro a ha
  rw [hstring]
  exact hwin.update hinv hcount.keeps hvalue fun hne =>
    (List.mem_cons.mp (hlive ▸ ha)).resolve_left hne

theorem Windowed.destruct (hwin : s.Windowed chars) (hinv : s.Inv)
    (hrun : s.destruct target = some s') : s'.Windowed chars := by
  obtain ⟨hcount, hlive, hstring⟩ := destruct_leaves hrun
  intro a ha
  have hold := List.mem_of_mem_erase (hlive ▸ ha)
  rw [hstring]
  exact hcount.keeps.fits (hinv.backed a hold) (hwin a hold)

theorem Windowed.assign (hwin : s.Windowed chars) (hinv : s.Inv)
    (hother : other ∈ s.live) (hrun : s.assign target other = some s') : s'.Windowed chars := by
  obtain ⟨hcount, hlive, hstring⟩ := assign_leaves hrun
  have hvalue := hcount.keeps.fits (hinv.backed other hother) (hwin other hother)
  intro a ha
  rw [hstring]
  exact hwin.update hinv hcount.keeps hvalue fun _ => hlive ▸ ha

theorem Windowed.substring (hwin : s.Windowed chars) (hinv : s.Inv) {temporary : Option UInt64}
    {string : UInt64} {first last : StringIterator}
    (hlegal : s.WindowLegal (.substring target temporary string first last))
    (hrun : s.substring target temporary string first last = some s') : s'.Windowed chars := by
  obtain ⟨⟨-, -, hstring, hfirst, hlast⟩, horder, hrange⟩ := hlegal
  obtain ⟨hcount, hstrings, hlive⟩ := substring_leaves hfirst hlast hrun
  intro a ha
  rw [hstrings]
  split_ifs with hnew
  · have hbacks : s.heap.Backs ((s.string string).narrowed first last) := hinv.backed string hstring
    exact hcount.keeps.fits hbacks ((hwin string hstring).narrowed horder hrange)
  · obtain ⟨htarget, htemporary⟩ := not_or.mp hnew
    have hold := ((hlive a htemporary).mp ha).resolve_left htarget
    exact hcount.keeps.fits (hinv.backed a hold) (hwin a hold)

/-- **What every call keeps**: the windows are in the data. -/
theorem Windowed.step (hwin : s.Windowed chars) (hinv : s.Inv) {call : StringCall}
    (hlegal : s.WindowLegal call) (hrun : s.step chars call = some ((), s')) :
    s'.Windowed chars := by
  have hcall := map_mk_eq_some.mp hrun
  cases call with
  | empty target =>
    obtain rfl := Option.some.inj hcall
    exact hwin.construct hinv (Keeps.refl s.heap) (Nat.zero_le _)
  | wrap target data =>
    obtain rfl := Option.some.inj hcall
    refine hwin.construct hinv (Keeps.refl s.heap) ?_
    change 0 + (UInt64.ofNat (chars data).length).toNat ≤ (chars data).length
    rw [UInt64.toNat_ofNat', Nat.zero_add]
    exact Nat.mod_le _ _
  | copyChars target allocator data grantsRecord grantsData =>
    obtain ⟨⟨hvacant, rfl, rfl⟩, -⟩ := hlegal
    have hcoh := hinv.counted.toCoherent
    obtain rfl := Option.some.inj ((copyChars_eq hcoh target allocator _).symm.trans hcall)
    refine hwin.construct hinv (Keeps.withBuffer hcoh.allocated allocator (chars data)) ?_
    rintro b record hbuffer hb
    obtain rfl := Option.some.inj hbuffer
    rw [withBuffer_buffers, Function.update_self] at hb
    obtain rfl := Option.some.inj hb
    have hbytes : (s.heap.withBuffer allocator (chars data)).bytes (s.heap.owners.length + 1) =
        chars data := Function.update_self ..
    rw [hbytes, UInt64.toNat_ofNat', UInt64.toNat_zero, Nat.zero_add]
    exact Nat.mod_le _ _
  | copy target other => exact hwin.copyConstruct hinv hlegal.1.2 hcall
  | assign target other => exact hwin.assign hinv hlegal.1.2 hcall
  | substring target temporary string first last => exact hwin.substring hinv hlegal hcall
  | destroy target => exact hwin.destruct hinv hcall

/-- **In every run the strings that live have their windows in their data.** -/
theorem run_windowed {calls : List StringCall} {os : List Unit}
    (hlegal : Along (step chars) WindowLegal start calls)
    (hrun : exec (step chars) start calls = some (os, s)) : s.Inv ∧ s.Windowed chars := by
  refine exec_invariant (fun s : Strings => s.Inv ∧ s.Windowed chars) ?_
    ⟨inv_start, fun _ ha => absurd ha List.not_mem_nil⟩ hlegal hrun
  rintro s call o s' ⟨hinv, hwin⟩ hcall hstep
  obtain ⟨s'', hstep', hinv'⟩ := hinv.step chars hcall.1
  obtain ⟨-, rfl⟩ := Prod.mk.inj (Option.some.inj (hstep'.symm.trans hstep))
  exact ⟨hinv', hwin.step hinv hcall hstep⟩

/-- The window of a string that lives is there. -/
theorem Windowed.denotes (hwin : s.Windowed chars) (hinv : s.Inv) {a : UInt64} (ha : a ∈ s.live) :
    ∃ pointer data, s.heap.Denotes chars (s.string a) pointer data := by
  have hfits := hwin a ha
  unfold Fits at hfits
  cases hs : (s.string a).storage with
  | managed buffer =>
    obtain ⟨b, record, rfl, hb, hget, hlive⟩ := hinv.getBuffer ha hs
    rw [hs] at hfits
    refine ⟨.data record.data, s.heap.bytes record.data, ?_, if_pos hlive, ?_⟩
    · simp only [dataPointer, hs, hget, Option.bind_eq_bind, Option.bind_some]
    · exact hfits b record rfl hb
  | unmanaged constString =>
    rw [hs] at hfits
    refine ⟨.constString constString, chars constString, ?_, rfl, hfits⟩
    simp only [dataPointer, hs]

end Strings

end Hologine.Text
