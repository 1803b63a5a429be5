import Hologine.Exception
import Hologine.Library.Bits
import Hologine.Library.References
import Hologine.Library.Run

/-!
# Strings

Model of the life of `holo::string` objects (`core/text/string.cpp:16-102, 149-208`,
`core/text/string.hpp:170-257, 278-323`). A string is managed, with a buffer it shares with its
copies and substrings, or wraps characters it does not manage. Strings are named by their
addresses.

* `BufferHeap` is what the allocators have given out. A block is named by when it was allocated, so
  a released block is never mistaken for a later one. An access to a released record, or to a null
  one, has no defined behaviour, which is `none`; each release is kept, with the allocator it is
  made to.
* `chars` are the characters at an address up to the terminating null, for the constructors that
  take a C string.
* `substring` makes a copy and narrows it. The copy is the result itself where the compiler elides
  the copy to the result, and a temporary otherwise.

Results:
* `CountedBy.referenceBuffer`, `CountedBy.dereferenceBuffer`: what the two functions that touch a
  count do to the counts and the releases.
* `run_counted`: in every run no released buffer is touched, the count of every buffer is the number
  of live strings that hold it, and its data and its record are released, once each, exactly when
  that is zero.
-/

namespace Hologine.Text

open Hologine.Library Hologine.Library.Run

/-! ## Buffers -/

/-- `string::string_buffer`. Its data is a block. -/
structure StringBuffer where
  data : Nat
  length : UInt64
  referenceCount : UInt64
  allocator : UInt64
  deriving Repr, DecidableEq

/-- The blocks: the allocator that each is from, the releases so far, and what is in the blocks
that are records of buffers and in those that are data. -/
structure BufferHeap where
  owners : List UInt64
  released : List (UInt64 × Nat)
  buffers : Nat → Option StringBuffer
  bytes : Nat → List UInt8

namespace BufferHeap

/-- `allocator::allocate` where it succeeds: a new block. -/
def allocate (h : BufferHeap) (allocator : UInt64) : Nat × BufferHeap :=
  (h.owners.length, { h with owners := h.owners ++ [allocator] })

/-- `allocator::deallocate`. -/
def deallocate (h : BufferHeap) (allocator : UInt64) (block : Nat) : BufferHeap :=
  { h with released := (allocator, block) :: h.released }

/-- How often a block has been released. -/
def timesReleased (h : BufferHeap) (block : Nat) : Nat := h.released.countP fun r => r.2 = block

/-- A read of the record a pointer points to. -/
def getBuffer (h : BufferHeap) (buffer : Option Nat) : Option StringBuffer := do
  let b ← buffer
  if h.timesReleased b = 0 then h.buffers b else none

/-- An assignment to the record a pointer points to. -/
def setBuffer (h : BufferHeap) (buffer : Option Nat) (record : StringBuffer) :
    Option BufferHeap := do
  let b ← buffer
  if h.timesReleased b = 0 then some { h with buffers := Function.update h.buffers b (some record) }
  else none

/-- `construct_buffer`, by whether the allocator grants the record and the data. -/
def constructBuffer (h : BufferHeap) (allocator : UInt64) (text : List UInt8)
    (grantsRecord grantsData : Bool) : Option Nat × BufferHeap :=
  if grantsRecord then
    let (record, h) := h.allocate allocator
    if grantsData then
      let (data, h) := h.allocate allocator
      (some record, { h with
        buffers := Function.update h.buffers record
          (some ⟨data, .ofNat text.length, 1, allocator⟩)
        bytes := Function.update h.bytes data text })
    else (none, h.deallocate allocator record)
  else (none, h)

/-- `reference_buffer`. -/
def referenceBuffer (h : BufferHeap) (buffer : Option Nat) : Option BufferHeap := do
  let record ← h.getBuffer buffer
  h.setBuffer buffer { record with referenceCount := record.referenceCount + 1 }

/-- `dereference_buffer`. -/
def dereferenceBuffer (h : BufferHeap) (buffer : Option Nat) : Option BufferHeap := do
  let record ← h.getBuffer buffer
  -- the assertion
  if record.referenceCount = 0 then none
  else
    let record := { record with referenceCount := record.referenceCount - 1 }
    let h ← h.setBuffer buffer record
    if record.referenceCount = 0 then
      let h := h.deallocate record.allocator record.data
      some (h.deallocate record.allocator (← buffer))
    else some h

end BufferHeap

/-! ## Strings -/

/-- The storage mode of a string, and the member of the union that goes with it. -/
inductive Storage
  | managed (buffer : Option Nat)
  | unmanaged (constString : UInt64)
  deriving Repr, DecidableEq

/-- A `holo::string`. -/
structure StringObject where
  storage : Storage
  offset : UInt64
  length : UInt64
  deriving Repr, DecidableEq

/-- The buffer a string holds. -/
def StringObject.buffer (s : StringObject) : Option Nat :=
  match s.storage with
  | .managed buffer => buffer
  | .unmanaged _ => none

/-- `string::string()`. -/
def StringObject.empty : StringObject := ⟨.unmanaged 0, 0, 0⟩

/-- The part of `operator=` that drops the buffer of a string. -/
def BufferHeap.dropBuffer (h : BufferHeap) (s : StringObject) : Option BufferHeap :=
  match s.storage with
  | .managed buffer => h.dereferenceBuffer buffer
  | .unmanaged _ => some h

/-- The part of `operator=` that takes the buffer of a string. -/
def BufferHeap.takeBuffer (h : BufferHeap) (s : StringObject) : Option BufferHeap :=
  match s.storage with
  | .managed buffer => h.referenceBuffer buffer
  | .unmanaged _ => some h

/-- What `substring` reads of a `string_iterator`. -/
structure StringIterator where
  string : UInt64
  currentOffset : UInt64
  deriving Repr, DecidableEq

/-- The buffers, the strings that are alive, and the exceptions that were pushed. -/
structure Strings where
  heap : BufferHeap
  live : List UInt64
  string : UInt64 → StringObject
  exceptions : List ExceptionCode

/-- A call, with the addresses of the strings it makes. -/
inductive StringCall
  | empty (target : UInt64)
  | wrap (target data : UInt64)
  | copyChars (target allocator data : UInt64) (grantsRecord grantsData : Bool)
  | copy (target other : UInt64)
  | assign (target other : UInt64)
  | substring (target : UInt64) (temporary : Option UInt64) (string : UInt64)
      (first last : StringIterator)
  | destroy (target : UInt64)
  deriving Repr, DecidableEq

namespace Strings

/-- A string comes to life at an address. -/
def construct (s : Strings) (target : UInt64) (value : StringObject) : Strings :=
  { s with live := target :: s.live, string := Function.update s.string target value }

/-- `string::string(const holo::string&)`. -/
def copyConstruct (s : Strings) (target other : UInt64) : Option Strings := do
  let value := s.string other
  match value.storage with
  | .managed buffer =>
    if buffer ≠ none then
      let heap ← s.heap.referenceBuffer buffer
      some ({ s with heap := heap }.construct target value)
    else some (s.construct target value)
  | .unmanaged _ => some (s.construct target value)

/-- `string::~string`. -/
def destruct (s : Strings) (target : UInt64) : Option Strings := do
  let s' := { s with live := s.live.erase target }
  match (s.string target).storage with
  | .managed buffer =>
    if buffer ≠ none then
      let heap ← s.heap.dereferenceBuffer buffer
      some { s' with heap := heap }
    else some s'
  | .unmanaged _ => some s'

/-- `string::operator=`. -/
def assign (s : Strings) (target other : UInt64) : Option Strings :=
  if target ≠ other then do
    let value := s.string other
    -- the buffer is dropped first, whatever the other string holds
    let heap ← s.heap.dropBuffer (s.string target)
    let heap ← heap.takeBuffer value
    some { s with heap := heap, string := Function.update s.string target value }
  else some s

/-- `string::string(holo::allocator*, const char*)`. -/
def copyChars (s : Strings) (target allocator : UInt64) (text : List UInt8)
    (grantsRecord grantsData : Bool) : Option Strings := do
  let (buffer, heap) := s.heap.constructBuffer allocator text grantsRecord grantsData
  let record ← heap.getBuffer buffer
  some ({ s with heap := heap }.construct target ⟨.managed buffer, 0, record.length⟩)

/-- The assignments of `substring` to the copy it makes. -/
def narrow (s : Strings) (target : UInt64) (first last : StringIterator) : Strings :=
  let value := { s.string target with
    offset := first.currentOffset
    length := last.currentOffset - first.currentOffset }
  { s with string := Function.update s.string target value }

/-- `string::substring`. -/
def substring (s : Strings) (target : UInt64) (temporary : Option UInt64) (string : UInt64)
    (first last : StringIterator) : Option Strings :=
  if first.string ≠ string ∨ last.string ≠ string then
    some ({ s with exceptions := .invalidArgument :: s.exceptions }.construct target .empty)
  else
    match temporary with
    | none => do
      let s ← s.copyConstruct target string
      some (s.narrow target first last)
    | some temporary => do
      let s ← s.copyConstruct temporary string
      let s ← (s.narrow temporary first last).copyConstruct target temporary
      s.destruct temporary

variable (chars : UInt64 → List UInt8)

/-- One call. -/
def step (s : Strings) (call : StringCall) : Option (Unit × Strings) :=
  Option.map (Prod.mk ()) <|
    match call with
    | .empty target => some (s.construct target .empty)
    | .wrap target data =>
      some (s.construct target ⟨.unmanaged data, 0, .ofNat (chars data).length⟩)
    | .copyChars target allocator data grantsRecord grantsData =>
      s.copyChars target allocator (chars data) grantsRecord grantsData
    | .copy target other => s.copyConstruct target other
    | .assign target other => s.assign target other
    | .substring target temporary string first last =>
      s.substring target temporary string first last
    | .destroy target => s.destruct target

/-- Where a string can be made. -/
def Vacant (s : Strings) (target : UInt64) : Prop := target ≠ 0 ∧ target ∉ s.live

instance (s : Strings) (target : UInt64) : Decidable (s.Vacant target) :=
  inferInstanceAs (Decidable (target ≠ 0 ∧ target ∉ s.live))

/-- Where a temporary, if there is one, can be made beside a result. -/
def VacantBeside (s : Strings) (target : UInt64) : Option UInt64 → Prop
  | none => True
  | some temporary => s.Vacant temporary ∧ temporary ≠ target

instance (s : Strings) (target : UInt64) (temporary : Option UInt64) :
    Decidable (s.VacantBeside target temporary) :=
  match temporary with
  | none => isTrue trivial
  | some t => inferInstanceAs (Decidable (s.Vacant t ∧ t ≠ target))

/-- Strings are made where none is, and used while they live. Allocations succeed, and the
iterators of a substring are the string's. -/
def Legal (s : Strings) : StringCall → Prop
  | .empty target | .wrap target _ => s.Vacant target
  | .copyChars target _ _ grantsRecord grantsData => s.Vacant target ∧ grantsRecord ∧ grantsData
  | .copy target other => s.Vacant target ∧ other ∈ s.live
  | .assign target other => target ∈ s.live ∧ other ∈ s.live
  | .substring target temporary string first last =>
    s.Vacant target ∧ s.VacantBeside target temporary ∧ string ∈ s.live ∧
      first.string = string ∧ last.string = string
  | .destroy target => target ∈ s.live

instance (s : Strings) (call : StringCall) : Decidable (s.Legal call) :=
  match call with
  | .empty target => inferInstanceAs (Decidable (s.Vacant target))
  | .wrap target _ => inferInstanceAs (Decidable (s.Vacant target))
  | .copyChars target _ _ grantsRecord grantsData =>
    inferInstanceAs (Decidable (s.Vacant target ∧ grantsRecord = true ∧ grantsData = true))
  | .copy target other => inferInstanceAs (Decidable (s.Vacant target ∧ other ∈ s.live))
  | .assign target other => inferInstanceAs (Decidable (target ∈ s.live ∧ other ∈ s.live))
  | .substring target temporary string first last =>
    inferInstanceAs (Decidable (s.Vacant target ∧ s.VacantBeside target temporary ∧
      string ∈ s.live ∧ first.string = string ∧ last.string = string))
  | .destroy target => inferInstanceAs (Decidable (target ∈ s.live))

/-- Nothing has been made yet. -/
def start : Strings where
  heap := ⟨[], [], fun _ => none, fun _ => []⟩
  live := []
  string _ := .empty
  exceptions := []

/-- The number of live managed strings that point to a buffer. -/
def holders (s : Strings) (b : Nat) : Nat := references s.live (fun a => (s.string a).buffer) b

/-- **Buffers are counted**: the count of a buffer is the number of live strings that hold it, and
its record and its data have been released, once, if there are none, and not at all otherwise.
Blocks are released to the allocators they are from. -/
structure Counted (s : Strings) : Prop where
  count : ∀ b record, s.heap.buffers b = some record → record.referenceCount.toNat = s.holders b
  record : ∀ b record, s.heap.buffers b = some record →
    s.heap.timesReleased b = if s.holders b = 0 then 1 else 0
  data : ∀ b record, s.heap.buffers b = some record →
    s.heap.timesReleased record.data = if s.holders b = 0 then 1 else 0
  toOwner : ∀ r ∈ s.heap.released, s.heap.owners[r.2]? = some r.1

end Strings

/-! ## What happens to the counts -/

namespace BufferHeap

variable {h : BufferHeap} {n : Nat → Nat} {b k : Nat} {record : StringBuffer} {c : UInt64}

@[simp] theorem timesReleased_deallocate (h : BufferHeap) (allocator : UInt64) (block b : Nat) :
    (h.deallocate allocator block).timesReleased b =
      h.timesReleased b + if block = b then 1 else 0 := by
  rw [timesReleased, deallocate, List.countP_cons]
  simp only [decide_eq_true_eq, timesReleased]

/-- The heap with another count in a record. -/
def withCount (h : BufferHeap) (b : Nat) (record : StringBuffer) (c : UInt64) : BufferHeap :=
  { h with buffers := Function.update h.buffers b (some { record with referenceCount := c }) }

theorem withCount_buffers : (h.withCount b record c).buffers =
    Function.update h.buffers b (some { record with referenceCount := c }) := rfl

/-- A count changes nothing else of a record, and no other record. -/
theorem buffers_withCount (hb : h.buffers b = some record) {b' : Nat} {record' : StringBuffer}
    (hb' : (h.withCount b record c).buffers b' = some record') :
    ∃ r, h.buffers b' = some r ∧ record'.data = r.data ∧ record'.allocator = r.allocator ∧
      record'.referenceCount = if b' = b then c else r.referenceCount := by
  rw [withCount_buffers] at hb'
  by_cases heq : b' = b
  · subst heq
    rw [Function.update_self] at hb'
    obtain rfl := Option.some.inj hb'
    exact ⟨record, hb, rfl, rfl, (if_pos rfl).symm⟩
  · rw [Function.update_of_ne heq] at hb'
    exact ⟨record', hb', rfl, rfl, (if_neg heq).symm⟩

theorem isSome_buffers_withCount (hb : h.buffers b = some record) (b' : Nat) :
    ((h.withCount b record c).buffers b').isSome = (h.buffers b').isSome := by
  rw [withCount_buffers]
  by_cases heq : b' = b
  · subst heq
    rw [Function.update_self, hb]
    rfl
  · rw [Function.update_of_ne heq]

/-- **The records and their data are blocks of their own**, from the allocators the records name,
and blocks are released to the allocators they are from. -/
structure Coherent (h : BufferHeap) : Prop where
  owned : ∀ b record, h.buffers b = some record →
    h.owners[b]? = some record.allocator ∧ h.owners[record.data]? = some record.allocator
  apart : ∀ b record b' record', h.buffers b = some record → h.buffers b' = some record' →
    record.data ≠ b' ∧ (record.data = record'.data → b = b')
  toOwner : ∀ r ∈ h.released, h.owners[r.2]? = some r.1

/-- The counts are `n`, and what has none is released, once. -/
structure CountedBy (h : BufferHeap) (n : Nat → Nat) : Prop extends h.Coherent where
  count : ∀ b record, h.buffers b = some record → record.referenceCount.toNat = n b
  record : ∀ b record, h.buffers b = some record → h.timesReleased b = if n b = 0 then 1 else 0
  data : ∀ b record, h.buffers b = some record →
    h.timesReleased record.data = if n b = 0 then 1 else 0

theorem Coherent.withCount (hcoh : h.Coherent) (hb : h.buffers b = some record) :
    (h.withCount b record c).Coherent := by
  constructor
  · intro b' record' hb'
    obtain ⟨r, hr, hdata, hallocator, -⟩ := buffers_withCount hb hb'
    rw [hdata, hallocator]
    exact hcoh.owned b' r hr
  · intro b₁ record₁ b₂ record₂ hb₁ hb₂
    obtain ⟨r₁, hr₁, hdata₁, -, -⟩ := buffers_withCount hb hb₁
    obtain ⟨r₂, hr₂, hdata₂, -, -⟩ := buffers_withCount hb hb₂
    rw [hdata₁, hdata₂]
    exact hcoh.apart b₁ r₁ b₂ r₂ hr₁ hr₂
  · exact hcoh.toOwner

theorem Coherent.deallocate (hcoh : h.Coherent) {allocator : UInt64} {block : Nat}
    (hblock : h.owners[block]? = some allocator) : (h.deallocate allocator block).Coherent where
  owned := hcoh.owned
  apart := hcoh.apart
  toOwner r hr := by
    rcases List.mem_cons.mp hr with rfl | hr
    · exact hblock
    · exact hcoh.toOwner r hr

/-- A count that stays above zero. -/
theorem CountedBy.withCount (hn : h.CountedBy n) (hb : h.buffers b = some record)
    (hc : c.toNat = k) (hk : k ≠ 0) (hpos : n b ≠ 0) :
    (h.withCount b record c).CountedBy (Function.update n b k) := by
  have hzero : ∀ b', (Function.update n b k b' = 0) = (n b' = 0) := by
    intro b'
    by_cases heq : b' = b
    · subst heq
      rw [Function.update_self, eq_iff_iff]
      exact iff_of_false hk hpos
    · rw [Function.update_of_ne heq]
  refine ⟨hn.toCoherent.withCount hb, ?_, ?_, ?_⟩
  · intro b' record' hb'
    obtain ⟨r, hr, -, -, hcount⟩ := buffers_withCount hb hb'
    rw [hcount]
    by_cases heq : b' = b
    · rw [if_pos heq, heq, Function.update_self, hc]
    · rw [if_neg heq, Function.update_of_ne heq, hn.count b' r hr]
  · intro b' record' hb'
    obtain ⟨r, hr, -⟩ := buffers_withCount hb hb'
    simp only [hzero]
    exact hn.record b' r hr
  · intro b' record' hb'
    obtain ⟨r, hr, hdata, -⟩ := buffers_withCount hb hb'
    simp only [hzero, hdata]
    exact hn.data b' r hr

/-- **A count that falls to zero releases the record and its data**, and nothing else. -/
theorem CountedBy.release (hn : h.CountedBy n) (hb : h.buffers b = some record) (hpos : n b ≠ 0) :
    (((h.withCount b record 0).deallocate record.allocator record.data).deallocate
      record.allocator b).CountedBy (Function.update n b 0) := by
  obtain ⟨hrecord, hdata⟩ := hn.owned b record hb
  have hcoh := ((hn.toCoherent.withCount (c := 0) hb).deallocate hdata).deallocate hrecord
  have hsame : ∀ block, (h.withCount b record 0).timesReleased block = h.timesReleased block :=
    fun _ => rfl
  refine ⟨hcoh, ?_, ?_, ?_⟩
  · intro b' record' hb'
    obtain ⟨r, hr, -, -, hcount⟩ := buffers_withCount hb hb'
    rw [hcount]
    by_cases heq : b' = b
    · rw [if_pos heq, heq, Function.update_self]
      rfl
    · rw [if_neg heq, Function.update_of_ne heq, hn.count b' r hr]
  · intro b' record' hb'
    obtain ⟨r, hr, -⟩ := buffers_withCount hb hb'
    rw [timesReleased_deallocate, timesReleased_deallocate, hsame, hn.record b' r hr,
      if_neg (hn.apart b record b' r hb hr).1]
    by_cases heq : b' = b
    · rw [heq, Function.update_self, if_neg hpos, if_pos rfl, if_pos rfl]
    · rw [Function.update_of_ne heq, if_neg (Ne.symm heq)]
      rfl
  · intro b' record' hb'
    obtain ⟨r, hr, hdata, -⟩ := buffers_withCount hb hb'
    rw [timesReleased_deallocate, timesReleased_deallocate, hsame, hdata, hn.data b' r hr,
      if_neg (hn.apart b' r b record hr hb).1.symm]
    by_cases heq : b' = b
    · subst heq
      obtain rfl := Option.some.inj (hb.symm.trans hr)
      rw [Function.update_self, if_neg hpos, if_pos rfl, if_pos rfl]
    · rw [Function.update_of_ne heq,
        if_neg fun hsame => heq ((hn.apart b record b' r hb hr).2 hsame).symm]
      rfl

/-- What is read of an accessible record, and what an assignment to it leaves. -/
theorem getBuffer_eq_some {buffer : Option Nat} (hget : h.getBuffer buffer = some record) :
    ∃ b, buffer = some b ∧ h.buffers b = some record ∧
      ∀ c, h.setBuffer buffer { record with referenceCount := c } =
        some (h.withCount b record c) := by
  cases buffer with
  | none => exact absurd hget (by simp [getBuffer])
  | some b =>
    rw [getBuffer, Option.bind_eq_bind, Option.bind_some] at hget
    split_ifs at hget with hlive
    refine ⟨b, rfl, hget, fun c => ?_⟩
    rw [setBuffer, Option.bind_eq_bind, Option.bind_some, if_pos hlive]
    rfl

theorem referenceBuffer_eq (hget : h.getBuffer (some b) = some record) :
    h.referenceBuffer (some b) = some (h.withCount b record (record.referenceCount + 1)) := by
  obtain ⟨b', hb', -, hset⟩ := getBuffer_eq_some hget
  obtain rfl := Option.some.inj hb'
  rw [referenceBuffer, hget, Option.bind_eq_bind, Option.bind_some, hset]

theorem dereferenceBuffer_eq (hget : h.getBuffer (some b) = some record) :
    h.dereferenceBuffer (some b) =
      if record.referenceCount = 0 then none
      else if record.referenceCount - 1 = 0 then
        some (((h.withCount b record (record.referenceCount - 1)).deallocate record.allocator
          record.data).deallocate record.allocator b)
      else some (h.withCount b record (record.referenceCount - 1)) := by
  obtain ⟨b', hb', -, hset⟩ := getBuffer_eq_some hget
  obtain rfl := Option.some.inj hb'
  rw [dereferenceBuffer, hget, Option.bind_eq_bind, Option.bind_some]
  simp only [hset, Option.bind_eq_bind, Option.bind_some]

/-- A buffer that is held is accessible. -/
theorem CountedBy.getBuffer (hn : h.CountedBy n) (hb : h.buffers b = some record) (hpos : n b ≠ 0) :
    h.getBuffer (some b) = some record := by
  have hlive : h.timesReleased b = 0 := by rw [hn.record b record hb, if_neg hpos]
  rw [BufferHeap.getBuffer, Option.bind_eq_bind, Option.bind_some, if_pos hlive, hb]

/-- **`reference_buffer` counts one more.** -/
theorem CountedBy.referenceBuffer (hn : h.CountedBy n) (hb : (h.buffers b).isSome)
    (hpos : n b ≠ 0) (hlt : n b + 1 < 2 ^ 64) :
    ∃ h', h.referenceBuffer (some b) = some h' ∧ h'.CountedBy (Function.update n b (n b + 1)) ∧
      ∀ b, (h'.buffers b).isSome = (h.buffers b).isSome := by
  obtain ⟨record, hb⟩ := Option.isSome_iff_exists.mp hb
  refine ⟨_, referenceBuffer_eq (hn.getBuffer hb hpos), ?_, isSome_buffers_withCount hb⟩
  refine hn.withCount hb ?_ (Nat.succ_ne_zero _) hpos
  have hcount := hn.count b record hb
  rw [UInt64.toNat_add, UInt64.toNat_one, hcount, Nat.mod_eq_of_lt hlt]

/-- **`dereference_buffer` counts one less**, and releases a buffer that has no more. -/
theorem CountedBy.dereferenceBuffer (hn : h.CountedBy n) (hb : (h.buffers b).isSome)
    (hpos : n b ≠ 0) :
    ∃ h', h.dereferenceBuffer (some b) = some h' ∧ h'.CountedBy (Function.update n b (n b - 1)) ∧
      ∀ b, (h'.buffers b).isSome = (h.buffers b).isSome := by
  obtain ⟨record, hb⟩ := Option.isSome_iff_exists.mp hb
  have hcount := hn.count b record hb
  have hne : record.referenceCount ≠ 0 := by
    rintro heq
    rw [heq] at hcount
    exact hpos hcount.symm
  have hless : (record.referenceCount - 1).toNat = n b - 1 := by
    rw [Bits.toNat_sub_one (Bits.toNat_pos hne), hcount]
  have hrun := dereferenceBuffer_eq (hn.getBuffer hb hpos)
  rw [if_neg hne] at hrun
  by_cases hlast : record.referenceCount - 1 = 0
  · rw [if_pos hlast, hlast] at hrun
    rw [hlast] at hless
    rw [← hless]
    exact ⟨_, hrun, hn.release hb hpos, isSome_buffers_withCount hb⟩
  · rw [if_neg hlast] at hrun
    refine ⟨_, hrun, hn.withCount hb hless ?_ hpos, isSome_buffers_withCount hb⟩
    rw [← hless]
    exact fun hzero => hlast (UInt64.toNat_inj.mp hzero)

theorem owners_append {owners : List UInt64} {allocator : UInt64}
    (h : owners[b]? = some allocator) (more : List UInt64) :
    (owners ++ more)[b]? = some allocator := by
  obtain ⟨hlt, -⟩ := List.getElem?_eq_some_iff.mp h
  rw [List.getElem?_append_left hlt, h]

/-- Records and data are among the blocks. -/
theorem Coherent.lt_length (hcoh : h.Coherent) (hb : h.buffers b = some record) :
    b < h.owners.length ∧ record.data < h.owners.length := by
  obtain ⟨hrecord, hdata⟩ := hcoh.owned b record hb
  exact ⟨(List.getElem?_eq_some_iff.mp hrecord).1, (List.getElem?_eq_some_iff.mp hdata).1⟩

/-- A block that is not allocated yet is not released. -/
theorem Coherent.timesReleased_of_le (hcoh : h.Coherent) (hle : h.owners.length ≤ b) :
    h.timesReleased b = 0 := by
  refine List.countP_eq_zero.mpr fun r hr => ?_
  obtain ⟨hlt, -⟩ := List.getElem?_eq_some_iff.mp (hcoh.toOwner r hr)
  rw [decide_eq_true_eq]
  omega

/-- The heap after a buffer has been constructed: its record and its data are two new blocks. -/
def withBuffer (h : BufferHeap) (allocator : UInt64) (text : List UInt8) : BufferHeap where
  owners := h.owners ++ [allocator, allocator]
  released := h.released
  buffers := Function.update h.buffers h.owners.length
    (some ⟨h.owners.length + 1, .ofNat text.length, 1, allocator⟩)
  bytes := Function.update h.bytes (h.owners.length + 1) text

theorem constructBuffer_eq (h : BufferHeap) (allocator : UInt64) (text : List UInt8) :
    h.constructBuffer allocator text true true =
      (some h.owners.length, h.withBuffer allocator text) := by
  unfold constructBuffer
  simp only [if_true, allocate, withBuffer, List.length_append, List.length_singleton,
    List.append_assoc, List.singleton_append]

theorem withBuffer_buffers (h : BufferHeap) (allocator : UInt64) (text : List UInt8) :
    (h.withBuffer allocator text).buffers = Function.update h.buffers h.owners.length
      (some ⟨h.owners.length + 1, .ofNat text.length, 1, allocator⟩) := rfl

/-- A buffer after a construction is the new one or was there. -/
theorem buffers_withBuffer {allocator : UInt64} {text : List UInt8}
    (hb : (h.withBuffer allocator text).buffers b = some record) :
    (b = h.owners.length ∧
        record = ⟨h.owners.length + 1, .ofNat text.length, 1, allocator⟩) ∨
      h.buffers b = some record := by
  rw [withBuffer_buffers] at hb
  by_cases heq : b = h.owners.length
  · subst heq
    rw [Function.update_self] at hb
    exact .inl ⟨rfl, (Option.some.inj hb).symm⟩
  · rw [Function.update_of_ne heq] at hb
    exact .inr hb

theorem Coherent.withBuffer (hcoh : h.Coherent) (allocator : UInt64) (text : List UInt8) :
    (h.withBuffer allocator text).Coherent := by
  constructor
  · intro b record hb
    rcases buffers_withBuffer hb with ⟨rfl, rfl⟩ | hb
    · simp [BufferHeap.withBuffer]
    · obtain ⟨hrecord, hdata⟩ := hcoh.owned b record hb
      exact ⟨owners_append hrecord _, owners_append hdata _⟩
  · intro b₁ record₁ b₂ record₂ hb₁ hb₂
    rcases buffers_withBuffer hb₁ with ⟨rfl, rfl⟩ | hb₁ <;>
      rcases buffers_withBuffer hb₂ with ⟨rfl, rfl⟩ | hb₂
    · exact ⟨Nat.succ_ne_self _, fun _ => rfl⟩
    · have hlt := hcoh.lt_length hb₂
      exact ⟨by dsimp only; omega, fun heq => by dsimp only at heq; omega⟩
    · have hlt := hcoh.lt_length hb₁
      exact ⟨by omega, fun heq => by dsimp only at heq; omega⟩
    · exact hcoh.apart b₁ record₁ b₂ record₂ hb₁ hb₂
  · exact fun r hr => owners_append (hcoh.toOwner r hr) _

/-- A new buffer can be read. -/
theorem getBuffer_withBuffer (hcoh : h.Coherent) (allocator : UInt64) (text : List UInt8) :
    (h.withBuffer allocator text).getBuffer (some h.owners.length) =
      some ⟨h.owners.length + 1, .ofNat text.length, 1, allocator⟩ := by
  have hfresh : (h.withBuffer allocator text).timesReleased h.owners.length = 0 :=
    hcoh.timesReleased_of_le (Nat.le_refl _)
  rw [BufferHeap.getBuffer, Option.bind_eq_bind, Option.bind_some, if_pos hfresh,
    withBuffer_buffers, Function.update_self]

/-- **A new buffer counts one.** -/
theorem CountedBy.withBuffer (hn : h.CountedBy n) (allocator : UInt64) (text : List UInt8) :
    (h.withBuffer allocator text).CountedBy (Function.update n h.owners.length 1) := by
  have hold : ∀ b record, h.buffers b = some record →
      Function.update n h.owners.length 1 b = n b := fun b record hb =>
    Function.update_of_ne (Nat.ne_of_lt (hn.toCoherent.lt_length hb).1) _ _
  refine ⟨hn.toCoherent.withBuffer allocator text, ?_, ?_, ?_⟩
  · intro b record hb
    rcases buffers_withBuffer hb with ⟨rfl, rfl⟩ | hb
    · rw [Function.update_self]
      rfl
    · rw [hold b record hb, hn.count b record hb]
  · intro b record hb
    rcases buffers_withBuffer hb with ⟨rfl, rfl⟩ | hb
    · rw [Function.update_self]
      exact hn.toCoherent.timesReleased_of_le (Nat.le_refl _)
    · rw [hold b record hb]
      exact hn.record b record hb
  · intro b record hb
    rcases buffers_withBuffer hb with ⟨rfl, rfl⟩ | hb
    · rw [Function.update_self]
      exact hn.toCoherent.timesReleased_of_le (Nat.le_succ _)
    · rw [hold b record hb]
      exact hn.data b record hb

/-- A string that is managed has a buffer. -/
def Backs (h : BufferHeap) (s : StringObject) : Prop :=
  ∀ buffer, s.storage = .managed buffer → ∃ b, buffer = some b ∧ (h.buffers b).isSome

/-- What is held of a buffer by a string. -/
def held (s : StringObject) (b : Nat) : Nat := if s.buffer = some b then 1 else 0

theorem held_eq_update {s : StringObject} (hs : s.storage = .managed (some b)) (b' : Nat) :
    held s b' = if b' = b then 1 else 0 := by
  rw [held, StringObject.buffer, hs]
  simp only [Option.some.injEq, eq_comm]

/-- A count that is combined with what a string holds changes for its buffer alone. -/
theorem combine_held {s : StringObject} (hs : s.storage = .managed (some b))
    {f : Nat → Nat → Nat} (hf : ∀ k, f k 0 = k) :
    (fun b => f (n b) (held s b)) = Function.update n b (f (n b) 1) := by
  funext b'
  rw [held_eq_update hs, Function.update_apply]
  split_ifs with heq
  · rw [heq]
  · rw [hf]

theorem storage_of_buffer {s : StringObject} (h : s.buffer = some b) :
    s.storage = .managed (some b) := by
  unfold StringObject.buffer at h
  cases hs : s.storage with
  | managed buffer =>
    rw [hs] at h
    obtain rfl : buffer = some b := h
    rfl
  | unmanaged constString =>
    rw [hs] at h
    exact absurd h (by simp)

theorem held_of_unmanaged {s : StringObject} {constString : UInt64}
    (hs : s.storage = .unmanaged constString) (b : Nat) : held s b = 0 := by
  rw [held, StringObject.buffer, hs]
  exact if_neg (by simp)

/-- **Dropping the buffer of a string.** -/
theorem CountedBy.dropBuffer {s : StringObject} (hn : h.CountedBy n) (hbacks : h.Backs s)
    (hpos : ∀ b, held s b ≤ n b) :
    ∃ h', h.dropBuffer s = some h' ∧ h'.CountedBy (fun b => n b - held s b) ∧
      ∀ b, (h'.buffers b).isSome = (h.buffers b).isSome := by
  unfold BufferHeap.dropBuffer
  cases hs : s.storage with
  | managed buffer =>
    obtain ⟨b, rfl, hb⟩ := hbacks buffer hs
    have hheld := held_eq_update hs
    have hb' := hpos b
    rw [hheld, if_pos rfl] at hb'
    obtain ⟨h', hrun, hn', hsame⟩ := hn.dereferenceBuffer hb (by omega)
    refine ⟨h', hrun, ?_, hsame⟩
    have heq : (fun b => n b - held s b) = Function.update n b (n b - 1) :=
      combine_held hs Nat.sub_zero
    rwa [heq]
  | unmanaged constString =>
    refine ⟨h, rfl, ?_, fun _ => rfl⟩
    simpa only [held_of_unmanaged hs, Nat.sub_zero] using hn

/-- **Taking the buffer of a string.** -/
theorem CountedBy.takeBuffer {s : StringObject} (hn : h.CountedBy n) (hbacks : h.Backs s)
    (hpos : ∀ b, held s b ≤ n b) (hlt : ∀ b, n b + held s b < 2 ^ 64) :
    ∃ h', h.takeBuffer s = some h' ∧ h'.CountedBy (fun b => n b + held s b) ∧
      ∀ b, (h'.buffers b).isSome = (h.buffers b).isSome := by
  unfold BufferHeap.takeBuffer
  cases hs : s.storage with
  | managed buffer =>
    obtain ⟨b, rfl, hb⟩ := hbacks buffer hs
    have hheld := held_eq_update hs
    have hb' := hpos b
    have hlt' := hlt b
    rw [hheld, if_pos rfl] at hb' hlt'
    obtain ⟨h', hrun, hn', hsame⟩ := hn.referenceBuffer hb (by omega) hlt'
    refine ⟨h', hrun, ?_, hsame⟩
    have heq : (fun b => n b + held s b) = Function.update n b (n b + 1) :=
      combine_held hs Nat.add_zero
    rwa [heq]
  | unmanaged constString =>
    refine ⟨h, rfl, ?_, fun _ => rfl⟩
    simpa only [held_of_unmanaged hs, Nat.add_zero] using hn

end BufferHeap

/-! ## What happens to the strings -/

namespace Strings

open BufferHeap

variable {s s' : Strings} {target other : UInt64} {value : StringObject} {heap : BufferHeap}

/-- **The invariant**: strings live at addresses of their own, those that are managed have buffers,
and the buffers are counted by the strings that hold them. -/
structure Inv (s : Strings) : Prop where
  nodup : s.live.Nodup
  nonnull : 0 ∉ s.live
  backed : ∀ a ∈ s.live, s.heap.Backs (s.string a)
  counted : s.heap.CountedBy s.holders

theorem Inv.toCounted (hinv : s.Inv) : s.Counted :=
  ⟨hinv.counted.count, hinv.counted.record, hinv.counted.data, hinv.counted.toOwner⟩

theorem buffer_update (string : UInt64 → StringObject) (target : UInt64) (value : StringObject) :
    (fun a => (Function.update string target value a).buffer) =
      Function.update (fun a => (string a).buffer) target value.buffer := by
  funext a
  exact Function.apply_update (fun _ => StringObject.buffer) string target value a

theorem held_le_holders {a : UInt64} (ha : a ∈ s.live) (b : Nat) :
    held (s.string a) b ≤ s.holders b := by
  rw [held]
  split_ifs with hheld
  · exact references_pos ha hheld
  · exact Nat.zero_le _

/-- The holders of a buffer after a string is made. -/
theorem holders_construct (s : Strings) (htarget : target ∉ s.live) (value : StringObject)
    (b : Nat) : (s.construct target value).holders b = s.holders b + held value b := by
  rw [holders, construct, buffer_update]
  exact references_construct htarget _

theorem backs_of_isSome (h : s.heap.Backs value)
    (hkeep : ∀ b, (s.heap.buffers b).isSome → (heap.buffers b).isSome) : heap.Backs value := by
  intro buffer hbuffer
  obtain ⟨b, rfl, hb⟩ := h buffer hbuffer
  exact ⟨b, rfl, hkeep b hb⟩

/-- The strings after one has changed are backed if that one is. -/
theorem backs_update {a : UInt64} (ha : heap.Backs (s.string a)) (hvalue : heap.Backs value) :
    heap.Backs (Function.update s.string target value a) := by
  by_cases heq : a = target
  · rwa [heq, Function.update_self]
  · rwa [Function.update_of_ne heq]

/-- The addresses of the strings after one is made. -/
theorem Inv.addresses (hinv : s.Inv) (hvacant : s.Vacant target) :
    (target :: s.live).Nodup ∧ 0 ∉ target :: s.live := by
  refine ⟨List.nodup_cons.mpr ⟨hvacant.2, hinv.nodup⟩, fun hmem => ?_⟩
  rcases List.mem_cons.mp hmem with heq | hmem
  · exact hvacant.1 heq.symm
  · exact hinv.nonnull hmem

/-- A string that is made counts in its buffer. -/
theorem Inv.construct (hinv : s.Inv) (heap : BufferHeap) (hvacant : s.Vacant target)
    (hbacks : heap.Backs value) (hn : heap.CountedBy fun b => s.holders b + held value b)
    (hkeep : ∀ b, (s.heap.buffers b).isSome → (heap.buffers b).isSome) :
    ({ s with heap := heap }.construct target value).Inv := by
  obtain ⟨hnodup, hnonnull⟩ := hinv.addresses hvacant
  refine ⟨hnodup, hnonnull, fun a ha => ?_, ?_⟩
  · by_cases heq : a = target
    · rw [heq]
      exact (congrArg heap.Backs (Function.update_self ..)).mpr hbacks
    · have hlive := (List.mem_cons.mp ha).resolve_left heq
      have hbacks' := backs_of_isSome (hinv.backed a hlive) hkeep
      exact (congrArg heap.Backs (Function.update_of_ne heq ..)).mpr hbacks'
  · have hholders : ({ s with heap := heap }.construct target value).holders =
        fun b => s.holders b + held value b :=
      funext (holders_construct { s with heap := heap } hvacant.2 value)
    rw [hholders]
    exact hn

/-- A copy takes what the other string holds. -/
theorem copyConstruct_eq (hbacks : s.heap.Backs (s.string other)) :
    s.copyConstruct target other = (s.heap.takeBuffer (s.string other)).map fun heap =>
      { s with heap := heap }.construct target (s.string other) := by
  unfold copyConstruct takeBuffer
  cases hs : (s.string other).storage with
  | managed buffer =>
    obtain ⟨b, rfl, -⟩ := hbacks buffer hs
    simp only [hs, ne_eq, reduceCtorEq, not_false_eq_true, if_true]
    exact Option.map_eq_bind.symm
  | unmanaged constString =>
    simp only [hs]
    rfl

/-- **A copy counts.** -/
theorem Inv.copyConstruct (hinv : s.Inv) (hvacant : s.Vacant target) (hother : other ∈ s.live) :
    ∃ s', s.copyConstruct target other = some s' ∧ s'.Inv ∧ s'.live = target :: s.live ∧
      s'.string target = s.string other := by
  have hbacks := hinv.backed other hother
  obtain ⟨hnodup, hnonnull⟩ := hinv.addresses hvacant
  have hlt : ∀ b, s.holders b + held (s.string other) b < 2 ^ 64 := by
    intro b
    rw [← holders_construct s hvacant.2]
    exact references_lt hnodup hnonnull
  obtain ⟨heap, hrun, hn, hsame⟩ :=
    hinv.counted.takeBuffer hbacks (held_le_holders hother) hlt
  have hkeep : ∀ b, (s.heap.buffers b).isSome → (heap.buffers b).isSome := fun b hb =>
    (hsame b).trans hb
  refine ⟨_, ?_, hinv.construct heap hvacant (backs_of_isSome hbacks hkeep) hn hkeep, rfl,
    Function.update_self ..⟩
  rw [copyConstruct_eq hbacks, hrun, Option.map_some]

/-- A string that is gone drops what it held. -/
theorem destruct_eq (hbacks : s.heap.Backs (s.string target)) :
    s.destruct target = (s.heap.dropBuffer (s.string target)).map fun heap =>
      { s with heap := heap, live := s.live.erase target } := by
  unfold destruct dropBuffer
  cases hs : (s.string target).storage with
  | managed buffer =>
    obtain ⟨b, rfl, -⟩ := hbacks buffer hs
    simp only [ne_eq, reduceCtorEq, not_false_eq_true, if_true]
    exact Option.map_eq_bind.symm
  | unmanaged constString => rfl

/-- **A string that is gone does not count.** -/
theorem Inv.destruct (hinv : s.Inv) (htarget : target ∈ s.live) :
    ∃ s', s.destruct target = some s' ∧ s'.Inv := by
  have hbacks := hinv.backed target htarget
  obtain ⟨heap, hrun, hn, hsame⟩ := hinv.counted.dropBuffer hbacks (held_le_holders htarget)
  refine ⟨{ s with heap := heap, live := s.live.erase target }, ?_, ?_, ?_, ?_, ?_⟩
  · rw [destruct_eq hbacks, hrun, Option.map_some]
  · exact hinv.nodup.erase target
  · exact fun hmem => hinv.nonnull (List.mem_of_mem_erase hmem)
  · exact fun a ha => backs_of_isSome (hinv.backed a (List.mem_of_mem_erase ha)) fun b hb =>
      (hsame b).trans hb
  · have hholders : ({ s with heap := heap, live := s.live.erase target } : Strings).holders =
        fun b => s.holders b - held (s.string target) b := by
      funext b
      exact Nat.eq_sub_of_add_eq (references_erase _ b htarget)
    rw [hholders]
    exact hn

/-- **An assignment counts in the buffer it takes and not in the one it drops**, which may be
one. -/
theorem Inv.assign (hinv : s.Inv) (htarget : target ∈ s.live) (hother : other ∈ s.live) :
    ∃ s', s.assign target other = some s' ∧ s'.Inv := by
  by_cases hne : target ≠ other
  · have hbacks := hinv.backed other hother
    have hdropped := held_le_holders htarget
    have hupdate : ∀ b, references s.live
        (fun a => (Function.update s.string target (s.string other) a).buffer) b +
          held (s.string target) b = s.holders b + held (s.string other) b := by
      intro b
      rw [buffer_update]
      exact references_update hinv.nodup htarget _
    -- the other string still holds its buffer when the target has dropped it
    have htaken : ∀ b, held (s.string other) b ≤ s.holders b - held (s.string target) b := by
      intro b
      have hone := held_le_holders hother b
      unfold held at hone ⊢
      split_ifs at hone ⊢ with ho ht
      · have htwo : 1 < s.holders b := one_lt_references htarget hother hne ht ho
        exact Nat.le_sub_of_add_le htwo
      · exact hone
      · exact Nat.zero_le _
      · exact Nat.zero_le _
    obtain ⟨heap₁, hrun₁, hn₁, hsame₁⟩ :=
      hinv.counted.dropBuffer (hinv.backed target htarget) hdropped
    have hkeep₁ : ∀ b, (s.heap.buffers b).isSome → (heap₁.buffers b).isSome := fun b hb =>
      (hsame₁ b).trans hb
    have hlt : ∀ b, s.holders b - held (s.string target) b + held (s.string other) b < 2 ^ 64 := by
      intro b
      have hb := hupdate b
      have hle := hdropped b
      have hless : references s.live
          (fun a => (Function.update s.string target (s.string other) a).buffer) b < 2 ^ 64 :=
        references_lt hinv.nodup hinv.nonnull
      omega
    obtain ⟨heap₂, hrun₂, hn₂, hsame₂⟩ :=
      hn₁.takeBuffer (backs_of_isSome hbacks hkeep₁) htaken hlt
    have hkeep : ∀ b, (s.heap.buffers b).isSome → (heap₂.buffers b).isSome := fun b hb =>
      (hsame₂ b).trans (hkeep₁ b hb)
    refine ⟨{ s with heap := heap₂, string := Function.update s.string target (s.string other) },
      ?_, hinv.nodup, hinv.nonnull, ?_, ?_⟩
    · rw [Strings.assign, if_pos hne, hrun₁, Option.bind_eq_bind, Option.bind_some, hrun₂,
        Option.bind_some]
    · exact fun a ha => backs_update (backs_of_isSome (hinv.backed a ha) hkeep)
        (backs_of_isSome hbacks hkeep)
    · have hholders : references s.live
          (fun a => (Function.update s.string target (s.string other) a).buffer) =
          fun b => s.holders b - held (s.string target) b + held (s.string other) b := by
        funext b
        have hb := hupdate b
        have hle := hdropped b
        omega
      exact (congrArg heap₂.CountedBy hholders).mpr hn₂
  · exact ⟨s, if_neg hne, hinv⟩

/-- The window of a string is no matter of counting. -/
theorem Inv.narrow (hinv : s.Inv) (target : UInt64) (first last : StringIterator) :
    (s.narrow target first last).Inv := by
  have hstorage : ∀ a, ((s.narrow target first last).string a).storage = (s.string a).storage := by
    intro a
    unfold Strings.narrow
    dsimp only
    by_cases heq : a = target
    · rw [heq, Function.update_self]
    · rw [Function.update_of_ne heq]
  have hbuffer : (fun a => ((s.narrow target first last).string a).buffer) =
      fun a => (s.string a).buffer := by
    funext a
    rw [StringObject.buffer, StringObject.buffer, hstorage]
  refine ⟨hinv.nodup, hinv.nonnull, ?_, ?_⟩
  · intro a ha buffer hs
    exact hinv.backed a ha buffer ((hstorage a).symm.trans hs)
  · have hholders : (s.narrow target first last).holders = s.holders := by
      funext b
      rw [holders, hbuffer]
      rfl
    exact (congrArg s.heap.CountedBy hholders).mpr hinv.counted

/-- **A substring is a copy.** -/
theorem Inv.substring (hinv : s.Inv) {temporary : Option UInt64} {string : UInt64}
    {first last : StringIterator} (hvacant : s.Vacant target)
    (htemporary : s.VacantBeside target temporary) (hstring : string ∈ s.live)
    (hfirst : first.string = string) (hlast : last.string = string) :
    ∃ s', s.substring target temporary string first last = some s' ∧ s'.Inv := by
  have hsame : ¬ (first.string ≠ string ∨ last.string ≠ string) := by
    rw [not_or, not_not, not_not]
    exact ⟨hfirst, hlast⟩
  unfold Strings.substring
  rw [if_neg hsame]
  cases temporary with
  | none =>
    obtain ⟨s₁, hcopy, hinv₁, -⟩ := hinv.copyConstruct hvacant hstring
    refine ⟨s₁.narrow target first last, ?_, hinv₁.narrow target first last⟩
    simp only [hcopy, Option.bind_eq_bind, Option.bind_some]
  | some t =>
    obtain ⟨ht, hne⟩ := htemporary
    obtain ⟨s₁, hcopy, hinv₁, hlive, -⟩ := hinv.copyConstruct ht hstring
    -- the result is made beside the temporary, which then goes away
    have hvacant₁ : (s₁.narrow t first last).Vacant target := by
      refine ⟨hvacant.1, fun hmem => ?_⟩
      rcases List.mem_cons.mp (hlive ▸ hmem) with heq | hmem
      · exact hne heq.symm
      · exact hvacant.2 hmem
    have ht₁ : t ∈ (s₁.narrow t first last).live := hlive ▸ List.mem_cons_self
    obtain ⟨s₂, hresult, hinv₂, hlive₂, -⟩ :=
      (hinv₁.narrow t first last).copyConstruct hvacant₁ ht₁
    obtain ⟨s₃, hdestruct, hinv₃⟩ := hinv₂.destruct (hlive₂ ▸ List.mem_cons_of_mem target ht₁)
    refine ⟨s₃, ?_, hinv₃⟩
    simp only [hcopy, hresult, hdestruct, Option.bind_eq_bind, Option.bind_some]

/-- A string without a buffer. -/
theorem Inv.constructUnmanaged (hinv : s.Inv) (hvacant : s.Vacant target)
    (constString offset length : UInt64) :
    (s.construct target ⟨.unmanaged constString, offset, length⟩).Inv := by
  have hheld := held_of_unmanaged (s := ⟨.unmanaged constString, offset, length⟩) rfl
  refine hinv.construct s.heap hvacant (fun _ hs => by simp at hs) ?_ fun _ hb => hb
  simpa only [hheld, Nat.add_zero] using hinv.counted

/-- **A string that copies characters** holds a new buffer of them. -/
theorem copyChars_eq (hcoh : s.heap.Coherent) (target allocator : UInt64) (text : List UInt8) :
    s.copyChars target allocator text true true =
      some ({ s with heap := s.heap.withBuffer allocator text }.construct target
        ⟨.managed (some s.heap.owners.length), 0, .ofNat text.length⟩) := by
  unfold copyChars
  simp only [constructBuffer_eq, getBuffer_withBuffer hcoh, Option.bind_eq_bind,
    Option.bind_some]

/-- **A new buffer counts the string that is made with it**, whatever the window of that is. -/
theorem Inv.withBuffer (hinv : s.Inv) (hvacant : s.Vacant target) (allocator : UInt64)
    (text : List UInt8) (offset length : UInt64) :
    ({ s with heap := s.heap.withBuffer allocator text }.construct target
      ⟨.managed (some s.heap.owners.length), offset, length⟩).Inv := by
  have hn := hinv.counted.withBuffer allocator text
  have hnew : (s.heap.withBuffer allocator text).buffers s.heap.owners.length =
      some ⟨s.heap.owners.length + 1, .ofNat text.length, 1, allocator⟩ := by
    rw [withBuffer_buffers, Function.update_self]
  -- nobody holds the new block yet
  have hfree : s.holders s.heap.owners.length = 0 := by
    refine List.countP_eq_zero.mpr fun a ha hholds => ?_
    have hstorage := storage_of_buffer (of_decide_eq_true hholds)
    obtain ⟨b, hb, hsome⟩ := hinv.backed a ha _ hstorage
    obtain rfl := Option.some.inj hb
    obtain ⟨record, hrecord⟩ := Option.isSome_iff_exists.mp hsome
    exact Nat.lt_irrefl _ (hinv.counted.toCoherent.lt_length hrecord).1
  have hholders : Function.update s.holders s.heap.owners.length 1 = fun b => s.holders b +
      held ⟨.managed (some s.heap.owners.length), offset, length⟩ b := by
    funext b
    rw [held_eq_update rfl, Function.update_apply]
    split_ifs with heq
    · rw [heq, hfree]
    · rfl
  have hkeep : ∀ b, (s.heap.buffers b).isSome →
      ((s.heap.withBuffer allocator text).buffers b).isSome := by
    intro b hb
    rw [withBuffer_buffers, Function.update_apply]
    split_ifs
    · rfl
    · exact hb
  refine hinv.construct _ hvacant ?_ (hholders ▸ hn) hkeep
  intro buffer hbuffer
  obtain rfl := Storage.managed.inj hbuffer
  exact ⟨_, rfl, by rw [hnew]; rfl⟩

theorem Inv.copyChars (hinv : s.Inv) (hvacant : s.Vacant target) (allocator : UInt64)
    (text : List UInt8) :
    ∃ s', s.copyChars target allocator text true true = some s' ∧ s'.Inv :=
  ⟨_, copyChars_eq hinv.counted.toCoherent target allocator text,
    hinv.withBuffer hvacant allocator text 0 _⟩

/-- A call has no output. -/
theorem map_mk_eq_some {r : Option Strings} :
    r.map (Prod.mk ()) = some ((), s') ↔ r = some s' := by
  rw [Option.map_eq_some_iff]
  simp

theorem exists_map_mk {r : Option Strings} {P : Strings → Prop} (h : ∃ s', r = some s' ∧ P s') :
    ∃ s', r.map (Prod.mk ()) = some ((), s') ∧ P s' := by
  obtain ⟨s', hrun, hs'⟩ := h
  exact ⟨s', map_mk_eq_some.mpr hrun, hs'⟩

/-- **What every call keeps**: it is defined, so it touches no released buffer, and the buffers
are counted. -/
theorem Inv.step (hinv : s.Inv) (chars : UInt64 → List UInt8) {call : StringCall}
    (hlegal : s.Legal call) : ∃ s', s.step chars call = some ((), s') ∧ s'.Inv := by
  cases call with
  | empty target => exact exists_map_mk ⟨_, rfl, hinv.constructUnmanaged hlegal 0 0 0⟩
  | wrap target data => exact exists_map_mk ⟨_, rfl, hinv.constructUnmanaged hlegal data 0 _⟩
  | copyChars target allocator data grantsRecord grantsData =>
    obtain ⟨hvacant, rfl, rfl⟩ := hlegal
    exact exists_map_mk (hinv.copyChars hvacant allocator (chars data))
  | copy target other =>
    obtain ⟨hvacant, hother⟩ := hlegal
    obtain ⟨s', hrun, hinv', -⟩ := hinv.copyConstruct hvacant hother
    exact exists_map_mk ⟨s', hrun, hinv'⟩
  | assign target other => exact exists_map_mk (hinv.assign hlegal.1 hlegal.2)
  | substring target temporary string first last =>
    obtain ⟨hvacant, htemporary, hstring, hfirst, hlast⟩ := hlegal
    exact exists_map_mk (hinv.substring hvacant htemporary hstring hfirst hlast)
  | destroy target => exact exists_map_mk (hinv.destruct hlegal)

theorem inv_start : start.Inv where
  nodup := List.nodup_nil
  nonnull := List.not_mem_nil
  backed _ ha := absurd ha List.not_mem_nil
  counted := {
    owned := nofun
    apart := nofun
    toOwner := nofun
    count := nofun
    record := nofun
    data := nofun }

/-- **In every run every call is defined and leaves the buffers counted.** -/
theorem run_counted (chars : UInt64 → List UInt8) (calls : List StringCall)
    (hlegal : Along (step chars) Legal start calls) :
    Along (step chars) (fun s call => ∃ s', s.step chars call = some ((), s') ∧ s'.Counted)
      start calls := by
  refine Along.of_defined Inv (fun s call hinv hcall => ?_) inv_start hlegal
  obtain ⟨s', hstep, hinv'⟩ := hinv.step chars hcall
  exact ⟨(), s', hstep, hinv', s', hstep, hinv'.toCounted⟩

/-- A buffer that is shared with a copy, which is assigned back, and with a substring made through
a temporary, until none of them is left. -/
theorem run_counted_shared : Along (step fun _ => [0x68, 0x69])
    (fun s call => ∃ s', s.step (fun _ => [0x68, 0x69]) call = some ((), s') ∧ s'.Counted) start
    [.copyChars 1 0x10 0x20 true true, .copy 2 1, .assign 1 2,
      .substring 3 (some 4) 1 ⟨1, 0⟩ ⟨1, 1⟩, .destroy 1, .destroy 2, .destroy 3] :=
  run_counted _ _ (by decide)

end Strings

end Hologine.Text
