import Hologine.Library.Chain
import Hologine.Text.StringBuilder

/-!
# The buffers of a builder

Model of `request_buffer` and `append(const string&)` of `holo::string_builder`
(`core/text/string_builder.cpp:92-149`) where the allocator may refuse a block, and of the
destructor (`core/text/string_builder.cpp:29-44`). A builder is as in
`Hologine.Text.StringBuilder`; whether a call's allocation succeeds is part of the call.

* An `Entry` is what a request that succeeded put into the list: a length and, of a string that was
  appended, its bytes. A caller of `request_buffer` fills the buffer as it likes.
* `deallocateBuffers` is the loop of the destructor. It reads the link of a buffer before it gives
  the buffer back; a link of a buffer that is gone cannot be read.

Results:
* `Chained.step`: a call adds its entry behind the others, or fails and leaves the builder as it is.
* `Chained.destruct`: the destructor deallocates every buffer once, or none.
* `run_chained`: in every run the buffers reachable from the head are the requests that succeeded.
-/

namespace Hologine.Text

open Hologine.Library Hologine.Library.Bytes Hologine.Library.Run

/-- A call of a builder, by whether the allocator grants the block it asks for. -/
inductive ChainCall
  | append (heap : BufferHeap) (string : StringObject) (grants : Bool)
  | requestBuffer (length : UInt64) (grants : Bool)

/-- What a call returns. -/
inductive ChainOutput
  | appended (success : Bool)
  | requested (buffer : Option Nat)
  deriving Repr, DecidableEq

/-- What a request adds to the list: the length and, where the builder fills it, the bytes. -/
structure Entry where
  length : UInt64
  bytes : Option (List UInt8)
  deriving Repr, DecidableEq

namespace StringBuilder

/-- `string_builder::request_buffer`, by whether the allocator grants the block. -/
def requestBlock (b : StringBuilder) (length : UInt64) (grants : Bool) :
    Option (Option Nat × StringBuilder) :=
  if grants then (b.requestBuffer length).map fun (buffer, b) => (some buffer, b)
  else some (none, b)

variable (chars : UInt64 → List UInt8)

/-- `string_builder::append(const holo::string&)`, by whether the allocator grants the block. -/
def appendString (b : StringBuilder) (h : BufferHeap) (string : StringObject) (grants : Bool) :
    Option (Bool × StringBuilder) := do
  let pointer ← h.dataPointer string
  let (buffer, b) ← b.requestBlock string.length grants
  match buffer with
  | some buffer => do
    let data ← h.charactersAt chars pointer
    if string.offset.toNat + string.length.toNat ≤ data.length then do
      let b ← b.fill buffer (slice data string.offset.toNat string.length.toNat)
      some (true, b)
    else none
  | none => some (false, b)

/-- One call. -/
def chainStep (b : StringBuilder) : ChainCall → Option (ChainOutput × StringBuilder)
  | .append heap string grants =>
    (b.appendString chars heap string grants).map fun (success, b) => (.appended success, b)
  | .requestBuffer length grants =>
    (b.requestBlock length grants).map fun (buffer, b) => (.requested buffer, b)

/-- The loop of the destructor, from a buffer on: what has been deallocated, the last first. `fuel`
bounds the buffers. -/
def deallocateBuffers (b : StringBuilder) : Nat → List Nat → Option Nat → Option (List Nat)
  | _, deallocated, none => some deallocated
  | 0, _, some _ => none
  | fuel + 1, deallocated, some buffer =>
    if buffer ∈ deallocated then none
    else do
      let t ← b.buffers[buffer]?
      b.deallocateBuffers fuel (buffer :: deallocated) t.next

/-- `string_builder::~string_builder`: what it deallocates. -/
def destruct (b : StringBuilder) (deallocateBufferList : Bool) : Option (List Nat) :=
  if deallocateBufferList then b.deallocateBuffers b.buffers.length [] b.bufferListHead
  else some []

end StringBuilder

namespace ChainCall

variable (chars : UInt64 → List UInt8)

/-- Whether the allocator grants what the call asks for. -/
def grants : ChainCall → Bool
  | .append _ _ grants | .requestBuffer _ grants => grants

/-- The length the call asks for. -/
def length : ChainCall → UInt64
  | .append _ string _ => string.length
  | .requestBuffer length _ => length

/-- What the call adds to the list if it succeeds. -/
def entry : ChainCall → Entry
  | .append heap string _ => ⟨string.length, heap.window chars string⟩
  | .requestBuffer length _ => ⟨length, none⟩

/-- What the call returns if it succeeds with a buffer, or fails. -/
def output (buffer : Option Nat) : ChainCall → ChainOutput
  | .append _ _ _ => .appended buffer.isSome
  | .requestBuffer _ _ => .requested buffer

/-- A string that is appended has its window in its data, and a length leaves room for the header
of a buffer. -/
def Valid (call : ChainCall) : Prop :=
  call.length.toNat + 16 < 2 ^ 64 ∧
    match call with
    | .append heap string _ => ∃ pointer data, heap.Denotes chars string pointer data
    | .requestBuffer _ _ => True

end ChainCall

/-- The entries of the calls that succeed. -/
def granted (chars : UInt64 → List UInt8) (calls : List ChainCall) : List Entry :=
  (calls.filter ChainCall.grants).map (ChainCall.entry chars)

namespace StringBuilder

/-- The link of a buffer. -/
def next (b : StringBuilder) (buffer : Nat) : Option Nat := b.buffers[buffer]?.bind (·.next)

/-- A buffer is what a request asked for. -/
def Holds (b : StringBuilder) (buffer : Nat) (entry : Entry) : Prop :=
  ∃ t, b.buffers[buffer]? = some t ∧ t.length = entry.length ∧
    ∀ bytes, entry.bytes = some bytes → t.data = bytes

/-- **The list of a builder**: the buffers that the head leads to are what the requests asked for,
in their order, and the tail is the last of them. -/
def ListOf (b : StringBuilder) (buffers : List Nat) (entries : List Entry) : Prop :=
  Chain b.next b.bufferListHead buffers ∧ List.Forall₂ b.Holds buffers entries ∧
    b.bufferListTail = buffers.getLast?

/-- The buffers of a builder, which are linked in the order they were allocated in. -/
structure Chained (b : StringBuilder) (entries : List Entry) : Prop
    extends b.Ends entries.length where
  holds : ∀ i entry, entries[i]? = some entry → b.Holds i entry
  links : ∀ i < entries.length, b.next i = if i + 1 < entries.length then some (i + 1) else none

variable {chars : UInt64 → List UInt8} {b b' : StringBuilder} {entries : List Entry}
  {length : UInt64} {buffer : Nat} {entry : Entry}

theorem chained_new (uninitialized : Uninitialized) : (new uninitialized).Chained [] where
  head := rfl
  tail := rfl
  length := rfl
  holds i entry hentry := absurd hentry (by simp)
  links i hi := absurd hi (Nat.not_lt_zero i)

theorem getElem?_concat_eq_some {α : Type*} {l : List α} {a a' : α} {i : Nat} :
    (l ++ [a])[i]? = some a' ↔ l[i]? = some a' ∨ i = l.length ∧ a = a' := by
  rcases Nat.lt_trichotomy i l.length with hlt | rfl | hgt
  · rw [List.getElem?_append_left hlt]
    simp [Nat.ne_of_lt hlt]
  · simp
  · have hlen : (l ++ [a]).length = l.length + 1 := List.length_append
    rw [List.getElem?_eq_none (by omega), List.getElem?_eq_none (by omega)]
    simp [Nat.ne_of_gt hgt]

/-! ## One call -/

/-- What a request leaves of the other buffers: all but the link of the last one. -/
theorem Holds.requestBuffer {n i : Nat} (hholds : b.Holds i entry) (hends : b.Ends n)
    (hrun : b.requestBuffer length = some (buffer, b')) (hi : i < n) : b'.Holds i entry := by
  obtain ⟨-, -, -, -, hold⟩ := hends.requestBuffer hrun
  obtain ⟨t, ht, hlength, hbytes⟩ := hholds
  have hget := hold i hi
  rw [ht, Option.map_some] at hget
  refine ⟨_, hget, ?_, fun bytes h => ?_⟩
  · split_ifs <;> exact hlength
  · split_ifs <;> exact hbytes bytes h

/-- **A request links a buffer behind the others.** -/
theorem Chained.requestBuffer (hchained : b.Chained entries)
    (hrun : b.requestBuffer length = some (buffer, b')) :
    buffer = entries.length ∧ b'.Chained (entries ++ [⟨length, none⟩]) := by
  obtain ⟨rfl, hends, -, hnew, hold⟩ := hchained.toEnds.requestBuffer hrun
  have hcount : (entries ++ [(⟨length, none⟩ : Entry)]).length = entries.length + 1 := by simp
  refine ⟨rfl, ⟨hcount ▸ hends, ?_, ?_⟩⟩
  · intro i entry hentry
    rcases getElem?_concat_eq_some.mp hentry with hentry | ⟨rfl, rfl⟩
    · obtain ⟨hi, -⟩ := List.getElem?_eq_some_iff.mp hentry
      exact (hchained.holds i entry hentry).requestBuffer hchained.toEnds hrun hi
    · exact ⟨_, hnew, rfl, fun bytes hbytes => absurd hbytes (by simp)⟩
  · intro i hi
    rw [hcount] at hi ⊢
    by_cases hlast : i = entries.length
    · subst hlast
      rw [next, hnew, Option.bind_some, if_neg (Nat.lt_irrefl _)]
    · have hi' : i < entries.length := by omega
      have hlink := hchained.links i hi'
      obtain ⟨t, ht, -, -⟩ := hchained.holds i _ (List.getElem?_eq_getElem hi')
      rw [next, ht, Option.bind_some] at hlink
      rw [next, hold i hi', ht, Option.map_some, Option.bind_some, if_pos (Nat.succ_lt_succ hi')]
      by_cases hbefore : i + 1 = entries.length
      · rw [if_pos hbefore, hbefore]
      · rw [if_neg hbefore, hlink, if_pos (by omega)]

/-- **A buffer that is filled holds what it is filled with**, and the others what they held. -/
theorem Chained.fill (hchained : b.Chained (entries ++ [⟨length, none⟩])) {data : List UInt8}
    (hdata : data.length ≤ length.toNat) :
    ∃ b', b.fill entries.length data = some b' ∧ b'.Chained (entries ++ [⟨length, some data⟩]) := by
  have hcount : ∀ e : Entry, (entries ++ [e]).length = entries.length + 1 := fun e => by simp
  obtain ⟨t, ht, hlength, -⟩ :=
    hchained.holds entries.length ⟨length, none⟩ (getElem?_concat_eq_some.mpr (.inr ⟨rfl, rfl⟩))
  obtain ⟨hlt, -⟩ := List.getElem?_eq_some_iff.mp ht
  have hends := hchained.toEnds
  have hsame : ∀ i, i ≠ entries.length →
      (b.buffers.set entries.length { t with data := data })[i]? = b.buffers[i]? := fun i hi =>
    List.getElem?_set_ne hi.symm
  have hset : (b.buffers.set entries.length { t with data := data })[entries.length]? =
      some { t with data := data } := List.getElem?_set_self hlt
  rw [hcount] at hends
  refine ⟨{ b with buffers := b.buffers.set entries.length { t with data := data } }, ?_, ?_⟩
  · rw [StringBuilder.fill, ht, Option.bind_eq_bind, Option.bind_some,
      if_pos (hlength.symm ▸ hdata)]
  · refine ⟨?_, ?_, ?_⟩
    · rw [hcount]
      exact ⟨hends.head, hends.tail, by rw [List.length_set]; exact hends.length⟩
    · intro i entry hentry
      rcases getElem?_concat_eq_some.mp hentry with hentry | ⟨rfl, rfl⟩
      · obtain ⟨hi, -⟩ := List.getElem?_eq_some_iff.mp hentry
        obtain ⟨t', ht', hholds⟩ :=
          hchained.holds i entry (getElem?_concat_eq_some.mpr (.inl hentry))
        exact ⟨t', (hsame i (Nat.ne_of_lt hi)).trans ht', hholds⟩
      · exact ⟨_, hset, hlength, fun bytes hbytes => Option.some.inj hbytes⟩
    · intro i hi
      have hlink := hchained.links i (by rw [hcount] at hi ⊢; exact hi)
      rw [hcount] at hlink ⊢
      rw [← hlink]
      by_cases hlast : i = entries.length
      · subst hlast
        rw [next, next, hset, ht]
        rfl
      · rw [next, next, hsame i hlast]

/-- **What a call does**: granted its block, it adds its entry behind the others and returns the new
buffer; otherwise it fails and leaves the builder as it is. -/
theorem Chained.step (hchained : b.Chained entries) {call : ChainCall} (hvalid : call.Valid chars) :
    if call.grants then
      ∃ b', b.chainStep chars call = some (call.output (some entries.length), b') ∧
        b'.Chained (entries ++ [call.entry chars])
    else b.chainStep chars call = some (call.output none, b) := by
  obtain ⟨hsize, hvalid⟩ := hvalid
  obtain ⟨⟨buffer, b₁⟩, hrequest⟩ := b.requestBuffer_isSome hsize
  obtain ⟨rfl, hchained₁⟩ := hchained.requestBuffer hrequest
  cases call with
  | append heap string grants =>
    obtain ⟨pointer, data, hstring⟩ := hvalid
    simp only [ChainCall.length] at hrequest hchained₁
    cases grants with
    | false =>
      simp only [ChainCall.grants, chainStep, appendString, hstring.points, requestBlock,
        Option.bind_eq_bind, Option.bind_some, Bool.false_eq_true, if_false, Option.map_some]
      rfl
    | true =>
      obtain ⟨b₂, hfill, hchained₂⟩ := hchained₁.fill (Nat.le_of_eq hstring.length_window)
      refine ⟨b₂, ?_, ?_⟩
      · simp only [chainStep, appendString, hstring.points, requestBlock, hrequest, hstring.data,
          if_pos hstring.fits, Option.bind_eq_bind, Option.bind_some, if_true, Option.map_some]
        exact congrArg (fun r => Option.map _ (Option.bind r _)) hfill
      · rw [ChainCall.entry, hstring.window]
        exact hchained₂
  | requestBuffer length grants =>
    simp only [ChainCall.length] at hrequest hchained₁
    cases grants with
    | false => rfl
    | true =>
      refine ⟨b₁, ?_, hchained₁⟩
      simp only [chainStep, requestBlock, hrequest, if_true, Option.map_some]
      rfl

/-! ## The list -/

/-- The links lead from a buffer through those after it. -/
theorem Chained.chain (hchained : b.Chained entries) {count i : Nat}
    (hcount : i + count = entries.length) :
    Chain b.next (if i < entries.length then some i else none) (List.range' i count) := by
  induction count generalizing i with
  | zero =>
    rw [if_neg (by omega)]
    exact .nil
  | succ count ih =>
    have hrest := ih (i := i + 1) (by omega)
    rw [← hchained.links i (by omega)] at hrest
    rw [if_pos (by omega)]
    exact .cons hrest

/-- **The list of a builder is the entries.** -/
theorem Chained.listOf (hchained : b.Chained entries) :
    b.ListOf (List.range entries.length) entries := by
  refine ⟨?_, ?_, ?_⟩
  · have hchain := hchained.chain (Nat.zero_add entries.length)
    have hhead : b.bufferListHead = if 0 < entries.length then some 0 else none := by
      rw [hchained.head]
      split_ifs <;> first | rfl | omega
    rwa [← hhead, ← List.range_eq_range'] at hchain
  · refine List.forall₂_iff_get.mpr ⟨List.length_range, fun i hi hi' => ?_⟩
    simp only [List.get_eq_getElem, List.getElem_range]
    exact hchained.holds i _ (List.getElem?_eq_getElem hi')
  · rw [hchained.tail, List.getLast?_range]

/-- The loop of the destructor goes through a list to its end. -/
theorem deallocateBuffers_eq {head : Option Nat} {buffers deallocated : List Nat} {fuel : Nat}
    (hchain : Chain b.next head buffers) (hlt : ∀ i ∈ buffers, i < b.buffers.length)
    (hfresh : ∀ i ∈ buffers, i ∉ deallocated) (hfuel : buffers.length ≤ fuel) :
    b.deallocateBuffers fuel deallocated head = some (buffers.reverse ++ deallocated) := by
  have hnodup := hchain.nodup
  induction hchain generalizing deallocated fuel with
  | nil => cases fuel <;> rfl
  | @cons i buffers hrest ih =>
    obtain ⟨fuel, rfl⟩ : ∃ n, fuel = n + 1 := Nat.exists_eq_add_of_le' (by
      rw [List.length_cons] at hfuel
      omega)
    obtain ⟨hnotMem, hnodup'⟩ := List.nodup_cons.mp hnodup
    have hi := hlt i List.mem_cons_self
    have hget := List.getElem?_eq_getElem hi
    have hnext : b.next i = b.buffers[i].next := by
      rw [next, hget, Option.bind_some]
    have hrest : b.deallocateBuffers fuel (i :: deallocated) (b.next i) =
        some (buffers.reverse ++ i :: deallocated) := by
      refine ih (fun j hj => hlt j (List.mem_cons_of_mem i hj)) (fun j hj hmem => ?_)
        (Nat.le_of_succ_le_succ hfuel) hnodup'
      rcases List.mem_cons.mp hmem with rfl | hmem
      · exact hnotMem hj
      · exact hfresh j (List.mem_cons_of_mem i hj) hmem
    rw [deallocateBuffers, if_neg (hfresh i List.mem_cons_self), hget, Option.bind_eq_bind,
      Option.bind_some, ← hnext, hrest, List.reverse_cons, List.append_assoc,
      List.singleton_append]

/-- **The destructor deallocates every buffer of the list once, if it is to**, and none
otherwise. -/
theorem Chained.destruct (hchained : b.Chained entries) (deallocateBufferList : Bool) :
    b.destruct deallocateBufferList =
      some (if deallocateBufferList then (List.range entries.length).reverse else []) := by
  cases deallocateBufferList with
  | false => rfl
  | true =>
    have hlength := hchained.length
    obtain ⟨hchain, -, -⟩ := hchained.listOf
    rw [StringBuilder.destruct, if_pos rfl, if_pos rfl, deallocateBuffers_eq hchain
      (fun i hi => hlength.symm ▸ List.mem_range.mp hi) (fun _ _ => List.not_mem_nil)
      (Nat.le_of_eq (List.length_range.trans hlength.symm)), List.append_nil]

/-! ## Runs -/

theorem granted_cons (call : ChainCall) (calls : List ChainCall) : granted chars (call :: calls) =
    if call.grants then call.entry chars :: granted chars calls else granted chars calls := by
  rw [granted, List.filter_cons]
  split_ifs <;> rfl

/-- Every run from a list adds to it the entries of the calls that succeed. -/
theorem Chained.exec (hchained : b.Chained entries) {calls : List ChainCall}
    (hvalid : ∀ call ∈ calls, call.Valid chars) :
    ∃ outputs b', exec (chainStep chars) b calls = some (outputs, b') ∧
      b'.Chained (entries ++ granted chars calls) := by
  induction calls generalizing b entries with
  | nil => exact ⟨[], b, rfl, (List.append_nil entries).symm ▸ hchained⟩
  | cons call calls ih =>
    have hstep := hchained.step (hvalid call List.mem_cons_self)
    rw [granted_cons]
    by_cases hgrants : call.grants = true
    · rw [if_pos hgrants] at hstep ⊢
      obtain ⟨b₁, hrun, hchained₁⟩ := hstep
      obtain ⟨outputs, b', hexec, hchained'⟩ :=
        ih hchained₁ fun c hc => hvalid c (List.mem_cons_of_mem call hc)
      rw [List.append_assoc] at hchained'
      exact ⟨_, b', exec_cons_eq_some.mpr ⟨_, outputs, b₁, hrun, hexec, rfl⟩, hchained'⟩
    · rw [if_neg hgrants] at hstep ⊢
      obtain ⟨outputs, b', hexec, hchained'⟩ :=
        ih hchained fun c hc => hvalid c (List.mem_cons_of_mem call hc)
      exact ⟨_, b', exec_cons_eq_some.mpr ⟨_, outputs, b, hstep, hexec, rfl⟩, hchained'⟩

/-- **The list of a builder in every run**, whichever allocations fail: it is defined, the buffers
that the head leads to are the requests that succeeded, in the order of the calls, each of its
length and, of a string, with its bytes, and the tail is the last of them. A call returns a new
buffer at the end of the list, or fails and leaves the builder as it is. The destructor deallocates
every buffer of the list once, if it is to, and none otherwise. -/
theorem run_chained (uninitialized : Uninitialized) {calls : List ChainCall}
    (hvalid : ∀ call ∈ calls, call.Valid chars) :
    ∃ outputs b buffers, Run.exec (chainStep chars) (new uninitialized) calls = some (outputs, b) ∧
      b.ListOf buffers (granted chars calls) ∧
      (∀ call, call.Valid chars →
        if call.grants then
          ∃ buffer b', b.chainStep chars call = some (call.output (some buffer), b') ∧
            b'.ListOf (buffers ++ [buffer]) (granted chars (calls ++ [call]))
        else b.chainStep chars call = some (call.output none, b)) ∧
      ∀ deallocateBufferList, ∃ deallocated,
        b.destruct deallocateBufferList = some deallocated ∧ deallocated.Nodup ∧
          ∀ buffer, buffer ∈ deallocated ↔ deallocateBufferList = true ∧ buffer ∈ buffers := by
  obtain ⟨outputs, b, hrun, hchained⟩ := (chained_new uninitialized).exec hvalid
  rw [List.nil_append] at hchained
  refine ⟨outputs, b, _, hrun, hchained.listOf, fun call hcall => ?_, fun flag => ?_⟩
  · have hstep := hchained.step hcall
    by_cases hgrants : call.grants = true
    · rw [if_pos hgrants] at hstep ⊢
      obtain ⟨b', hrun', hchained'⟩ := hstep
      have hgranted : granted chars (calls ++ [call]) =
          granted chars calls ++ [call.entry chars] := by
        rw [granted, List.filter_append, List.map_append, ← granted,
          List.filter_cons_of_pos hgrants]
        rfl
      have hlist := hchained'.listOf
      rw [List.length_append, List.length_singleton, List.range_succ] at hlist
      exact ⟨_, b', hrun', hgranted ▸ hlist⟩
    · rw [if_neg hgrants] at hstep ⊢
      exact hstep
  · refine ⟨_, hchained.destruct flag, ?_, fun buffer => ?_⟩
    · split_ifs
      · exact List.nodup_reverse.mpr List.nodup_range
      · exact List.nodup_nil
    · cases flag with
      | false => simp
      | true => simp

/-- A string that is appended, a request that is refused and one that is granted. -/
def refusedCalls : List ChainCall :=
  [.append Strings.start.heap ⟨.unmanaged 0x10, 0, 2⟩ true, .requestBuffer 3 false,
    .requestBuffer 1 true]

theorem run_chained_refused : ∃ outputs b buffers,
    Run.exec (chainStep fun _ => [0x68, 0x69]) (new ⟨7, fun _ => 0⟩) refusedCalls =
        some (outputs, b) ∧
      b.ListOf buffers [⟨2, some [0x68, 0x69]⟩, ⟨1, none⟩] := by
  have hvalid : ∀ call ∈ refusedCalls, call.Valid fun _ => [0x68, 0x69] := by
    intro call hcall
    simp only [refusedCalls, List.mem_cons, List.not_mem_nil, or_false] at hcall
    rcases hcall with rfl | rfl | rfl
    · exact ⟨by decide, .constString 0x10, [0x68, 0x69], rfl, rfl, by decide⟩
    · exact ⟨by decide, trivial⟩
    · exact ⟨by decide, trivial⟩
  obtain ⟨outputs, b, buffers, hrun, hlist, -, -⟩ := run_chained ⟨7, fun _ => 0⟩ hvalid
  exact ⟨outputs, b, buffers, hrun, hlist⟩

end StringBuilder

end Hologine.Text
