import Hologine.Library.Bytes
import Hologine.Library.Run
import Mathlib.Data.Set.Basic

/-!
# Memory streams

Model of `memory_stream` (`core/io/memory_stream.cpp`). The block the stream encapsulates is a list
and so is each block a caller passes; an access past the end of either has no defined behaviour,
which is `none`. The callers' blocks are not parts of the stream's. `std::uint64_t` and
`std::size_t` are `UInt64`.

* `transfer` is the loop that `read` and `write` share, over what it does with one byte.
* `seek` leaves `new_position` uninitialised in one branch; the value it has then is an argument.
* `ByteStore` is what the stream is for: bytes of a fixed number and a position among them, and
  `ByteStore.Allows` says what each operation may do to it.

Results:
* `read_eq`, `write_eq`: the loops in one formula.
* `step_refines`: an operation on a stream does what the store allows.
* `exec_refines`: so does every run from a new stream, none of which leaves the blocks.
-/

namespace Hologine.Io

open Hologine.Library Hologine.Library.Bytes Hologine.Library.Run

namespace SeekFlags

def forwardRelative : Int := 0
def backwardRelative : Int := 1
def «end» : Int := 2
def absolute : Int := 3

end SeekFlags

/-- A byte stored in a block. -/
def store (block : List UInt8) (i : UInt64) (b : UInt8) : Option (List UInt8) :=
  if i.toNat < block.length then some (block.set i.toNat b) else none

/-- The loop of `read` and `write`, while bytes remain of the count and of the stream. `copy i p`
copies between byte `i` of the caller's block and byte `p` of the stream, into `block`. -/
def transfer (streamLength : UInt64)
    (copy : UInt64 → UInt64 → List UInt8 → Option (List UInt8)) :
    Nat → UInt64 → UInt64 → List UInt8 → Option (UInt64 × UInt64 × List UInt8)
  | 0, bytes, position, block => some (bytes, position, block)
  | remaining + 1, bytes, position, block =>
    if position < streamLength then do
      let block ← copy bytes position block
      transfer streamLength copy remaining (bytes + 1) (position + 1) block
    else some (bytes, position, block)

/-- A stream and the block it encapsulates. -/
structure MemoryStream where
  isReadable : Bool
  isWritable : Bool
  currentPosition : UInt64
  streamLength : UInt64
  streamData : List UInt8
  deriving Repr, DecidableEq

namespace MemoryStream

/-- The constructor, over a block of `length` bytes. -/
def create (stream : List UInt8) (length : UInt64) (readable writable : Bool) : MemoryStream where
  isReadable := readable
  isWritable := writable
  currentPosition := 0
  streamLength := length
  streamData := stream

/-- `read`: the number of bytes read and the block they are read into. -/
def read (s : MemoryStream) (data : List UInt8) (count : UInt64) :
    Option (UInt64 × List UInt8 × MemoryStream) :=
  if !s.isReadable then some (0, data, s)
  else do
    let (bytesRead, position, data) ← transfer s.streamLength
      (fun i p data => do store data i (← s.streamData[p.toNat]?))
      count.toNat 0 s.currentPosition data
    some (bytesRead, data, { s with currentPosition := position })

/-- `write`: the number of bytes written. -/
def write (s : MemoryStream) (data : List UInt8) (count : UInt64) :
    Option (UInt64 × MemoryStream) :=
  if !s.isWritable then some (0, s)
  else do
    let (bytesWritten, position, streamData) ← transfer s.streamLength
      (fun i p streamData => do store streamData p (← data[i.toNat]?))
      count.toNat 0 s.currentPosition s.streamData
    some (bytesWritten, { s with currentPosition := position, streamData := streamData })

/-- The `switch` of `seek`: the new position, or `none` for an unknown flag. -/
def newPosition (s : MemoryStream) (offset : UInt64) (flags : Int) (uninitialised : UInt64) :
    Option UInt64 :=
  if flags = SeekFlags.absolute then some offset
  else if flags = SeekFlags.forwardRelative then some (s.currentPosition + offset)
  else if flags = SeekFlags.backwardRelative then
    if offset > s.currentPosition then some 0 else some (s.currentPosition - offset)
  else if flags = SeekFlags.«end» then
    -- the position from the end is assigned to `offset`, which nothing reads again
    if offset > s.streamLength then some 0 else some uninitialised
  else none

/-- `seek`. -/
def seek (s : MemoryStream) (offset : UInt64) (flags : Int) (uninitialised : UInt64) :
    Bool × MemoryStream :=
  match s.newPosition offset flags uninitialised with
  | none => (false, s)
  | some newPosition =>
    let newPosition := if newPosition ≥ s.streamLength then s.streamLength else newPosition
    (true, { s with currentPosition := newPosition })

end MemoryStream

/-! ## The loop -/

theorem store_eq_some {block : List UInt8} {i : UInt64} (h : i.toNat < block.length) (b : UInt8) :
    store block i b = some (block.set i.toNat b) := if_pos h

/-- **The loop in one formula**: the bytes `part` that are left of the count and of the stream go
to `block` at `base`. -/
theorem transfer_eq {streamLength : UInt64}
    {copy : UInt64 → UInt64 → List UInt8 → Option (List UInt8)} :
    ∀ (part : List UInt8) {remaining base : Nat} {bytes position : UInt64} {block : List UInt8},
      part.length = min remaining (streamLength.toNat - position.toNat) →
      bytes.toNat + remaining < 2 ^ 64 → base + part.length ≤ block.length →
      (∀ (k : Nat) (hk : k < part.length) (i p : UInt64) (block' : List UInt8),
        i.toNat = bytes.toNat + k → p.toNat = position.toNat + k →
        block'.length = block.length → copy i p block' = some (block'.set (base + k) part[k])) →
      transfer streamLength copy remaining bytes position block =
        some (bytes + UInt64.ofNat part.length, position + UInt64.ofNat part.length,
          overwrite block base part)
  | [], remaining, base, bytes, position, block, hlen, _, _, _ => by
    have hstop : remaining = 0 ∨ ¬ position < streamLength := by
      rw [UInt64.lt_iff_toNat_lt]
      rw [List.length_nil] at hlen
      omega
    cases remaining with
    | zero => simp [transfer]
    | succ n =>
      rw [transfer, if_neg (hstop.resolve_left (by omega))]
      simp
  | b :: part, remaining, base, bytes, position, block, hlen, hbytes, hbase, hcopy => by
    have hpos := streamLength.toNat_lt
    rw [List.length_cons] at hlen hbase
    obtain ⟨n, rfl⟩ : ∃ n, remaining = n + 1 := ⟨remaining - 1, by omega⟩
    have hlt : position < streamLength := by
      rw [UInt64.lt_iff_toNat_lt]
      omega
    have hb1 : (bytes + 1).toNat = bytes.toNat + 1 := by
      rw [UInt64.toNat_add, UInt64.toNat_one]
      omega
    have hp1 : (position + 1).toNat = position.toNat + 1 := by
      rw [UInt64.toNat_add, UInt64.toNat_one]
      omega
    have hset : (block.set base b).length = block.length := List.length_set
    have ih : transfer streamLength copy n (bytes + 1) (position + 1) (block.set base b) =
        some (bytes + 1 + UInt64.ofNat part.length, position + 1 + UInt64.ofNat part.length,
          overwrite (block.set base b) (base + 1) part) := by
      refine transfer_eq part (by omega) (by omega) (by omega) fun k hk i p block' hi hp hlen' => ?_
      rw [hcopy (k + 1) (by simpa using hk) i p block' (by omega) (by omega) (by omega),
        Nat.add_assoc, Nat.add_comm 1 k]
      rfl
    have hfirst := hcopy 0 (by simp) bytes position block rfl rfl rfl
    have hcount : ∀ x : UInt64,
        x + 1 + UInt64.ofNat part.length = x + UInt64.ofNat (b :: part).length := by
      intro x
      rw [List.length_cons, Nat.add_comm, UInt64.ofNat_add, UInt64.add_assoc]
      rfl
    rw [transfer, if_pos hlt, hfirst, Option.bind_eq_bind, Option.bind_some]
    rw [show (block.set (base + 0) (b :: part)[0]) = block.set base b from rfl, ih, hcount, hcount,
      overwrite_set (by omega)]

/-- The loop from its start. -/
theorem transfer_count {streamLength count position : UInt64}
    {copy : UInt64 → UInt64 → List UInt8 → Option (List UInt8)} {part block : List UInt8}
    {base n : Nat} (hpart : part.length = n)
    (hn : n = min count.toNat (streamLength.toNat - position.toNat))
    (hbase : base + n ≤ block.length)
    (hcopy : ∀ (k : Nat) (hk : k < part.length) (i p : UInt64) (block' : List UInt8),
      i.toNat = k → p.toNat = position.toNat + k → block'.length = block.length →
        copy i p block' = some (block'.set (base + k) part[k])) :
    transfer streamLength copy count.toNat 0 position block =
      some (UInt64.ofNat n, position + UInt64.ofNat n, overwrite block base part) := by
  subst hpart
  have hcount := count.toNat_lt
  rw [transfer_eq part hn (by simpa using hcount) hbase, UInt64.zero_add]
  intro k hk i p block' hi
  rw [UInt64.toNat_zero, Nat.zero_add] at hi
  exact hcopy k hk i p block' hi

namespace MemoryStream

variable {s : MemoryStream}

/-- The block holds `streamLength` bytes, and the position is in it or at its end. -/
structure WellFormed (s : MemoryStream) : Prop where
  length_eq : s.streamData.length = s.streamLength.toNat
  position_le : s.currentPosition ≤ s.streamLength

/-- What is left of `count` and of the stream. -/
def available (s : MemoryStream) (count : UInt64) : Nat :=
  min count.toNat (s.streamLength.toNat - s.currentPosition.toNat)

/-- **`read` in one formula.** -/
theorem read_eq (hs : s.WellFormed) (hr : s.isReadable = true) {data : List UInt8} {count : UInt64}
    (hdata : count.toNat ≤ data.length) :
    s.read data count = some (UInt64.ofNat (s.available count),
      overwrite data 0 (slice s.streamData s.currentPosition.toNat (s.available count)),
      { s with currentPosition := s.currentPosition + UInt64.ofNat (s.available count) }) := by
  have hle := UInt64.le_iff_toNat_le.mp hs.position_le
  have hlen := hs.length_eq
  have havail : s.available count = min count.toNat
    (s.streamLength.toNat - s.currentPosition.toNat) := rfl
  have hslice : (slice s.streamData s.currentPosition.toNat (s.available count)).length =
      s.available count := length_slice (by omega)
  have hloop : transfer s.streamLength (fun i p data => do store data i (← s.streamData[p.toNat]?))
      count.toNat 0 s.currentPosition data = some (UInt64.ofNat (s.available count),
        s.currentPosition + UInt64.ofNat (s.available count),
        overwrite data 0 (slice s.streamData s.currentPosition.toNat (s.available count))) := by
    refine transfer_count hslice havail (by omega) fun k hk i p block hi hp hblock => ?_
    simp only [hp, getElem_slice hk, Option.bind_eq_bind, Option.bind_some]
    rw [store_eq_some (by omega), hi, Nat.zero_add]
  rw [read, hr, hloop]
  rfl

/-- **`write` in one formula.** -/
theorem write_eq (hs : s.WellFormed) (hw : s.isWritable = true) {data : List UInt8}
    {count : UInt64} (hdata : count.toNat ≤ data.length) :
    s.write data count = some (UInt64.ofNat (s.available count),
      { s with
        currentPosition := s.currentPosition + UInt64.ofNat (s.available count)
        streamData := overwrite s.streamData s.currentPosition.toNat
          (slice data 0 (s.available count)) }) := by
  have hle := UInt64.le_iff_toNat_le.mp hs.position_le
  have hlen := hs.length_eq
  have havail : s.available count = min count.toNat
    (s.streamLength.toNat - s.currentPosition.toNat) := rfl
  have hslice : (slice data 0 (s.available count)).length = s.available count :=
    length_slice (by omega)
  have hloop : transfer s.streamLength
      (fun i p streamData => do store streamData p (← data[i.toNat]?)) count.toNat 0
      s.currentPosition s.streamData = some (UInt64.ofNat (s.available count),
        s.currentPosition + UInt64.ofNat (s.available count),
        overwrite s.streamData s.currentPosition.toNat (slice data 0 (s.available count))) := by
    refine transfer_count hslice havail (by omega) fun k hk i p block hi hp hblock => ?_
    have hget := getElem_slice hk
    rw [Nat.zero_add] at hget
    simp only [hi, hget, Option.bind_eq_bind, Option.bind_some]
    rw [store_eq_some (by omega), hp]
  rw [write, hw, hloop]
  rfl

/-- The stream with its position moved on by `n`. -/
def advanced (s : MemoryStream) (n : Nat) : MemoryStream :=
  { s with currentPosition := s.currentPosition + UInt64.ofNat n }

/-- The stream after `part` has been written. -/
def written (s : MemoryStream) (part : List UInt8) : MemoryStream :=
  { s.advanced part.length with
    streamData := overwrite s.streamData s.currentPosition.toNat part }

theorem toNat_advanced {n : Nat} (h : s.currentPosition.toNat + n ≤ s.streamLength.toNat) :
    (s.advanced n).currentPosition.toNat = s.currentPosition.toNat + n := by
  have hlt := s.streamLength.toNat_lt
  rw [advanced, UInt64.toNat_add, UInt64.toNat_ofNat']
  omega

theorem WellFormed.advanced (hs : s.WellFormed) {n : Nat}
    (h : s.currentPosition.toNat + n ≤ s.streamLength.toNat) : (s.advanced n).WellFormed where
  length_eq := hs.length_eq
  position_le := by
    rw [UInt64.le_iff_toNat_le, toNat_advanced h]
    exact h

theorem WellFormed.written (hs : s.WellFormed) {part : List UInt8}
    (h : s.currentPosition.toNat + part.length ≤ s.streamLength.toNat) :
    (s.written part).WellFormed where
  length_eq := by
    have hlen := hs.length_eq
    rw [MemoryStream.written, length_overwrite (by omega)]
    exact hlen
  position_le := (hs.advanced h).position_le

/-- The bytes left of the stream. -/
def left (s : MemoryStream) : Nat := s.streamLength.toNat - s.currentPosition.toNat

theorem WellFormed.left_add (hs : s.WellFormed) :
    s.currentPosition.toNat + s.left = s.streamLength.toNat := by
  have hle := UInt64.le_iff_toNat_le.mp hs.position_le
  rw [left]
  omega

theorem left_advanced (hs : s.WellFormed) {n : Nat} (h : n ≤ s.left) :
    (s.advanced n).left = s.left - n := by
  have hadd := hs.left_add
  rw [left, toNat_advanced (by omega)]
  change s.streamLength.toNat - (s.currentPosition.toNat + n) = s.left - n
  omega

theorem available_ofNat {n : Nat} (h : n < 2 ^ 64) :
    (UInt64.ofNat n).toNat = n ∧ s.available (UInt64.ofNat n) = min n s.left := by
  have hn : (UInt64.ofNat n).toNat = n := by rw [UInt64.toNat_ofNat', Nat.mod_eq_of_lt h]
  refine ⟨hn, ?_⟩
  rw [available, hn, left]

/-- A read of a block, as far as the stream goes. -/
theorem read_block (hs : s.WellFormed) (hr : s.isReadable = true) {data : List UInt8}
    (h : data.length < 2 ^ 64) :
    s.read data (UInt64.ofNat data.length) = some (UInt64.ofNat (min data.length s.left),
      overwrite data 0 (slice s.streamData s.currentPosition.toNat (min data.length s.left)),
      s.advanced (min data.length s.left)) := by
  obtain ⟨hn, havail⟩ := s.available_ofNat h
  rw [read_eq hs hr hn.le, havail, advanced]

/-- A write of a block, as far as the stream goes. -/
theorem write_block (hs : s.WellFormed) (hw : s.isWritable = true) {data : List UInt8}
    (h : data.length < 2 ^ 64) :
    s.write data (UInt64.ofNat data.length) =
      some (UInt64.ofNat (min data.length s.left), s.written (data.take s.left)) := by
  obtain ⟨hn, havail⟩ := s.available_ofNat h
  have htake : slice data 0 (min data.length s.left) = data.take s.left := by
    rw [slice, List.drop_zero, Nat.min_comm, ← List.take_eq_take_min]
  have hlen : (data.take s.left).length = min data.length s.left := by
    rw [List.length_take, Nat.min_comm]
  rw [write_eq hs hw hn.le, havail, htake, written, advanced, hlen]

end MemoryStream

/-! ## Operations -/

/-- A call of a stream's methods. A block passed has at least `count` bytes. -/
inductive Operation
  | read (data : List UInt8) (count : UInt64) (fits : count.toNat ≤ data.length)
  | write (data : List UInt8) (count : UInt64) (fits : count.toNat ≤ data.length)
  | seek (offset : UInt64) (flags : Int) (uninitialised : UInt64)

/-- What a call returns, with the block that `read` was passed. -/
inductive Output
  | read (bytesRead : UInt64) (data : List UInt8)
  | written (bytesWritten : UInt64)
  | sought (success : Bool)
  deriving Repr, DecidableEq

/-- One call. -/
def MemoryStream.step (s : MemoryStream) : Operation → Option (Output × MemoryStream)
  | .read data count _ => (s.read data count).map fun (n, data, s) => (.read n data, s)
  | .write data count _ => (s.write data count).map fun (n, s) => (.written n, s)
  | .seek offset flags uninitialised =>
    let (success, s) := s.seek offset flags uninitialised
    some (.sought success, s)

/-! ## What a stream is for -/

/-- `length` bytes, and a position among them or at their end. -/
structure ByteStore (length : Nat) where
  bytes : List UInt8
  length_eq : bytes.length = length
  position : Nat
  position_le : position ≤ length

namespace ByteStore

variable {length : Nat}

/-- A store at its start. -/
def new (bytes : List UInt8) : ByteStore bytes.length := ⟨bytes, rfl, 0, Nat.zero_le _⟩

/-- What is left of `count` and of the bytes from the position on. -/
def left (b : ByteStore length) (count : UInt64) : Nat := min count.toNat (length - b.position)

/-- Where a seek may end: nowhere for an unknown flag, anywhere for an offset from the end that is
not past the start. -/
def seekTargets (b : ByteStore length) (offset : UInt64) (flags : Int) : Set Nat :=
  { p | p ≤ length ∧
    (flags = SeekFlags.absolute ∧ p = min offset.toNat length ∨
      flags = SeekFlags.forwardRelative ∧
        p = min ((b.position + offset.toNat) % 2 ^ 64) length ∨
      flags = SeekFlags.backwardRelative ∧ p = b.position - offset.toNat ∨
      flags = SeekFlags.«end» ∧ (length < offset.toNat → p = 0)) }

/-- What an operation may return and leave behind. Without the right an operation has no bytes to
work on. -/
def Allows (readable writable : Bool) (b : ByteStore length) :
    Operation → Output → ByteStore length → Prop
  | .read data count _, output, b' =>
    let n := if readable then b.left count else 0
    output = .read (UInt64.ofNat n) (overwrite data 0 (slice b.bytes b.position n)) ∧
      b'.bytes = b.bytes ∧ b'.position = b.position + n
  | .write data count _, output, b' =>
    let n := if writable then b.left count else 0
    output = .written (UInt64.ofNat n) ∧
      b'.bytes = overwrite b.bytes b.position (slice data 0 n) ∧ b'.position = b.position + n
  | .seek offset flags _, output, b' =>
    b'.bytes = b.bytes ∧
      (output = .sought true ∧ b'.position ∈ b.seekTargets offset flags ∨
        output = .sought false ∧ b.seekTargets offset flags = ∅ ∧ b'.position = b.position)

end ByteStore

/-- The stream holds the store's bytes, stands at its position and gives the rights. -/
structure Refines (readable writable : Bool) {length : Nat} (s : MemoryStream)
    (b : ByteStore length) : Prop where
  isReadable : s.isReadable = readable
  isWritable : s.isWritable = writable
  streamLength : s.streamLength.toNat = length
  streamData : s.streamData = b.bytes
  currentPosition : s.currentPosition.toNat = b.position

section Refinement

variable {readable writable : Bool} {length : Nat} {s : MemoryStream} {b : ByteStore length}

theorem Refines.wellFormed (h : Refines readable writable s b) : s.WellFormed where
  length_eq := by rw [h.streamData, b.length_eq, h.streamLength]
  position_le := by
    rw [UInt64.le_iff_toNat_le, h.currentPosition, h.streamLength]
    exact b.position_le

theorem Refines.available (h : Refines readable writable s b) (count : UInt64) :
    s.available count = b.left count := by
  rw [MemoryStream.available, ByteStore.left, h.streamLength, h.currentPosition]

/-- The position after `n` bytes that are left. -/
theorem Refines.toNat_advance (h : Refines readable writable s b) (count : UInt64) :
    (s.currentPosition + UInt64.ofNat (b.left count)).toNat = b.position + b.left count := by
  have hle := b.position_le
  have hlt := s.streamLength.toNat_lt
  have hl := h.streamLength
  rw [UInt64.toNat_add, UInt64.toNat_ofNat', h.currentPosition, ByteStore.left]
  omega

theorem read_refines (h : Refines readable writable s b) {data : List UInt8} {count : UInt64}
    (fits : count.toNat ≤ data.length) :
    ∃ output s' b', s.step (.read data count fits) = some (output, s') ∧
      b.Allows readable writable (.read data count fits) output b' ∧
      Refines readable writable s' b' := by
  cases hr : readable with
  | false =>
    refine ⟨_, s, b, ?_, ⟨rfl, rfl, rfl⟩, hr ▸ h⟩
    simp [MemoryStream.step, MemoryStream.read, h.isReadable, hr, slice]
  | true =>
    have hle := b.position_le
    have hleft : b.position + b.left count ≤ length := by
      unfold ByteStore.left
      omega
    have hrun : s.step (.read data count fits) =
        some (.read (UInt64.ofNat (b.left count))
            (overwrite data 0 (slice b.bytes b.position (b.left count))),
          { s with currentPosition := s.currentPosition + UInt64.ofNat (b.left count) }) := by
      rw [MemoryStream.step, MemoryStream.read_eq h.wellFormed (h.isReadable.trans hr) fits,
        h.available, h.streamData, h.currentPosition]
      rfl
    exact ⟨_, _, ⟨b.bytes, b.length_eq, b.position + b.left count, hleft⟩, hrun, ⟨rfl, rfl, rfl⟩,
      { isReadable := h.isReadable.trans hr
        isWritable := h.isWritable
        streamLength := h.streamLength
        streamData := h.streamData
        currentPosition := h.toNat_advance count }⟩

theorem write_refines (h : Refines readable writable s b) {data : List UInt8} {count : UInt64}
    (fits : count.toNat ≤ data.length) :
    ∃ output s' b', s.step (.write data count fits) = some (output, s') ∧
      b.Allows readable writable (.write data count fits) output b' ∧
      Refines readable writable s' b' := by
  cases hw : writable with
  | false =>
    refine ⟨_, s, b, ?_, ⟨rfl, by simp [slice], rfl⟩, hw ▸ h⟩
    simp [MemoryStream.step, MemoryStream.write, h.isWritable, hw]
  | true =>
    have hle := b.position_le
    have hlen := b.length_eq
    have hleft : b.position + b.left count ≤ length := by
      unfold ByteStore.left
      omega
    have hslice : (slice data 0 (b.left count)).length = b.left count := by
      refine length_slice ?_
      unfold ByteStore.left
      omega
    have hbytes : (overwrite b.bytes b.position (slice data 0 (b.left count))).length = length := by
      rw [length_overwrite (by omega), hlen]
    have hrun : s.step (.write data count fits) =
        some (.written (UInt64.ofNat (b.left count)),
          { s with
            currentPosition := s.currentPosition + UInt64.ofNat (b.left count)
            streamData := overwrite b.bytes b.position (slice data 0 (b.left count)) }) := by
      rw [MemoryStream.step, MemoryStream.write_eq h.wellFormed (h.isWritable.trans hw) fits,
        h.available, h.streamData, h.currentPosition]
      rfl
    exact ⟨_, _, ⟨_, hbytes, b.position + b.left count, hleft⟩, hrun, ⟨rfl, rfl, rfl⟩,
      { isReadable := h.isReadable
        isWritable := h.isWritable.trans hw
        streamLength := h.streamLength
        streamData := rfl
        currentPosition := h.toNat_advance count }⟩

/-- The `switch` finds a position iff the flag is known, and clamped it is a seek target. -/
theorem newPosition_spec (h : Refines readable writable s b) (offset : UInt64) (flags : Int)
    (uninitialised : UInt64) :
    match s.newPosition offset flags uninitialised with
    | none => b.seekTargets offset flags = ∅
    | some p => min p.toNat length ∈ b.seekTargets offset flags := by
  have hpos := h.currentPosition
  have hlen := h.streamLength
  have hle := b.position_le
  unfold MemoryStream.newPosition ByteStore.seekTargets
  split_ifs with habs hfwd hback hpast hend hpast'
  · exact ⟨Nat.min_le_right _ _, .inl ⟨habs, rfl⟩⟩
  · refine ⟨Nat.min_le_right _ _, .inr (.inl ⟨hfwd, ?_⟩)⟩
    rw [UInt64.toNat_add, hpos]
  · refine ⟨Nat.min_le_right _ _, .inr (.inr (.inl ⟨hback, ?_⟩))⟩
    have := UInt64.lt_iff_toNat_lt.mp hpast
    rw [UInt64.toNat_zero]
    omega
  · refine ⟨Nat.min_le_right _ _, .inr (.inr (.inl ⟨hback, ?_⟩))⟩
    rw [UInt64.not_lt, UInt64.le_iff_toNat_le] at hpast
    rw [UInt64.toNat_sub_of_le _ _ (UInt64.le_iff_toNat_le.mpr hpast)]
    omega
  · refine ⟨Nat.min_le_right _ _, .inr (.inr (.inr ⟨hend, fun _ => ?_⟩))⟩
    rw [UInt64.toNat_zero, Nat.zero_min]
  · refine ⟨Nat.min_le_right _ _, .inr (.inr (.inr ⟨hend, fun hlt => ?_⟩))⟩
    rw [gt_iff_lt, UInt64.lt_iff_toNat_lt] at hpast'
    omega
  · refine Set.eq_empty_of_forall_notMem ?_
    rintro p ⟨-, ⟨h, -⟩ | ⟨h, -⟩ | ⟨h, -⟩ | ⟨h, -⟩⟩ <;> contradiction

theorem seek_refines (h : Refines readable writable s b) (offset : UInt64) (flags : Int)
    (uninitialised : UInt64) :
    ∃ output s' b', s.step (.seek offset flags uninitialised) = some (output, s') ∧
      b.Allows readable writable (.seek offset flags uninitialised) output b' ∧
      Refines readable writable s' b' := by
  have hspec := newPosition_spec h offset flags uninitialised
  cases hnew : s.newPosition offset flags uninitialised with
  | none =>
    rw [hnew] at hspec
    refine ⟨.sought false, s, b, ?_, ⟨rfl, .inr ⟨rfl, hspec, rfl⟩⟩, h⟩
    rw [MemoryStream.step, MemoryStream.seek, hnew]
  | some p =>
    rw [hnew] at hspec
    have hclamp : (if p ≥ s.streamLength then s.streamLength else p).toNat =
        min p.toNat length := by
      have hlen := h.streamLength
      simp only [ge_iff_le, UInt64.le_iff_toNat_le]
      split_ifs <;> omega
    have hrun : s.step (.seek offset flags uninitialised) = some (.sought true,
        { s with currentPosition := if p ≥ s.streamLength then s.streamLength else p }) := by
      rw [MemoryStream.step, MemoryStream.seek, hnew]
    exact ⟨_, _, ⟨b.bytes, b.length_eq, min p.toNat length, Nat.min_le_right _ _⟩, hrun,
      ⟨rfl, .inl ⟨rfl, hspec⟩⟩,
      { isReadable := h.isReadable
        isWritable := h.isWritable
        streamLength := h.streamLength
        streamData := h.streamData
        currentPosition := hclamp }⟩

/-- **One operation on a stream is defined and does what the store allows.** -/
theorem step_refines (h : Refines readable writable s b) (operation : Operation) :
    ∃ output s' b', s.step operation = some (output, s') ∧
      b.Allows readable writable operation output b' ∧ Refines readable writable s' b' := by
  cases operation with
  | read data count fits => exact read_refines h fits
  | write data count fits => exact write_refines h fits
  | seek offset flags uninitialised => exact seek_refines h offset flags uninitialised

end Refinement

/-- A new stream is a store at its start. -/
theorem refines_create {stream : List UInt8} (h : stream.length < 2 ^ 64)
    (readable writable : Bool) : Refines readable writable
      (.create stream (UInt64.ofNat stream.length) readable writable) (.new stream) where
  isReadable := rfl
  isWritable := rfl
  streamLength := by rw [MemoryStream.create, UInt64.toNat_ofNat', Nat.mod_eq_of_lt h]
  streamData := rfl
  currentPosition := rfl

/-- **Every run from a new stream is defined and does what the store allows**: the position stays
in the block, each read returns the bytes at the position, each write replaces them, and nothing
outside the block is touched. -/
theorem exec_refines {stream : List UInt8} (h : stream.length < 2 ^ 64) (readable writable : Bool)
    (operations : List Operation) :
    ∃ outputs s' b',
      exec MemoryStream.step
          (.create stream (UInt64.ofNat stream.length) readable writable) operations =
        some (outputs, s') ∧
      Steps (ByteStore.Allows readable writable) (.new stream) operations outputs b' ∧
      Refines readable writable s' b' :=
  simulates (fun _ _ operation hR => step_refines hR operation) operations
    (refines_create h readable writable)

/-- A block of three bytes, over which a read meets the end. -/
theorem exec_refines_three_bytes : ∃ outputs s' b',
    exec MemoryStream.step (.create [1, 2, 3] 3 true true)
        [.seek 2 SeekFlags.absolute 0, .read [0, 0] 2 (by decide)] = some (outputs, s') ∧
      Steps (ByteStore.Allows true true) (.new [1, 2, 3])
        [.seek 2 SeekFlags.absolute 0, .read [0, 0] 2 (by decide)] outputs b' ∧
      Refines true true s' b' :=
  exec_refines (by decide) true true _

end Hologine.Io
