import Hologine.Io.MemoryStream
import Hologine.Math.Bits

/-!
# Binary writers and readers

Model of `binary_writer` (`core/io/binary_writer.cpp`) and `binary_reader`
(`core/io/binary_reader.cpp`) over a memory stream, which is passed and returned in place of the
pointer they hold. The byte order of the machine that runs them, a preprocessor symbol in the
source, is `host`: it decides which bytes represent an object and whether `swap` is set.

* `writeObject` and `readObject` are the calls of the stream that every method makes. A method that
  reads is passed the value its target has, since a partial read overwrites only part of it.
* `Value` is an integer of one of the eight types, for sequences of them.

Results:
* `writeValue_eq`: a writer passes the stream the bytes of the value in its endianness, whatever
  the host; what the stream has no room for is lost.
* `readValue_eq`, `readValue_short`: a reader returns the value that has the bytes at the position,
  or fails if the stream ends before.
* `portable`: what one machine writes another reads, for every sequence of values.
-/

namespace Hologine.Io

open Hologine.Library Hologine.Library.Bytes Hologine.Library.ByteOrder Hologine.Library.Run
open Hologine.Math

/-- The values of `endianness`, which are also the byte orders of hosts. -/
inductive Endianness
  | little
  | big
  deriving Repr, DecidableEq

/-- The bytes of `value` in an object of `size` bytes. -/
def Endianness.represent (e : Endianness) (size value : Nat) : List UInt8 :=
  match e with
  | .little => toBytes size value
  | .big => (toBytes size value).reverse

/-- The value of an object with the bytes given. -/
def Endianness.interpret (e : Endianness) (object : List UInt8) : Nat :=
  match e with
  | .little => ofBytes object
  | .big => ofBytes object.reverse

/-! ## The writer -/

/-- A writer, apart from its stream. -/
structure BinaryWriter where
  host : Endianness
  swap : Bool

namespace BinaryWriter

/-- The constructor. It asserts that the stream is writable. -/
def create (host : Endianness) (stream : MemoryStream) (endianness : Endianness) :
    Option BinaryWriter :=
  if stream.isWritable then some ⟨host, decide (endianness ≠ host)⟩ else none

/-- An object is passed to the stream: whether it was written completely. -/
def writeObject (w : BinaryWriter) (stream : MemoryStream) (size value : Nat) :
    Option (Bool × MemoryStream) := do
  let (n, stream) ← stream.write (w.host.represent size value) (UInt64.ofNat size)
  some (n == UInt64.ofNat size, stream)

variable (w : BinaryWriter) (stream : MemoryStream)

/-- `write_byte`. -/
def writeByte (value : Int8) : Option (Bool × MemoryStream) :=
  w.writeObject stream 1 value.toUInt8.toNat

/-- `write_ubyte`. -/
def writeUbyte (value : UInt8) : Option (Bool × MemoryStream) :=
  w.writeObject stream 1 value.toNat

/-- The methods for more than one byte, over the type of their value: it is swapped if the
endianness asks for it. -/
def writeSwapped {α : Type} (size : Nat) (toNat : α → Nat) (swapBytes : α → α) (value : α) :
    Option (Bool × MemoryStream) :=
  let value := if w.swap then swapBytes value else value
  w.writeObject stream size (toNat value)

/-- `write_short`. -/
def writeShort : Int16 → Option (Bool × MemoryStream) :=
  w.writeSwapped stream 2 (fun v => v.toUInt16.toNat) fun v => (swapBytes16 v.toUInt16).toInt16

/-- `write_ushort`. -/
def writeUshort : UInt16 → Option (Bool × MemoryStream) :=
  w.writeSwapped stream 2 UInt16.toNat swapBytes16

/-- `write_int`. -/
def writeInt : Int32 → Option (Bool × MemoryStream) :=
  w.writeSwapped stream 4 (fun v => v.toUInt32.toNat) fun v => (swapBytes32 v.toUInt32).toInt32

/-- `write_uint`. -/
def writeUint : UInt32 → Option (Bool × MemoryStream) :=
  w.writeSwapped stream 4 UInt32.toNat swapBytes32

/-- `write_long`. -/
def writeLong : Int64 → Option (Bool × MemoryStream) :=
  w.writeSwapped stream 8 (fun v => v.toUInt64.toNat) fun v => (swapBytes64 v.toUInt64).toInt64

/-- `write_ulong`. -/
def writeUlong : UInt64 → Option (Bool × MemoryStream) :=
  w.writeSwapped stream 8 UInt64.toNat swapBytes64

end BinaryWriter

/-! ## The reader -/

/-- A reader, apart from its stream. -/
structure BinaryReader where
  host : Endianness
  swap : Bool

namespace BinaryReader

/-- The constructor. It asserts that the stream is readable. -/
def create (host : Endianness) (stream : MemoryStream) (endianness : Endianness) :
    Option BinaryReader :=
  if stream.isReadable then some ⟨host, decide (endianness ≠ host)⟩ else none

/-- The stream reads into an object that holds `value`: the number of bytes read and the value the
object holds then. -/
def readObject (r : BinaryReader) (stream : MemoryStream) (size value : Nat) :
    Option (UInt64 × Nat × MemoryStream) := do
  let (n, object, stream) ← stream.read (r.host.represent size value) (UInt64.ofNat size)
  some (n, r.host.interpret object, stream)

variable (r : BinaryReader) (stream : MemoryStream)

/-- `read_byte`. -/
def readByte (value : Int8) : Option (Bool × Int8 × MemoryStream) := do
  let (n, value, stream) ← r.readObject stream 1 value.toUInt8.toNat
  some (n == 1, (UInt8.ofNat value).toInt8, stream)

/-- `read_ubyte`. -/
def readUbyte (value : UInt8) : Option (Bool × UInt8 × MemoryStream) := do
  let (n, value, stream) ← r.readObject stream 1 value.toNat
  some (n == 1, UInt8.ofNat value, stream)

/-- The methods for more than one byte, over the type of their target: what they read is swapped
if the endianness asks for it, unless it is incomplete. -/
def readSwapped {α : Type} (size : Nat) (toNat : α → Nat) (ofNat : Nat → α) (swapBytes : α → α)
    (value : α) : Option (Bool × α × MemoryStream) := do
  let (n, value, stream) ← r.readObject stream size (toNat value)
  if n < UInt64.ofNat size then some (false, ofNat value, stream)
  else some (true, if r.swap then swapBytes (ofNat value) else ofNat value, stream)

/-- `read_short`. -/
def readShort : Int16 → Option (Bool × Int16 × MemoryStream) :=
  r.readSwapped stream 2 (fun v => v.toUInt16.toNat) (fun n => (UInt16.ofNat n).toInt16)
    (fun v => (swapBytes16 v.toUInt16).toInt16)

/-- `read_ushort`. -/
def readUshort : UInt16 → Option (Bool × UInt16 × MemoryStream) :=
  r.readSwapped stream 2 UInt16.toNat UInt16.ofNat swapBytes16

/-- `read_int`. -/
def readInt : Int32 → Option (Bool × Int32 × MemoryStream) :=
  r.readSwapped stream 4 (fun v => v.toUInt32.toNat) (fun n => (UInt32.ofNat n).toInt32)
    (fun v => (swapBytes32 v.toUInt32).toInt32)

/-- `read_uint`. -/
def readUint : UInt32 → Option (Bool × UInt32 × MemoryStream) :=
  r.readSwapped stream 4 UInt32.toNat UInt32.ofNat swapBytes32

/-- `read_long`. -/
def readLong : Int64 → Option (Bool × Int64 × MemoryStream) :=
  r.readSwapped stream 8 (fun v => v.toUInt64.toNat) (fun n => (UInt64.ofNat n).toInt64)
    (fun v => (swapBytes64 v.toUInt64).toInt64)

/-- `read_ulong`. -/
def readUlong : UInt64 → Option (Bool × UInt64 × MemoryStream) :=
  r.readSwapped stream 8 UInt64.toNat UInt64.ofNat swapBytes64

end BinaryReader

/-! ## Values -/

/-- An integer of one of the types that writers and readers know. -/
inductive Value
  | byte (value : Int8)
  | ubyte (value : UInt8)
  | short (value : Int16)
  | ushort (value : UInt16)
  | int (value : Int32)
  | uint (value : UInt32)
  | long (value : Int64)
  | ulong (value : UInt64)
  deriving DecidableEq

namespace Value

/-- The size of the type in bytes. -/
def size : Value → Nat
  | .byte _ | .ubyte _ => 1
  | .short _ | .ushort _ => 2
  | .int _ | .uint _ => 4
  | .long _ | .ulong _ => 8

theorem size_pos (v : Value) : 0 < v.size := by cases v <;> exact Nat.succ_pos _

/-- The value, read as unsigned. -/
def bits : Value → Nat
  | .byte v => v.toUInt8.toNat
  | .ubyte v => v.toNat
  | .short v => v.toUInt16.toNat
  | .ushort v => v.toNat
  | .int v => v.toUInt32.toNat
  | .uint v => v.toNat
  | .long v => v.toUInt64.toNat
  | .ulong v => v.toNat

/-- The bytes of the value, in the order given. -/
def bytes (e : Endianness) (v : Value) : List UInt8 := e.represent v.size v.bits

/-- The values are of one type. -/
def SameType : Value → Value → Prop
  | .byte _, .byte _ | .ubyte _, .ubyte _ | .short _, .short _ | .ushort _, .ushort _
  | .int _, .int _ | .uint _, .uint _ | .long _, .long _ | .ulong _, .ulong _ => True
  | _, _ => False

theorem SameType.size_eq {v w : Value} (h : v.SameType w) : v.size = w.size := by
  cases v <;> cases w <;> first | rfl | exact h.elim

end Value

/-- The method of the writer for the value's type. -/
def BinaryWriter.writeValue (w : BinaryWriter) (stream : MemoryStream) :
    Value → Option (Bool × MemoryStream)
  | .byte v => w.writeByte stream v
  | .ubyte v => w.writeUbyte stream v
  | .short v => w.writeShort stream v
  | .ushort v => w.writeUshort stream v
  | .int v => w.writeInt stream v
  | .uint v => w.writeUint stream v
  | .long v => w.writeLong stream v
  | .ulong v => w.writeUlong stream v

/-- The method of the reader for the target's type. -/
def BinaryReader.readValue (r : BinaryReader) (stream : MemoryStream) :
    Value → Option ((Bool × Value) × MemoryStream)
  | .byte v => (r.readByte stream v).map fun (ok, v, s) => ((ok, .byte v), s)
  | .ubyte v => (r.readUbyte stream v).map fun (ok, v, s) => ((ok, .ubyte v), s)
  | .short v => (r.readShort stream v).map fun (ok, v, s) => ((ok, .short v), s)
  | .ushort v => (r.readUshort stream v).map fun (ok, v, s) => ((ok, .ushort v), s)
  | .int v => (r.readInt stream v).map fun (ok, v, s) => ((ok, .int v), s)
  | .uint v => (r.readUint stream v).map fun (ok, v, s) => ((ok, .uint v), s)
  | .long v => (r.readLong stream v).map fun (ok, v, s) => ((ok, .long v), s)
  | .ulong v => (r.readUlong stream v).map fun (ok, v, s) => ((ok, .ulong v), s)

/-! ## Objects -/

namespace Endianness

variable (e host : Endianness) {size v w : Nat}

@[simp] theorem length_represent (size v : Nat) : (e.represent size v).length = size := by
  cases e <;> simp [represent]

theorem interpret_represent (h : v < 256 ^ size) : e.interpret (e.represent size v) = v := by
  cases e <;> simp [represent, interpret, ofBytes_toBytes h]

/-- One byte is represented alike everywhere. -/
theorem represent_one (v : Nat) : host.represent 1 v = e.represent 1 v := by
  cases e <;> cases host <;> rfl

/-- Swapped bytes on one host are the bytes on the other. -/
theorem represent_swapped (h : toBytes size w = (toBytes size v).reverse) :
    host.represent size (if e ≠ host then w else v) = e.represent size v := by
  cases e <;> cases host <;> simp [represent, h]

end Endianness

/-- What the methods for more than one byte rely on, of the type of their value: it has `size`
bytes and `swapBytes` reverses them. -/
structure Swappable {α : Type} (size : Nat) (toNat : α → Nat) (ofNat : Nat → α)
    (swapBytes : α → α) : Prop where
  toNat_lt (v : α) : toNat v < 256 ^ size
  ofNat_toNat (v : α) : ofNat (toNat v) = v
  toBytes_swapBytes (v : α) : toBytes size (toNat (swapBytes v)) = (toBytes size (toNat v)).reverse

theorem swappable_short : Swappable 2 (fun v : Int16 => v.toUInt16.toNat)
    (fun n => (UInt16.ofNat n).toInt16) (fun v => (swapBytes16 v.toUInt16).toInt16) where
  toNat_lt v := v.toUInt16.toNat_lt
  ofNat_toNat _ := congrArg UInt16.toInt16 UInt16.ofNat_toNat
  toBytes_swapBytes v := toBytes_swapBytes16 v.toUInt16

theorem swappable_ushort : Swappable 2 UInt16.toNat UInt16.ofNat swapBytes16 where
  toNat_lt v := v.toNat_lt
  ofNat_toNat _ := UInt16.ofNat_toNat
  toBytes_swapBytes := toBytes_swapBytes16

theorem swappable_int : Swappable 4 (fun v : Int32 => v.toUInt32.toNat)
    (fun n => (UInt32.ofNat n).toInt32) (fun v => (swapBytes32 v.toUInt32).toInt32) where
  toNat_lt v := v.toUInt32.toNat_lt
  ofNat_toNat _ := congrArg UInt32.toInt32 UInt32.ofNat_toNat
  toBytes_swapBytes v := toBytes_swapBytes32 v.toUInt32

theorem swappable_uint : Swappable 4 UInt32.toNat UInt32.ofNat swapBytes32 where
  toNat_lt v := v.toNat_lt
  ofNat_toNat _ := UInt32.ofNat_toNat
  toBytes_swapBytes := toBytes_swapBytes32

theorem swappable_long : Swappable 8 (fun v : Int64 => v.toUInt64.toNat)
    (fun n => (UInt64.ofNat n).toInt64) (fun v => (swapBytes64 v.toUInt64).toInt64) where
  toNat_lt v := v.toUInt64.toNat_lt
  ofNat_toNat _ := congrArg UInt64.toInt64 UInt64.ofNat_toNat
  toBytes_swapBytes v := toBytes_swapBytes64 v.toUInt64

theorem swappable_ulong : Swappable 8 UInt64.toNat UInt64.ofNat swapBytes64 where
  toNat_lt v := v.toNat_lt
  ofNat_toNat _ := UInt64.ofNat_toNat
  toBytes_swapBytes := toBytes_swapBytes64

namespace Swappable

variable {α : Type} {size : Nat} {toNat : α → Nat} {ofNat : Nat → α} {swapBytes : α → α}

theorem swapBytes_swapBytes (h : Swappable size toNat ofNat swapBytes) (v : α) :
    swapBytes (swapBytes v) = v := by
  have hnat : toNat (swapBytes (swapBytes v)) = toNat v := by
    refine toBytes_inj (h.toNat_lt _) (h.toNat_lt _) ?_
    rw [h.toBytes_swapBytes, h.toBytes_swapBytes, List.reverse_reverse]
  rw [← h.ofNat_toNat (swapBytes (swapBytes v)), hnat, h.ofNat_toNat]

/-- What a host makes of an object in the order of an endianness, swapped if they differ. -/
theorem interpret_swapped (h : Swappable size toNat ofNat swapBytes) (e host : Endianness) (v : α) :
    (if e ≠ host then swapBytes (ofNat (host.interpret (e.represent size (toNat v))))
      else ofNat (host.interpret (e.represent size (toNat v)))) = v := by
  by_cases he : e = host
  · rw [if_neg (not_not_intro he), he, host.interpret_represent (h.toNat_lt v), h.ofNat_toNat]
  · have hsame : e.represent size (toNat v) = host.represent size (toNat (swapBytes v)) := by
      rw [← Endianness.represent_swapped e host (h.toBytes_swapBytes v), if_pos he]
    rw [if_pos he, hsame, host.interpret_represent (h.toNat_lt _), h.ofNat_toNat,
      h.swapBytes_swapBytes]

end Swappable

/-! ## One value -/

section One

variable {stream : MemoryStream} {host endianness : Endianness}

theorem BinaryWriter.create_eq_some {w : BinaryWriter} :
    BinaryWriter.create host stream endianness = some w ↔
      stream.isWritable = true ∧ w = ⟨host, decide (endianness ≠ host)⟩ := by
  unfold BinaryWriter.create
  split_ifs with hw <;> simp [hw, eq_comm]

theorem BinaryReader.create_eq_some {r : BinaryReader} :
    BinaryReader.create host stream endianness = some r ↔
      stream.isReadable = true ∧ r = ⟨host, decide (endianness ≠ host)⟩ := by
  unfold BinaryReader.create
  split_ifs with hr <;> simp [hr, eq_comm]

/-- Of an object of `size` bytes, whether the count of what a stream could take says so. -/
theorem ofNat_min_beq {size : Nat} (hsize : size < 2 ^ 64) (room : Nat) :
    (UInt64.ofNat (min size room) == UInt64.ofNat size) = decide (size ≤ room) := by
  have hmin : min size room < 2 ^ 64 := by omega
  rw [beq_eq_decide, decide_eq_decide, ← UInt64.toNat_inj, UInt64.toNat_ofNat',
    UInt64.toNat_ofNat', Nat.mod_eq_of_lt hmin, Nat.mod_eq_of_lt hsize, min_eq_left_iff]

theorem ofNat_min_lt {size : Nat} (hsize : size < 2 ^ 64) (room : Nat) :
    UInt64.ofNat (min size room) < UInt64.ofNat size ↔ room < size := by
  have hmin : min size room < 2 ^ 64 := by omega
  rw [UInt64.lt_iff_toNat_lt, UInt64.toNat_ofNat', UInt64.toNat_ofNat', Nat.mod_eq_of_lt hmin,
    Nat.mod_eq_of_lt hsize]
  omega

theorem writeObject_eq (w : BinaryWriter) (hs : stream.WellFormed)
    (hw : stream.isWritable = true) {size : Nat} (hsize : size < 2 ^ 64) (value : Nat) :
    w.writeObject stream size value = some (decide (size ≤ stream.left),
      stream.written ((w.host.represent size value).take stream.left)) := by
  have hlen := w.host.length_represent size value
  have hwrite := MemoryStream.write_block hs hw (hlen.symm ▸ hsize)
  rw [hlen] at hwrite
  rw [BinaryWriter.writeObject, hwrite, Option.bind_eq_bind, Option.bind_some]
  simp only [ofNat_min_beq hsize]

theorem writeByteObject_eq (hs : stream.WellFormed) (hw : stream.isWritable = true) (v : Nat) :
    BinaryWriter.writeObject ⟨host, decide (endianness ≠ host)⟩ stream 1 v =
      some (decide (1 ≤ stream.left),
        stream.written ((endianness.represent 1 v).take stream.left)) := by
  rw [writeObject_eq _ hs hw (by decide), endianness.represent_one]

theorem writeSwapped_eq {α : Type} {size : Nat} {toNat : α → Nat} {ofNat : Nat → α}
    {swapBytes : α → α} (h : Swappable size toNat ofNat swapBytes) (hs : stream.WellFormed)
    (hw : stream.isWritable = true) (hsize : size < 2 ^ 64) (v : α) :
    BinaryWriter.writeSwapped ⟨host, decide (endianness ≠ host)⟩ stream size toNat swapBytes v =
      some (decide (size ≤ stream.left),
        stream.written ((endianness.represent size (toNat v)).take stream.left)) := by
  have hbytes := Endianness.represent_swapped endianness host (h.toBytes_swapBytes v)
  rw [BinaryWriter.writeSwapped, writeObject_eq _ hs hw hsize]
  simp only [decide_eq_true_eq, apply_ite toNat, hbytes]

/-- **A writer writes the bytes of the value in its endianness**, whatever the host, as far as the
stream goes, and returns whether that was all of them. -/
theorem writeValue_eq (hs : stream.WellFormed) (hw : stream.isWritable = true) (v : Value) :
    BinaryWriter.writeValue ⟨host, decide (endianness ≠ host)⟩ stream v =
      some (decide (v.size ≤ stream.left),
        stream.written ((v.bytes endianness).take stream.left)) := by
  cases v with
  | byte v => exact writeByteObject_eq hs hw v.toUInt8.toNat
  | ubyte v => exact writeByteObject_eq hs hw v.toNat
  | short v => exact writeSwapped_eq swappable_short hs hw (by decide) v
  | ushort v => exact writeSwapped_eq swappable_ushort hs hw (by decide) v
  | int v => exact writeSwapped_eq swappable_int hs hw (by decide) v
  | uint v => exact writeSwapped_eq swappable_uint hs hw (by decide) v
  | long v => exact writeSwapped_eq swappable_long hs hw (by decide) v
  | ulong v => exact writeSwapped_eq swappable_ulong hs hw (by decide) v

theorem readObject_eq (r : BinaryReader) (hs : stream.WellFormed)
    (hr : stream.isReadable = true) {size : Nat} (hsize : size < 2 ^ 64) (value : Nat) :
    r.readObject stream size value = some (UInt64.ofNat (min size stream.left),
      r.host.interpret (overwrite (r.host.represent size value) 0
        (slice stream.streamData stream.currentPosition.toNat (min size stream.left))),
      stream.advanced (min size stream.left)) := by
  have hlen := r.host.length_represent size value
  have hread := MemoryStream.read_block hs hr (hlen.symm ▸ hsize)
  rw [hlen] at hread
  rw [BinaryReader.readObject, hread, Option.bind_eq_bind, Option.bind_some]

theorem readObject_whole (r : BinaryReader) (hs : stream.WellFormed)
    (hr : stream.isReadable = true) {size : Nat} (hsize : size < 2 ^ 64)
    (room : size ≤ stream.left) (value : Nat) :
    r.readObject stream size value = some (UInt64.ofNat size,
      r.host.interpret (slice stream.streamData stream.currentPosition.toNat size),
      stream.advanced size) := by
  have hslice : (slice stream.streamData stream.currentPosition.toNat size).length = size := by
    have hadd := hs.left_add
    have hdata := hs.length_eq
    exact length_slice (by omega)
  rw [readObject_eq r hs hr hsize, Nat.min_eq_left room,
    overwrite_whole (hslice.trans (r.host.length_represent size value).symm)]

/-- A read that the stream cannot complete. -/
theorem readObject_short (r : BinaryReader) (hs : stream.WellFormed)
    (hr : stream.isReadable = true) {size : Nat} (hsize : size < 2 ^ 64)
    (short : stream.left < size) (value : Nat) :
    ∃ n object, r.readObject stream size value =
        some (n, object, stream.advanced stream.left) ∧ n < UInt64.ofNat size := by
  have hrun := readObject_eq r hs hr hsize value
  have hn := (ofNat_min_lt hsize stream.left).mpr short
  rw [Nat.min_eq_right short.le] at hrun hn
  exact ⟨_, _, hrun, hn⟩

theorem readByteObject_eq (host : Endianness) (hs : stream.WellFormed)
    (hr : stream.isReadable = true) (room : 1 ≤ stream.left) {v : Nat}
    (hv : slice stream.streamData stream.currentPosition.toNat 1 = endianness.represent 1 v)
    (hlt : v < 256 ^ 1) (target : Nat) :
    BinaryReader.readObject ⟨host, decide (endianness ≠ host)⟩ stream 1 target =
      some (1, v, stream.advanced 1) := by
  rw [readObject_whole _ hs hr (by decide) room, hv, ← endianness.represent_one host,
    host.interpret_represent hlt]
  rfl

theorem readSwapped_eq {α : Type} {size : Nat} {toNat : α → Nat} {ofNat : Nat → α}
    {swapBytes : α → α} (h : Swappable size toNat ofNat swapBytes) (hs : stream.WellFormed)
    (hr : stream.isReadable = true) (hsize : size < 2 ^ 64) (room : size ≤ stream.left) {v : α}
    (hv : slice stream.streamData stream.currentPosition.toNat size =
      endianness.represent size (toNat v)) (target : α) :
    BinaryReader.readSwapped ⟨host, decide (endianness ≠ host)⟩ stream size toNat ofNat swapBytes
      target = some (true, v, stream.advanced size) := by
  have hvalue := h.interpret_swapped endianness host v
  rw [BinaryReader.readSwapped, readObject_whole _ hs hr hsize room, Option.bind_eq_bind,
    Option.bind_some, hv]
  simp only [UInt64.lt_irrefl, if_false, decide_eq_true_eq, hvalue]

theorem readSwapped_short {α : Type} (r : BinaryReader) {size : Nat} (toNat : α → Nat)
    (ofNat : Nat → α) (swapBytes : α → α) (hs : stream.WellFormed)
    (hr : stream.isReadable = true) (hsize : size < 2 ^ 64) (short : stream.left < size)
    (target : α) :
    ∃ object, r.readSwapped stream size toNat ofNat swapBytes target =
      some (false, object, stream.advanced stream.left) := by
  obtain ⟨n, object, hrun, hn⟩ := readObject_short r hs hr hsize short (toNat target)
  refine ⟨ofNat object, ?_⟩
  rw [BinaryReader.readSwapped, hrun, Option.bind_eq_bind, Option.bind_some]
  simp only [hn, if_true]

/-- **A reader returns the value that has the bytes at the position**, whatever the host and
whatever its target held. -/
theorem readValue_eq (hs : stream.WellFormed) (hr : stream.isReadable = true) {v target : Value}
    (room : v.size ≤ stream.left)
    (hv : slice stream.streamData stream.currentPosition.toNat v.size = v.bytes endianness)
    (htype : v.SameType target) :
    BinaryReader.readValue ⟨host, decide (endianness ≠ host)⟩ stream target =
      some ((true, v), stream.advanced v.size) := by
  match v, target, htype with
  | .byte v, .byte t, _ =>
    have hobject := readByteObject_eq host hs hr room hv v.toUInt8.toNat_lt t.toUInt8.toNat
    rw [BinaryReader.readValue, BinaryReader.readByte, hobject, Option.bind_eq_bind,
      Option.bind_some, Option.map_some, Value.bits, UInt8.ofNat_toNat]
    rfl
  | .ubyte v, .ubyte t, _ =>
    have hobject := readByteObject_eq host hs hr room hv v.toNat_lt t.toNat
    rw [BinaryReader.readValue, BinaryReader.readUbyte, hobject, Option.bind_eq_bind,
      Option.bind_some, Option.map_some, Value.bits, UInt8.ofNat_toNat]
    rfl
  | .short v, .short t, _ =>
    exact congrArg (Option.map _) (readSwapped_eq swappable_short hs hr (by decide) room hv t)
  | .ushort v, .ushort t, _ =>
    exact congrArg (Option.map _) (readSwapped_eq swappable_ushort hs hr (by decide) room hv t)
  | .int v, .int t, _ =>
    exact congrArg (Option.map _) (readSwapped_eq swappable_int hs hr (by decide) room hv t)
  | .uint v, .uint t, _ =>
    exact congrArg (Option.map _) (readSwapped_eq swappable_uint hs hr (by decide) room hv t)
  | .long v, .long t, _ =>
    exact congrArg (Option.map _) (readSwapped_eq swappable_long hs hr (by decide) room hv t)
  | .ulong v, .ulong t, _ =>
    exact congrArg (Option.map _) (readSwapped_eq swappable_ulong hs hr (by decide) room hv t)

/-- **A reader that the stream cannot fill a value for fails** and leaves nothing of the stream. -/
theorem readValue_short (r : BinaryReader) (hs : stream.WellFormed) (hr : stream.isReadable = true)
    {target : Value} (short : stream.left < target.size) :
    ∃ object, r.readValue stream target =
      some ((false, object), stream.advanced stream.left) := by
  have hswapped {α : Type} (size : Nat) (toNat : α → Nat) (ofNat : Nat → α) (swapBytes : α → α)
      (hsize : size < 2 ^ 64) (short : stream.left < size) (t : α) :=
    readSwapped_short r toNat ofNat swapBytes hs hr hsize short t
  have hbyte (short : stream.left < 1) (t : Nat) :=
    readObject_short r hs hr (by decide) short t
  cases target with
  | byte t =>
    obtain ⟨n, object, hrun, hn⟩ := hbyte short t.toUInt8.toNat
    have hne : (n == 1) = false := beq_eq_false_iff_ne.mpr (UInt64.ne_of_lt hn)
    refine ⟨.byte (UInt8.ofNat object).toInt8, ?_⟩
    rw [BinaryReader.readValue, BinaryReader.readByte, hrun, Option.bind_eq_bind,
      Option.bind_some, Option.map_some, hne]
  | ubyte t =>
    obtain ⟨n, object, hrun, hn⟩ := hbyte short t.toNat
    have hne : (n == 1) = false := beq_eq_false_iff_ne.mpr (UInt64.ne_of_lt hn)
    refine ⟨.ubyte (UInt8.ofNat object), ?_⟩
    rw [BinaryReader.readValue, BinaryReader.readUbyte, hrun, Option.bind_eq_bind,
      Option.bind_some, Option.map_some, hne]
  | short t =>
    obtain ⟨object, hrun⟩ := hswapped 2 _ _ _ (by decide) short t
    exact ⟨.short object, congrArg (Option.map _) hrun⟩
  | ushort t =>
    obtain ⟨object, hrun⟩ := hswapped 2 _ _ _ (by decide) short t
    exact ⟨.ushort object, congrArg (Option.map _) hrun⟩
  | int t =>
    obtain ⟨object, hrun⟩ := hswapped 4 _ _ _ (by decide) short t
    exact ⟨.int object, congrArg (Option.map _) hrun⟩
  | uint t =>
    obtain ⟨object, hrun⟩ := hswapped 4 _ _ _ (by decide) short t
    exact ⟨.uint object, congrArg (Option.map _) hrun⟩
  | long t =>
    obtain ⟨object, hrun⟩ := hswapped 8 _ _ _ (by decide) short t
    exact ⟨.long object, congrArg (Option.map _) hrun⟩
  | ulong t =>
    obtain ⟨object, hrun⟩ := hswapped 8 _ _ _ (by decide) short t
    exact ⟨.ulong object, congrArg (Option.map _) hrun⟩

end One

/-! ## Sequences -/

/-- The bytes of a sequence of values. -/
def encode (e : Endianness) (values : List Value) : List UInt8 := values.flatMap (Value.bytes e)

/-- The size of a sequence of values. -/
def encodedSize (values : List Value) : Nat := (values.map Value.size).sum

theorem length_encode (e : Endianness) (values : List Value) :
    (encode e values).length = encodedSize values := by
  rw [encode, List.length_flatMap, encodedSize]
  congr 2
  funext v
  exact e.length_represent _ _

/-- Of each value of a sequence, whether it ends within the first `room` bytes. -/
def endsWithin (room : Nat) (values : List Value) : List Bool :=
  (List.range values.length).map fun i => decide (encodedSize (values.take (i + 1)) ≤ room)

theorem encodedSize_cons (v : Value) (values : List Value) :
    encodedSize (v :: values) = v.size + encodedSize values := by simp [encodedSize]

theorem encodedSize_take_pos {values : List Value} {i : Nat} (h : i < values.length) :
    0 < encodedSize (values.take (i + 1)) := by
  cases values with
  | nil => exact absurd h (Nat.not_lt_zero i)
  | cons v values =>
    have hpos := v.size_pos
    rw [List.take_succ_cons, encodedSize_cons]
    omega

theorem encodedSize_take_le (values : List Value) (n : Nat) :
    encodedSize (values.take n) ≤ encodedSize values := by
  have hsplit : encodedSize values =
      encodedSize (values.take n) + encodedSize (values.drop n) := by
    rw [encodedSize, encodedSize, encodedSize, ← List.sum_append, ← List.map_append,
      List.take_append_drop]
  omega

theorem endsWithin_cons (room : Nat) (v : Value) (values : List Value) :
    endsWithin room (v :: values) =
      decide (v.size ≤ room) :: endsWithin (room - v.size) values := by
  have hfirst : encodedSize ((v :: values).take 1) = v.size := by simp [encodedSize]
  rw [endsWithin, List.length_cons, List.range_succ_eq_map, List.map_cons, List.map_map, hfirst]
  refine congrArg _ (List.map_congr_left fun i hi => ?_)
  have hpos := encodedSize_take_pos (List.mem_range.mp hi)
  rw [Function.comp_apply, List.take_succ_cons, encodedSize_cons, decide_eq_decide]
  omega

theorem endsWithin_of_le {room : Nat} {values : List Value} (h : encodedSize values ≤ room) :
    endsWithin room values = values.map fun _ => true := by
  induction values generalizing room with
  | nil => rfl
  | cons v values ih =>
    rw [encodedSize_cons] at h
    rw [endsWithin_cons, ih (by omega), decide_eq_true (by omega), List.map_cons]

section Sequences

variable {stream : MemoryStream} {host endianness : Endianness}

theorem written_written (hs : stream.WellFormed) {part part' : List UInt8}
    (room : stream.currentPosition.toNat + part.length ≤ stream.streamLength.toNat) :
    (stream.written part).written part' = stream.written (part ++ part') := by
  have hlen := hs.length_eq
  have hpos : (stream.written part).currentPosition.toNat =
    stream.currentPosition.toNat + part.length := MemoryStream.toNat_advanced room
  have hdata : (stream.written part).streamData =
    overwrite stream.streamData stream.currentPosition.toNat part := rfl
  rw [MemoryStream.written, hpos, hdata, overwrite_overwrite _ _ (by omega)]
  simp only [MemoryStream.written, MemoryStream.advanced, List.length_append, UInt64.ofNat_add,
    UInt64.add_assoc]

theorem advanced_advanced (m n : Nat) :
    (stream.advanced m).advanced n = stream.advanced (m + n) := by
  simp only [MemoryStream.advanced, UInt64.ofNat_add, UInt64.add_assoc]

/-- **A sequence of values is written as their bytes in the endianness**, one after another, as far
as the stream goes. -/
theorem exec_writeValue (host endianness : Endianness) :
    ∀ (values : List Value) {stream : MemoryStream}, stream.WellFormed →
    stream.isWritable = true →
    exec (BinaryWriter.writeValue ⟨host, decide (endianness ≠ host)⟩) stream values =
      some (endsWithin stream.left values,
        stream.written ((encode endianness values).take stream.left))
  | [], stream, _, _ => by
    simp [exec, encode, endsWithin, MemoryStream.written, MemoryStream.advanced]
  | v :: values, stream, hs, hw => by
    have hadd := hs.left_add
    have hlen : (v.bytes endianness).length = v.size := endianness.length_represent _ _
    have hpart : ((v.bytes endianness).take stream.left).length = min stream.left v.size := by
      rw [List.length_take, hlen]
    have hroom : stream.currentPosition.toNat +
        ((v.bytes endianness).take stream.left).length ≤ stream.streamLength.toNat := by omega
    have hleft : (stream.written ((v.bytes endianness).take stream.left)).left =
        stream.left - v.size := by
      refine (MemoryStream.left_advanced hs (by omega)).trans ?_
      omega
    rw [exec_cons (writeValue_eq hs hw v),
      exec_writeValue host endianness values (hs.written hroom) hw, Option.map_some, hleft,
      written_written hs hroom, endsWithin_cons, encode, encode, List.flatMap_cons,
      List.take_append, hlen]

/-- **A sequence of values is read where its bytes are**, as far as the stream goes: the calls for
the values that fit return them. -/
theorem exec_readValue (host : Endianness) {values targets : List Value} {stream : MemoryStream}
    (hs : stream.WellFormed) (hr : stream.isReadable = true)
    (htypes : List.Forall₂ Value.SameType values targets)
    (hbytes : slice stream.streamData stream.currentPosition.toNat
        (min stream.left (encodedSize values)) = (encode endianness values).take stream.left) :
    ∃ outputs, exec (BinaryReader.readValue ⟨host, decide (endianness ≠ host)⟩) stream targets =
        some (outputs, stream.advanced (min stream.left (encodedSize values))) ∧
      outputs.map Prod.fst = endsWithin stream.left values ∧
      ∀ i v, values[i]? = some v → encodedSize (values.take (i + 1)) ≤ stream.left →
        outputs[i]? = some (true, v) := by
  induction htypes generalizing stream with
  | nil =>
    refine ⟨[], ?_, rfl, fun i v hv => absurd hv (by simp)⟩
    simp [exec, encodedSize, MemoryStream.advanced]
  | @cons v t values targets htype htypes ih =>
    have hadd := hs.left_add
    have hlen : (v.bytes endianness).length = v.size := endianness.length_represent _ _
    rw [encodedSize_cons, encode, List.flatMap_cons] at hbytes
    by_cases hfits : v.size ≤ stream.left
    · have hsize : min stream.left (v.size + encodedSize values) =
          v.size + min (stream.left - v.size) (encodedSize values) := by omega
      rw [hsize, slice_append, List.take_append, hlen, List.take_of_length_le (by omega)] at hbytes
      have hslice : (slice stream.streamData stream.currentPosition.toNat v.size).length =
          (v.bytes endianness).length := by
        have hdata := hs.length_eq
        rw [length_slice (by omega), hlen]
      obtain ⟨hfirst, hrest⟩ := List.append_inj hbytes hslice
      have hroom : stream.currentPosition.toNat + v.size ≤ stream.streamLength.toNat := by omega
      have hleft := MemoryStream.left_advanced hs hfits
      have hpos := MemoryStream.toNat_advanced hroom
      obtain ⟨outputs, hrun, hfst, hvalues⟩ := ih (hs.advanced hroom) hr
        (by rw [hleft, hpos]; exact hrest)
      rw [hleft] at hrun hfst hvalues
      refine ⟨(true, v) :: outputs, ?_, ?_, ?_⟩
      · rw [exec_cons (readValue_eq hs hr hfits hfirst htype), hrun, Option.map_some,
          advanced_advanced, encodedSize_cons, hsize]
      · rw [List.map_cons, hfst, endsWithin_cons, decide_eq_true hfits]
      · intro i u hu hends
        cases i with
        | zero => simpa using hu
        | succ i =>
          rw [List.take_succ_cons, encodedSize_cons] at hends
          exact hvalues i u (by simpa using hu) (by omega)
    · have hshort : stream.left < v.size := by omega
      obtain ⟨object, hread⟩ := readValue_short ⟨host, decide (endianness ≠ host)⟩ hs hr
        (htype.size_eq ▸ hshort)
      have hleft : (stream.advanced stream.left).left = 0 := by
        rw [MemoryStream.left_advanced hs le_rfl, Nat.sub_self]
      obtain ⟨outputs, hrun, hfst, -⟩ := ih (hs.advanced hadd.le) hr
        (by rw [hleft, Nat.zero_min, List.take_zero]; simp [slice])
      rw [hleft] at hrun hfst
      refine ⟨(false, object) :: outputs, ?_, ?_, ?_⟩
      · have hsize : stream.left + min 0 (encodedSize values) =
            min stream.left (v.size + encodedSize values) := by omega
        rw [exec_cons hread, hrun, Option.map_some, advanced_advanced, encodedSize_cons, hsize]
      · rw [List.map_cons, hfst, endsWithin_cons, decide_eq_false hfits,
          Nat.sub_eq_zero_of_le hshort.le]
      · intro i u hu hends
        rw [List.take_succ_cons, encodedSize_cons] at hends
        omega

/-- The same, of a stream that holds them all. -/
theorem exec_readValue_whole {values targets : List Value} {stream : MemoryStream}
    (hs : stream.WellFormed) (hr : stream.isReadable = true)
    (htypes : List.Forall₂ Value.SameType values targets)
    (room : encodedSize values ≤ stream.left)
    (hbytes : slice stream.streamData stream.currentPosition.toNat (encodedSize values) =
      encode endianness values) :
    exec (BinaryReader.readValue ⟨host, decide (endianness ≠ host)⟩) stream targets =
      some (values.map fun v => (true, v), stream.advanced (encodedSize values)) := by
  have hlen := length_encode endianness values
  have hmin : min stream.left (encodedSize values) = encodedSize values := by omega
  have hwhole : (encode endianness values).take stream.left = encode endianness values :=
    List.take_of_length_le (by omega)
  have hpart := hbytes.trans hwhole.symm
  rw [← hmin] at hpart
  obtain ⟨outputs, hrun, hfst, hvalues⟩ := exec_readValue host hs hr htypes hpart
  have houtputs : outputs = values.map fun v => (true, v) := by
    refine List.ext_getElem? fun i => ?_
    rw [List.getElem?_map]
    cases hv : values[i]? with
    | none =>
      have hlength := congrArg List.length hfst
      rw [List.length_map, endsWithin_of_le room, List.length_map] at hlength
      rw [List.getElem?_eq_none_iff] at hv
      rw [List.getElem?_eq_none (by omega), Option.map_none]
    | some v =>
      have hprefix := encodedSize_take_le values (i + 1)
      rw [hvalues i v hv (by omega), Option.map_some]
  rw [hrun, houtputs, hmin]

end Sequences

/-- **What one machine writes another reads.** A writer on a host of any byte order writes a
sequence of values that the stream has room for as their bytes in the endianness, whatever the
host; a reader of the same endianness, on a host of any byte order, over a stream of the same bytes
at the same position gives them back and ends where the writer ended. -/
theorem portable (endianness writingHost readingHost : Endianness) (values : List Value)
    {stream : MemoryStream} (hs : stream.WellFormed) {w : BinaryWriter}
    (hw : BinaryWriter.create writingHost stream endianness = some w)
    (room : stream.currentPosition.toNat + encodedSize values ≤ stream.streamLength.toNat) :
    ∃ stream', exec w.writeValue stream values = some (values.map fun _ => true, stream') ∧
      stream'.streamData = overwrite stream.streamData stream.currentPosition.toNat
        (encode endianness values) ∧
      stream'.currentPosition.toNat = stream.currentPosition.toNat + encodedSize values ∧
      ∀ (input : MemoryStream) (r : BinaryReader) (targets : List Value), input.WellFormed →
        BinaryReader.create readingHost input endianness = some r →
        input.streamData = stream'.streamData → input.currentPosition = stream.currentPosition →
        List.Forall₂ Value.SameType values targets →
        ∃ input', exec r.readValue input targets =
            some (values.map fun v => (true, v), input') ∧
          input'.currentPosition = stream'.currentPosition := by
  obtain ⟨hwritable, rfl⟩ := BinaryWriter.create_eq_some.mp hw
  have hlen := length_encode endianness values
  have hlength := hs.length_eq
  have hadd := hs.left_add
  have hwhole : (encode endianness values).take stream.left = encode endianness values :=
    List.take_of_length_le (by omega)
  have hrun := exec_writeValue writingHost endianness values hs hwritable
  rw [hwhole, endsWithin_of_le (by omega)] at hrun
  refine ⟨_, hrun, rfl, ?_, ?_⟩
  · exact (MemoryStream.toNat_advanced (by omega)).trans (by rw [hlen])
  · intro input r targets hi hr hdata hpos htypes
    obtain ⟨hreadable, rfl⟩ := BinaryReader.create_eq_some.mp hr
    have hinput : input.streamLength.toNat = stream.streamLength.toNat := by
      rw [← hi.length_eq, hdata, MemoryStream.written, length_overwrite (by omega), hlength]
    have hroom : encodedSize values ≤ input.left := by
      rw [MemoryStream.left, hpos]
      omega
    refine ⟨_, exec_readValue_whole hi hreadable htypes hroom ?_, ?_⟩
    · rw [hdata, hpos, ← hlen]
      exact slice_overwrite (by omega)
    · rw [MemoryStream.advanced, hpos, MemoryStream.written, MemoryStream.advanced, hlen]

/-- A short and an unsigned int, written most significant byte first by a little-endian host. -/
theorem portable_big_on_little : ∃ stream',
    exec (BinaryWriter.writeValue ⟨.little, true⟩) (.create [0, 0, 0, 0, 0, 0] 6 true true)
        [.short (-2), .uint 5] = some ([true, true], stream') ∧
      stream'.streamData = [0xff, 0xfe, 0, 0, 0, 5] := by
  have hs : (MemoryStream.create [0, 0, 0, 0, 0, 0] 6 true true).WellFormed := ⟨rfl, by decide⟩
  obtain ⟨stream', hrun, hdata, -, -⟩ := portable .big .little .big [.short (-2), .uint 5] hs
    (w := ⟨.little, true⟩) rfl (by decide)
  exact ⟨stream', hrun, hdata⟩

end Hologine.Io
