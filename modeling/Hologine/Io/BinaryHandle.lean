import Hologine.Handle
import Hologine.Io.Binary

/-!
# Handles in binary streams

Model of `binary_writer::write_handle` (`core/io/binary_writer.hpp:129-142`) and
`binary_reader::read_handle` (`core/io/binary_reader.hpp:136-154`): the type and the three fields
of a handle as 32-bit integers.

* `handle_roundTrip`: a handle of the right type is read back as it was written, for every layout,
  although the fields overlap: the bits the decoders read in excess are among those `encode` puts
  back (`encode_decode`), and no field needs more than 30 bits.
-/

namespace Hologine.Io

open Hologine.Handle Hologine.Library.Run

/-- `&&` of two calls that use the stream. -/
def andThen (call : Option (Bool × MemoryStream))
    (next : MemoryStream → Option (Bool × MemoryStream)) : Option (Bool × MemoryStream) := do
  let (ok, stream) ← call
  if ok then next stream else some (false, stream)

/-- The cast of a `std::size_t` to `std::uint32_t`. -/
def toUint32 (v : U64) : UInt32 := UInt32.ofNat v.toNat

/-- The promotion of a `std::uint32_t` to `std::size_t`. -/
def toSize (v : UInt32) : U64 := BitVec.ofNat 64 v.toNat

/-- `write_handle`. -/
def BinaryWriter.writeHandle (w : BinaryWriter) (d : HandleDefinition) (stream : MemoryStream)
    (handle : U64) : Option (Bool × MemoryStream) :=
  andThen (w.writeUint stream (toUint32 (BitVec.ofNat 64 d.type))) fun stream =>
  andThen (w.writeUint stream (toUint32 (d.decodeAge handle))) fun stream =>
  andThen (w.writeUint stream (toUint32 (d.decodeScope handle))) fun stream =>
  w.writeUint stream (toUint32 (d.decodeIndex handle))

/-- `read_handle`: whether it succeeds and the handle, which is passed in. The four locals are
uninitialised at first. -/
def BinaryReader.readHandle (r : BinaryReader) (d : HandleDefinition) (stream : MemoryStream)
    (uninitialised : Fin 4 → UInt32) (handle : U64) : Option (Bool × U64 × MemoryStream) := do
  let (ok, type, stream) ← r.readUint stream (uninitialised 0)
  if !ok then some (false, handle, stream) else
  let (ok, age, stream) ← r.readUint stream (uninitialised 1)
  if !ok then some (false, handle, stream) else
  let (ok, scope, stream) ← r.readUint stream (uninitialised 2)
  if !ok then some (false, handle, stream) else
  let (ok, index, stream) ← r.readUint stream (uninitialised 3)
  if !ok then some (false, handle, stream) else
  if BitVec.ofNat 64 d.type ≠ toSize type then some (false, handle, stream) else
  some (true, d.encode (toSize age) (toSize scope) (toSize index), stream)

/-- The integers that stand for a handle. -/
def handleFields (d : HandleDefinition) (handle : U64) : List Value :=
  [.uint (toUint32 (BitVec.ofNat 64 d.type)), .uint (toUint32 (d.decodeAge handle)),
    .uint (toUint32 (d.decodeScope handle)), .uint (toUint32 (d.decodeIndex handle))]

/-- A run that writes the four integers is a `write_handle`. -/
theorem writeHandle_of_exec {w : BinaryWriter} {d : HandleDefinition}
    {stream stream' : MemoryStream} {handle : U64}
    (h : exec w.writeValue stream (handleFields d handle) =
      some ([true, true, true, true], stream')) :
    w.writeHandle d stream handle = some (true, stream') := by
  simp only [handleFields, exec_cons_eq_cons, exec_nil_eq_nil] at h
  obtain ⟨s1, h1, s2, h2, s3, h3, s4, h4, rfl⟩ := h
  simp only [BinaryWriter.writeValue] at h1 h2 h3 h4
  simp only [BinaryWriter.writeHandle, andThen, h1, h2, h3, h4, Option.bind_eq_bind,
    Option.bind_some, if_true]

/-- A method of the reader, from what it does as one of a sequence. -/
theorem readUint_of_readValue {r : BinaryReader} {stream stream' : MemoryStream} {u v : UInt32}
    (h : r.readValue stream (.uint u) = some ((true, .uint v), stream')) :
    r.readUint stream u = some (true, v, stream') := by
  obtain ⟨⟨ok, value, s⟩, hread, heq⟩ := Option.map_eq_some_iff.mp h
  obtain ⟨⟨rfl, rfl⟩, rfl⟩ : (ok = true ∧ value = v) ∧ s = stream' := by simpa using heq
  exact hread

/-- A run that reads four integers is a `read_handle`. -/
theorem readHandle_of_exec {r : BinaryReader} {d : HandleDefinition}
    {stream stream' : MemoryStream} {uninitialised : Fin 4 → UInt32} {type age scope index : UInt32}
    (h : exec r.readValue stream [.uint (uninitialised 0), .uint (uninitialised 1),
        .uint (uninitialised 2), .uint (uninitialised 3)] =
      some ([(true, .uint type), (true, .uint age), (true, .uint scope), (true, .uint index)],
        stream'))
    (htype : toSize type = BitVec.ofNat 64 d.type) (handle : U64) :
    r.readHandle d stream uninitialised handle =
      some (true, d.encode (toSize age) (toSize scope) (toSize index), stream') := by
  simp only [exec_cons_eq_cons, exec_nil_eq_nil] at h
  obtain ⟨s1, h1, s2, h2, s3, h3, s4, h4, rfl⟩ := h
  simp [BinaryReader.readHandle, readUint_of_readValue h1, readUint_of_readValue h2,
    readUint_of_readValue h3, readUint_of_readValue h4, htype]

/-- A value of at most 32 bits survives the casts. -/
theorem toSize_toUint32 {v : U64} (h : v.toNat < 2 ^ 32) : toSize (toUint32 v) = v := by
  apply BitVec.eq_of_toNat_eq
  rw [toSize, toUint32, BitVec.toNat_ofNat, UInt32.toNat_ofNat', Nat.mod_eq_of_lt h,
    Nat.mod_eq_of_lt v.isLt]

/-- **A handle is read back as it was written.** A writer writes it in 16 bytes, whatever the host;
a reader of the same endianness, on a host of any byte order, over a stream of the same bytes at
the same position gives it back and ends where the writer ended. -/
theorem handle_roundTrip (d : Layout) {handle : U64} (h : d.isType handle = true)
    (endianness writingHost readingHost : Endianness) {stream : MemoryStream}
    (hs : stream.WellFormed) {w : BinaryWriter}
    (hw : BinaryWriter.create writingHost stream endianness = some w)
    (room : stream.currentPosition.toNat + 16 ≤ stream.streamLength.toNat) :
    ∃ stream', w.writeHandle d.toHandleDefinition stream handle = some (true, stream') ∧
      stream'.currentPosition.toNat = stream.currentPosition.toNat + 16 ∧
      ∀ (input : MemoryStream) (r : BinaryReader) (uninitialised : Fin 4 → UInt32) (target : U64),
        input.WellFormed → BinaryReader.create readingHost input endianness = some r →
        input.streamData = stream'.streamData → input.currentPosition = stream.currentPosition →
        ∃ input', r.readHandle d.toHandleDefinition input uninitialised target =
            some (true, handle, input') ∧
          input'.currentPosition = stream'.currentPosition := by
  obtain ⟨stream', hwrite, -, hpos, hread⟩ := portable endianness writingHost readingHost
    (handleFields d.toHandleDefinition handle) hs hw room
  refine ⟨stream', writeHandle_of_exec hwrite, hpos, ?_⟩
  intro input r uninitialised target hi hr hdata hinput
  obtain ⟨input', hrun, hend⟩ := hread input r
    [.uint (uninitialised 0), .uint (uninitialised 1), .uint (uninitialised 2),
      .uint (uninitialised 3)] hi hr hdata hinput
    (.cons trivial (.cons trivial (.cons trivial (.cons trivial .nil))))
  refine ⟨input', ?_, hend⟩
  have htype : (BitVec.ofNat 64 d.type).toNat < 2 ^ 32 := by
    have := d.type_le
    rw [BitVec.toNat_ofNat]
    omega
  have hlt {n : Nat} (hn : n ≤ 29) (v : U64) : toSize (toUint32 (v &&& mask n)) = v &&& mask n :=
    toSize_toUint32 ((Layout.toNat_and_mask_lt hn v).trans (by decide))
  have hage : toSize (toUint32 (d.decodeAge handle)) = d.decodeAge handle := hlt d.age_le _
  have hscope : toSize (toUint32 (d.decodeScope handle)) = d.decodeScope handle := hlt d.scope_le _
  have hindex : toSize (toUint32 (d.decodeIndex handle)) = d.decodeIndex handle := hlt d.index_le _
  rw [readHandle_of_exec hrun (toSize_toUint32 htype) target, hage, hscope, hindex,
    Layout.encode_decode d h]

/-- A handle under an odd type, whose fields overlap. -/
theorem handle_roundTrip_oddLayout : ∃ stream',
    BinaryWriter.writeHandle ⟨.little, false⟩ Layout.oddLayout.toHandleDefinition
        (.create (List.replicate 16 0) 16 true true) 0x0100001000040001 = some (true, stream') ∧
      stream'.currentPosition.toNat = 16 := by
  have hs : (MemoryStream.create (List.replicate 16 0) 16 true true).WellFormed :=
    ⟨rfl, by decide⟩
  obtain ⟨stream', hwrite, hpos, -⟩ := handle_roundTrip Layout.oddLayout
    (show Layout.oddLayout.isType 0x0100001000040001 = true by decide) .little .little .big hs
    (w := ⟨.little, false⟩) rfl (by decide)
  exact ⟨stream', hwrite, hpos⟩

end Hologine.Io
