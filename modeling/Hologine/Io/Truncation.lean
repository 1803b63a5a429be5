import Hologine.Io.Binary

/-!
# Streams that end early

Writers and readers (`core/io/binary_writer.cpp`, `core/io/binary_reader.cpp`) whose calls go on
after the stream has ended. A value that does not fit is written or read in part, which leaves no
byte, so that nothing that follows slips in after it.

Results:
* `endsWithin_antitone`: the values that end within a number of bytes are the first ones.
* `truncated`: the calls that succeed are those whose value ends within the bytes left, a writer
  leaves exactly those bytes of the encoding, and a reader of them gives back the values that fit.
-/

namespace Hologine.Io

open Hologine.Library Hologine.Library.Bytes Hologine.Library.Run

/-- After a value that does not fit none does. -/
theorem endsWithin_antitone {values : List Value} {room i j : Nat} (hij : i ≤ j)
    (hj : j < values.length) (h : (endsWithin room values)[i]? = some false) :
    (endsWithin room values)[j]? = some false := by
  have hget : ∀ k, k < values.length → (endsWithin room values)[k]? =
      some (decide (encodedSize (values.take (k + 1)) ≤ room)) := fun k hk => by
    rw [endsWithin, List.getElem?_map, List.getElem?_range hk, Option.map_some]
  have hprefix : encodedSize (values.take (i + 1)) ≤ encodedSize (values.take (j + 1)) := by
    have hle := encodedSize_take_le (values.take (j + 1)) (i + 1)
    rwa [List.take_take, Nat.min_eq_left (by omega)] at hle
  rw [hget i (by omega), Option.some_inj, decide_eq_false_iff_not] at h
  rw [hget j hj, Option.some_inj, decide_eq_false_iff_not]
  omega

/-- **A stream that ends early.** Of the calls of a writer, on a host of any byte order, those
return true whose value ends within the bytes left of the stream, and exactly these bytes of the
encoding are written. A reader of the same endianness over as many bytes, on a host of any byte
order and whatever its targets hold, returns the values that fit, and from the first that does not
fit onward every call fails. -/
theorem truncated (endianness writingHost readingHost : Endianness) (values : List Value)
    {stream : MemoryStream} (hs : stream.WellFormed) {w : BinaryWriter}
    (hw : BinaryWriter.create writingHost stream endianness = some w) :
    (∃ stream', exec w.writeValue stream values =
        some (endsWithin stream.left values, stream') ∧
      stream'.streamData = overwrite stream.streamData stream.currentPosition.toNat
        ((encode endianness values).take stream.left) ∧
      stream'.currentPosition.toNat =
        stream.currentPosition.toNat + min stream.left (encodedSize values)) ∧
    ∀ (input : MemoryStream) (r : BinaryReader) (targets : List Value), input.WellFormed →
      BinaryReader.create readingHost input endianness = some r → input.left = stream.left →
      slice input.streamData input.currentPosition.toNat
          (min stream.left (encodedSize values)) =
        (encode endianness values).take stream.left →
      List.Forall₂ Value.SameType values targets →
      ∃ outputs input', exec r.readValue input targets = some (outputs, input') ∧
        outputs.map Prod.fst = endsWithin stream.left values ∧
        (∀ i v, values[i]? = some v → encodedSize (values.take (i + 1)) ≤ stream.left →
          outputs[i]? = some (true, v)) ∧
        ∀ i j, i ≤ j → j < values.length → (outputs.map Prod.fst)[i]? = some false →
          (outputs.map Prod.fst)[j]? = some false := by
  obtain ⟨hwritable, rfl⟩ := BinaryWriter.create_eq_some.mp hw
  have hadd := hs.left_add
  have hpart : ((encode endianness values).take stream.left).length =
      min stream.left (encodedSize values) := by rw [List.length_take, length_encode]
  refine ⟨⟨_, exec_writeValue writingHost endianness values hs hwritable, rfl, ?_⟩, ?_⟩
  · refine (MemoryStream.toNat_advanced (by omega)).trans ?_
    rw [hpart]
  · intro input r targets hi hr hleft hbytes htypes
    obtain ⟨hreadable, rfl⟩ := BinaryReader.create_eq_some.mp hr
    rw [← hleft] at hbytes ⊢
    obtain ⟨outputs, hrun, hfst, hvalues⟩ := exec_readValue readingHost hi hreadable htypes hbytes
    refine ⟨outputs, _, hrun, hfst, hvalues, fun i j hij hj hfalse => ?_⟩
    rw [hfst] at hfalse ⊢
    exact endsWithin_antitone hij hj hfalse

/-- Three bytes take a short and the first byte of an int, and no byte after it. -/
theorem truncated_three_bytes : ∃ stream',
    exec (BinaryWriter.writeValue ⟨.little, true⟩) (.create [0, 0, 0] 3 true true)
        [.short (-2), .int 5, .ubyte 7] = some ([true, false, false], stream') ∧
      stream'.streamData = [0xff, 0xfe, 0] := by
  have hs : (MemoryStream.create [0, 0, 0] 3 true true).WellFormed := ⟨rfl, by decide⟩
  obtain ⟨⟨stream', hrun, hdata, -⟩, -⟩ := truncated .big .little .big
    [.short (-2), .int 5, .ubyte 7] hs (w := ⟨.little, true⟩) rfl
  exact ⟨stream', hrun, hdata⟩

end Hologine.Io
