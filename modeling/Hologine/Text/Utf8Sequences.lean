import Hologine.Text.Utf8

/-!
# Strings of accepted sequences

What `utf8_increment` does at the sequences of a string that is made of sequences it accepts, and a
model of `utf8_decrement` (`core/text/utf8.cpp:193-242`), which scans back over trail bytes for the
sequence that ends at an offset.

* A `Utf8Sequence` is one that is accepted on its own, with the code point that is found in it.
* `startOf qs j` is where the `j`-th of the sequences `qs` starts, and where the one before it ends.

Results:
* `Utf8Sequence.increment`: a sequence is accepted wherever it stands, whatever is around it.
* `utf8Increment_standsAt`: and nothing else is decoded; a sequence that is cut off is let be.
* `utf8Increment_startOf`, `utf8Decrement_startOf`: one step over a sequence, forward and back.
-/

namespace Hologine.Text

open Hologine.Library

/-- The loop of `utf8_decrement`, from the offset it has yet to decrease. -/
def scanBack (string : List UInt8) : Nat → Option Nat
  | 0 => none
  | current + 1 =>
    if 0 < current then do
      let c ← string[current]?
      if isUtf8TrailByte c then scanBack string current else some current
    else some current

/-- `utf8_decrement`: the exception, the new `offset` and the new `value`. -/
def utf8Decrement (string : List UInt8) (offset : UInt64) (value : UInt32) :
    Option (ExceptionCode × UInt64 × UInt32) :=
  if offset = 0 then some (.indexOutOfRange, offset, value)
  else do
    let currentOffset ← scanBack string offset.toNat
    -- the offset is the length of what is before it
    let (exception, _, value) ← utf8Increment string offset (.ofNat currentOffset) value
    if exception = .none then some (exception, .ofNat currentOffset, value)
    else some (exception, offset, value)

/-- A step back is the step forward from where the scan stops, without its offset. -/
theorem utf8Decrement_eq {string : List UInt8} {offset m newOffset : UInt64} {value v : UInt32}
    {exception : ExceptionCode} (hne : offset ≠ 0)
    (hscan : scanBack string offset.toNat = some m.toNat)
    (hrun : utf8Increment string offset m value = some (exception, newOffset, v)) :
    utf8Decrement string offset value =
      some (exception, if exception = .none then m else offset, v) := by
  rw [utf8Decrement, if_neg hne, hscan, Option.bind_eq_bind, Option.bind_some, UInt64.ofNat_toNat,
    hrun, Option.bind_eq_bind, Option.bind_some]
  dsimp only
  split_ifs <;> rfl

theorem scanBack_lt {string : List UInt8} {m : Nat} :
    ∀ {n : Nat}, scanBack string n = some m → m < n
  | 0, h => absurd h (by simp [scanBack])
  | n + 1, h => by
    rw [scanBack] at h
    split_ifs at h
    · obtain ⟨c, -, h⟩ := Option.bind_eq_some_iff.mp h
      split_ifs at h
      · exact Nat.lt_succ_of_lt (scanBack_lt h)
      · exact Nat.lt_succ_of_le (Nat.le_of_eq (Option.some.inj h).symm)
    · exact Nat.lt_succ_of_le (Nat.le_of_eq (Option.some.inj h).symm)

/-- **What a step back leaves**: the offset alone, with an exception or at the start; or where the
scan stops, and what a step forward gives there. -/
theorem utf8Decrement_leaves {string : List UInt8} {offset newOffset : UInt64}
    {value newValue : UInt32} {exception : ExceptionCode}
    (h : utf8Decrement string offset value = some (exception, newOffset, newValue)) :
    (exception ≠ .none ∧ newOffset = offset) ∨
      (exception = .none ∧ offset = 0 ∧ newOffset = 0 ∧ newValue = value) ∨
      (exception = .none ∧ newOffset < offset ∧
        scanBack string offset.toNat = some newOffset.toNat ∧
        ∃ next, utf8Increment string offset newOffset value = some (.none, next, newValue)) := by
  unfold utf8Decrement at h
  split_ifs at h with hzero
  · obtain ⟨rfl, heq⟩ := Prod.mk.inj (Option.some.inj h)
    obtain ⟨rfl, rfl⟩ := Prod.mk.inj heq
    exact .inr (.inl ⟨indexOutOfRange_eq, hzero, hzero, rfl⟩)
  · obtain ⟨m, hscan, h⟩ := Option.bind_eq_some_iff.mp h
    obtain ⟨⟨e, next, v⟩, hrun, h⟩ := Option.bind_eq_some_iff.mp h
    dsimp only at h
    split_ifs at h with he
    · obtain ⟨rfl, heq⟩ := Prod.mk.inj (Option.some.inj h)
      obtain ⟨rfl, rfl⟩ := Prod.mk.inj heq
      have hlt := scanBack_lt hscan
      have hm : (UInt64.ofNat m).toNat = m := by
        have := offset.toNat_lt
        rw [UInt64.toNat_ofNat', Nat.mod_eq_of_lt (by omega)]
      subst he
      exact .inr (.inr
        ⟨rfl, UInt64.lt_iff_toNat_lt.mpr (hm.symm ▸ hlt), hm.symm ▸ hscan, next, hrun⟩)
    · obtain ⟨rfl, heq⟩ := Prod.mk.inj (Option.some.inj h)
      exact .inl ⟨he, (Prod.mk.inj heq).1.symm⟩

/-- A sequence that `utf8_increment` accepts, and the code point it finds. -/
structure Utf8Sequence where
  bytes : List UInt8
  codePoint : UInt32
  accepted : utf8Increment bytes (.ofNat bytes.length) 0 0 =
    some (.none, .ofNat bytes.length, codePoint)

namespace Utf8Sequence

variable (q : Utf8Sequence)

theorem bytes_ne_nil : q.bytes ≠ [] := by
  intro hnil
  have haccepted := q.accepted
  rw [hnil] at haccepted
  exact absurd haccepted nofun

theorem length_pos : 0 < q.bytes.length := List.length_pos_of_ne_nil q.bytes_ne_nil

/-- **What is accepted**: a lead byte that announces the sequence, trail bytes, and a value of the
right size, which is the code point. -/
theorem shape (hlt : q.bytes.length < 2 ^ 64) : Utf8.Shape q.bytes ∧
    SizedScalar q.bytes.length (decodedValue q.bytes) ∧
      q.codePoint = UInt32.ofNat (decodedValue q.bytes) := by
  have hpos := q.length_pos
  have hlength : (UInt64.ofNat q.bytes.length).toNat = q.bytes.length := by
    rw [UInt64.toNat_ofNat', Nat.mod_eq_of_lt hlt]
  have hoffset : (0 : UInt64) < .ofNat q.bytes.length := by
    rw [UInt64.lt_iff_toNat_lt, hlength]
    exact hpos
  have hlead : q.bytes[(0 : UInt64).toNat]? = some q.bytes[0] := List.getElem?_eq_getElem hpos
  rcases utf8Increment_outcome 0 (Nat.le_of_eq hlength) hoffset hlead rfl with
    ⟨hfit, hshape, hsized, hrun⟩ | ⟨-, hrun⟩ | ⟨-, -, exception, newValue, hne, hrun⟩
  · obtain ⟨-, hnew⟩ := Prod.mk.inj (Option.some.inj (q.accepted.symm.trans hrun))
    obtain ⟨hnew, hvalue⟩ := Prod.mk.inj hnew
    rw [UInt64.zero_add] at hnew
    -- the lead byte announces no more and no less than the sequence
    have hall : q.bytes.length = Utf8.leadLength q.bytes[0] := by
      have hn := congrArg UInt64.toNat hnew
      rw [hlength, UInt64.toNat_ofNat'] at hn
      rw [hlength, UInt64.toNat_zero, Nat.zero_add] at hfit
      rw [hn, Nat.mod_eq_of_lt (by omega)]
    have hbytes : (q.bytes.drop (0 : UInt64).toNat).take (Utf8.leadLength q.bytes[0]) =
        q.bytes := by
      rw [UInt64.toNat_zero, List.drop_zero, ← hall, List.take_length]
    rw [hbytes] at hshape hsized hvalue
    exact ⟨hshape, hsized, hvalue⟩
  · -- one that is cut off is not passed
    obtain ⟨-, hnew⟩ := Prod.mk.inj (Option.some.inj (q.accepted.symm.trans hrun))
    rw [(Prod.mk.inj hnew).1] at hlength
    exact absurd hlength.symm (Nat.ne_of_gt hpos)
  · obtain ⟨heq, -⟩ := Prod.mk.inj (Option.some.inj (q.accepted.symm.trans hrun))
    exact absurd heq.symm hne

/-- Where a sequence stands, its first byte announces it. -/
theorem announced {string : List UInt8} {offset : Nat} (hpre : q.bytes <+: string.drop offset)
    (hlt : q.bytes.length < 2 ^ 64) :
    ∃ lead, string[offset]? = some lead ∧ Utf8.leadLength lead = q.bytes.length := by
  obtain ⟨hshape, -⟩ := q.shape hlt
  obtain ⟨lead, trails, hq⟩ := List.exists_cons_of_ne_nil q.bytes_ne_nil
  rw [hq] at hshape hpre ⊢
  refine ⟨lead, ?_, hshape.1⟩
  obtain ⟨rest, hrest⟩ := hpre
  rw [← Nat.add_zero offset, ← List.getElem?_drop, ← hrest]
  rfl

/-- **A sequence is accepted wherever it stands.** -/
theorem increment {string : List UInt8} {length offset : UInt64} (value : UInt32)
    (hpre : q.bytes <+: string.drop offset.toNat)
    (hfit : offset.toNat + q.bytes.length ≤ length.toNat) (hlength : length.toNat ≤ string.length) :
    utf8Increment string length offset value =
      some (.none, offset + .ofNat q.bytes.length, q.codePoint) := by
  have hlt := length.toNat_lt
  have hpos := q.length_pos
  obtain ⟨hshape, hsized, hcode⟩ := q.shape (by omega)
  obtain ⟨lead, hlead, hannounced⟩ := q.announced hpre (by omega)
  have hbytes : (string.drop offset.toNat).take (Utf8.leadLength lead) = q.bytes := by
    rw [hannounced]
    exact (List.prefix_iff_eq_take.mp hpre).symm
  have hoffset : offset < length := UInt64.lt_iff_toNat_lt.mpr (by omega)
  rcases utf8Increment_outcome value hlength hoffset hlead hbytes with
    ⟨-, -, -, hrun⟩ | ⟨hcut, -⟩ | ⟨-, hrejected, -⟩
  · rw [hrun, hannounced, hcode]
  · have hout := ((cutOff_iff hlead).mp hcut).2
    omega
  · rw [hannounced] at hrejected
    exact absurd ⟨hfit, hshape, hsized⟩ hrejected

/-- The sequence stands at `offset` and ends before `length`. -/
def StandsAt (string : List UInt8) (length offset : UInt64) : Prop :=
  q.bytes <+: string.drop offset.toNat ∧ offset.toNat + q.bytes.length ≤ length.toNat

/-- There is one code point at a place. -/
theorem StandsAt.codePoint_eq {q q' : Utf8Sequence} {string : List UInt8}
    {length length' offset : UInt64} (h : q.StandsAt string length offset)
    (h' : q'.StandsAt string length' offset) : q.codePoint = q'.codePoint := by
  have hlt := length.toNat_lt
  have hlt' := length'.toNat_lt
  have hfit := h.2
  have hfit' := h'.2
  obtain ⟨-, -, hcode⟩ := q.shape (by omega)
  obtain ⟨-, -, hcode'⟩ := q'.shape (by omega)
  obtain ⟨lead, hlead, hannounced⟩ := q.announced h.1 (by omega)
  obtain ⟨lead', hlead', hannounced'⟩ := q'.announced h'.1 (by omega)
  obtain rfl := Option.some.inj (hlead.symm.trans hlead')
  have hbytes : q.bytes = q'.bytes := by
    rw [List.prefix_iff_eq_take.mp h.1, List.prefix_iff_eq_take.mp h'.1, ← hannounced,
      ← hannounced']
  rw [hcode, hcode', hbytes]

end Utf8Sequence

/-- Acceptable bytes are a sequence. -/
theorem exists_utf8Sequence {bytes : List UInt8} (hshape : Utf8.Shape bytes)
    (hsized : SizedScalar bytes.length (decodedValue bytes)) :
    ∃ q : Utf8Sequence, q.bytes = bytes ∧ q.codePoint = UInt32.ofNat (decodedValue bytes) := by
  cases bytes with
  | nil => exact hshape.elim
  | cons lead trails =>
    have hrange := Utf8.leadLength_range lead
    have hn : Utf8.leadLength lead = (lead :: trails).length := hshape.1
    have hlength : (UInt64.ofNat (lead :: trails).length).toNat = (lead :: trails).length := by
      rw [UInt64.toNat_ofNat', Nat.mod_eq_of_lt (by omega)]
    have hoffset : (0 : UInt64) < .ofNat (lead :: trails).length := by
      rw [UInt64.lt_iff_toNat_lt, hlength]
      exact Nat.succ_pos _
    have hall : (((lead :: trails).drop (0 : UInt64).toNat).take (Utf8.leadLength lead)) =
        lead :: trails := by
      rw [hn, UInt64.toNat_zero, List.drop_zero, List.take_length]
    have hfit : (0 : UInt64).toNat + Utf8.leadLength lead ≤
        (UInt64.ofNat (lead :: trails).length).toNat := by
      rw [hn, hlength, UInt64.toNat_zero, Nat.zero_add]
    rcases utf8Increment_outcome 0 (Nat.le_of_eq hlength) hoffset rfl hall with
      ⟨-, -, -, hrun⟩ | ⟨hcut, -⟩ | ⟨-, hrejected, -⟩
    · rw [hn, UInt64.zero_add] at hrun
      exact ⟨⟨lead :: trails, _, hrun⟩, rfl, rfl⟩
    · have hout := ((cutOff_iff rfl).mp hcut).2
      omega
    · exact absurd ⟨hfit, hshape, hsized⟩ hrejected

/-- **The function accepts the sequence that stands at the offset**, and nothing else; it leaves the
offset alone where there is none, and where one is cut off it does nothing at all. -/
theorem utf8Increment_standsAt {string : List UInt8} {length offset : UInt64} (value : UInt32)
    (hlength : length.toNat ≤ string.length) (hoffset : offset < length) :
    (∃ q : Utf8Sequence, q.StandsAt string length offset ∧
      utf8Increment string length offset value =
        some (.none, offset + .ofNat q.bytes.length, q.codePoint)) ∨
    (CutOff string length offset ∧
      utf8Increment string length offset value = some (.none, offset, value)) ∨
    (¬ CutOff string length offset ∧ (¬ ∃ q : Utf8Sequence, q.StandsAt string length offset) ∧
      ∃ exception newValue, exception ≠ .none ∧
        utf8Increment string length offset value = some (exception, offset, newValue)) := by
  have hofs : offset.toNat < length.toNat := UInt64.lt_iff_toNat_lt.mp hoffset
  obtain ⟨lead, hlead⟩ : ∃ lead, string[offset.toNat]? = some lead :=
    ⟨_, List.getElem?_eq_getElem (by omega)⟩
  rcases utf8Increment_outcome value hlength hoffset hlead rfl with
    ⟨hfit, hshape, hsized, hrun⟩ | hcut | ⟨hwhole, -, exception, newValue, hne, hrun⟩
  · obtain ⟨q, hq, hcode⟩ := exists_utf8Sequence hshape hsized
    have hlen : q.bytes.length = Utf8.leadLength lead := by
      rw [hq, List.length_take, List.length_drop]
      omega
    refine .inl ⟨q, ⟨hq ▸ List.take_prefix _ _, by rw [hlen]; exact hfit⟩, ?_⟩
    rw [hrun, hlen, hcode]
  · exact .inr (.inl hcut)
  · refine .inr (.inr ⟨hwhole, ?_, exception, newValue, hne, hrun⟩)
    rintro ⟨q, hpre, hfit⟩
    have haccepted := q.increment value hpre hfit hlength
    exact hne (Prod.mk.inj (Option.some.inj (hrun.symm.trans haccepted))).1

/-! ## A string of sequences -/

/-- The bytes of the sequences. -/
def joined (qs : List Utf8Sequence) : List UInt8 := qs.flatMap Utf8Sequence.bytes

/-- Where a sequence starts. -/
def startOf (qs : List Utf8Sequence) (j : Nat) : Nat := (joined (qs.take j)).length

variable {qs : List Utf8Sequence} {string : List UInt8} {length : UInt64} {j : Nat}

theorem startOf_length : startOf qs qs.length = (joined qs).length := by
  rw [startOf, List.take_length]

theorem startOf_succ (hj : j < qs.length) :
    startOf qs (j + 1) = startOf qs j + qs[j].bytes.length := by
  rw [startOf, startOf, joined, joined, List.take_succ_eq_append_getElem hj, List.flatMap_append,
    List.length_append]
  simp

theorem startOf_lt (hj : j < qs.length) : startOf qs j < startOf qs (j + 1) := by
  have := qs[j].length_pos
  rw [startOf_succ hj]
  omega

/-- Sequences start one after another. -/
theorem startOf_mono {i : Nat} (hij : i ≤ j) (hj : j ≤ qs.length) :
    startOf qs i ≤ startOf qs j := by
  induction j with
  | zero =>
    obtain rfl : i = 0 := by omega
    exact Nat.le_refl _
  | succ j ih =>
    rcases Nat.lt_or_ge i (j + 1) with hlt | hge
    · have hstep : startOf qs j < startOf qs (j + 1) := startOf_lt (by omega)
      have hprev := ih (by omega) (by omega)
      omega
    · obtain rfl : i = j + 1 := by omega
      exact Nat.le_refl _

theorem startOf_inj {i : Nat} (hi : i ≤ qs.length) (hj : j ≤ qs.length)
    (heq : startOf qs i = startOf qs j) : i = j := by
  rcases Nat.lt_trichotomy i j with hlt | heq' | hlt
  · have hstep : startOf qs i < startOf qs (i + 1) := startOf_lt (by omega)
    have hmono : startOf qs (i + 1) ≤ startOf qs j := startOf_mono (by omega) hj
    omega
  · exact heq'
  · have hstep : startOf qs j < startOf qs (j + 1) := startOf_lt (by omega)
    have hmono : startOf qs (j + 1) ≤ startOf qs i := startOf_mono (by omega) hi
    omega

/-- A sequence of a string stands where it starts. -/
theorem prefix_startOf (hj : j < qs.length) :
    qs[j].bytes <+: (joined qs).drop (startOf qs j) := by
  have hsplit : joined qs = joined (qs.take j) ++ joined (qs.drop j) := by
    rw [joined, joined, joined, ← List.flatMap_append, List.take_append_drop]
  rw [hsplit, startOf, List.drop_left, List.drop_eq_getElem_cons hj]
  exact List.prefix_append _ _

/-- The same in an array that has the string at its start. -/
theorem prefix_startOf_of_prefix (hstring : joined qs <+: string) (hj : j < qs.length) :
    qs[j].bytes <+: string.drop (startOf qs j) := by
  obtain ⟨rest, rfl⟩ := hstring
  have hle : startOf qs j ≤ startOf qs qs.length :=
    startOf_mono (Nat.le_of_lt hj) (Nat.le_refl _)
  rw [startOf_length] at hle
  rw [List.drop_append_of_le_length hle]
  exact (prefix_startOf hj).trans (List.prefix_append _ _)

theorem toNat_startOf (hlt : startOf qs j < 2 ^ 64) :
    (UInt64.ofNat (startOf qs j)).toNat = startOf qs j := by
  rw [UInt64.toNat_ofNat', Nat.mod_eq_of_lt hlt]

/-- **One step forward.** -/
theorem utf8Increment_startOf (hstring : joined qs <+: string)
    (hlength : length.toNat ≤ string.length) (hj : j < qs.length)
    (hfit : startOf qs (j + 1) ≤ length.toNat) (value : UInt32) :
    utf8Increment string length (.ofNat (startOf qs j)) value =
      some (.none, .ofNat (startOf qs (j + 1)), qs[j].codePoint) := by
  have hnext := startOf_succ hj
  have hlt := length.toNat_lt
  have hstart : (UInt64.ofNat (startOf qs j)).toNat = startOf qs j := toNat_startOf (by omega)
  rw [hnext, UInt64.ofNat_add]
  refine qs[j].increment value ?_ ?_ hlength
  · rw [hstart]
    exact prefix_startOf_of_prefix hstring hj
  · rw [hstart, ← hnext]
    exact hfit

/-- The loop passes over trail bytes and stops at a byte that is none, or at the start. -/
theorem scanBack_eq {i : Nat} (hstop : i = 0 ∨ ∃ b, string[i]? = some b ∧ ¬ Utf8.Trail b) :
    ∀ {n : Nat}, (∀ t, i < t → t ≤ i + n → ∃ b, string[t]? = some b ∧ Utf8.Trail b) →
      scanBack string (i + n + 1) = some i
  | 0, _ => by
    rw [Nat.add_zero, scanBack]
    split_ifs with hi
    · obtain ⟨b, hb, hnot⟩ := hstop.resolve_left (by omega)
      rw [hb, Option.bind_eq_bind, Option.bind_some, if_neg (mt (isUtf8TrailByte_iff b).mp hnot)]
    · rfl
  | n + 1, htrail => by
    obtain ⟨b, hb, hb'⟩ := htrail (i + n + 1) (by omega) (by omega)
    rw [← Nat.add_assoc, scanBack, if_pos (by omega), hb, Option.bind_eq_bind, Option.bind_some,
      if_pos ((isUtf8TrailByte_iff b).mpr hb')]
    exact scanBack_eq hstop fun t hlo hhi => htrail t hlo (by omega)

/-- A byte that announces a length is no trail byte. -/
theorem not_trail_of_leadLength {b : UInt8} (h : Utf8.leadLength b ≠ 0) : ¬ Utf8.Trail b := by
  intro htrail
  unfold Utf8.Trail at htrail
  have := Utf8.leadLength_range b
  omega

namespace Utf8Sequence

variable {q : Utf8Sequence} {offset offset' : UInt64}

/-- **The scan finds the sequence**, also from behind trail bytes that are not of it. -/
theorem StandsAt.scanBack (hstands : q.StandsAt string length offset) {n : Nat}
    (hn : offset.toNat + q.bytes.length ≤ n)
    (hstray : ∀ t, offset.toNat + q.bytes.length ≤ t → t < n →
      ∃ b, string[t]? = some b ∧ Utf8.Trail b) :
    scanBack string n = some offset.toNat := by
  obtain ⟨hpre, hfit⟩ := hstands
  have hlt := length.toNat_lt
  obtain ⟨hshape, -⟩ := q.shape (by omega)
  have hget : ∀ t, (ht : t < q.bytes.length) →
      string[offset.toNat + t]? = some q.bytes[t] := by
    intro t ht
    obtain ⟨rest, hrest⟩ := hpre
    rw [← List.getElem?_drop, ← hrest, List.getElem?_append_left ht, List.getElem?_eq_getElem]
  cases hq : q.bytes with
  | nil => exact absurd hq q.bytes_ne_nil
  | cons lead trails =>
    simp only [hq] at hget hshape hn hstray
    rw [List.length_cons] at hn hstray
    obtain ⟨k, rfl⟩ : ∃ k, n = offset.toNat + k + 1 := ⟨n - offset.toNat - 1, by omega⟩
    refine scanBack_eq (.inr ⟨lead, hget 0 (Nat.succ_pos _), ?_⟩) fun t hlo hhi => ?_
    · exact not_trail_of_leadLength (hshape.1 ▸ Nat.succ_ne_zero _)
    · rcases Nat.lt_or_ge t (offset.toNat + (trails.length + 1)) with ht | ht
      · obtain ⟨m, rfl⟩ := Nat.exists_eq_add_of_lt hlo
        have hm : m < trails.length := by omega
        exact ⟨trails[m], hget (m + 1) (Nat.succ_lt_succ hm), hshape.2 _ (List.getElem_mem hm)⟩
      · exact hstray t ht (by omega)

/-- **Back over a sequence, from its end.** -/
theorem StandsAt.decrement (hstands : q.StandsAt string offset' offset)
    (hlength : offset'.toNat ≤ string.length) (hend : offset' = offset + .ofNat q.bytes.length)
    (value : UInt32) :
    utf8Decrement string offset' value = some (.none, offset, q.codePoint) := by
  have hpos := q.length_pos
  have hlt := offset'.toNat_lt
  have hend' : offset'.toNat = offset.toNat + q.bytes.length := by
    have hfit := hstands.2
    rw [hend, UInt64.toNat_add, UInt64.toNat_ofNat',
      Nat.mod_eq_of_lt (by omega : q.bytes.length < _), Nat.mod_eq_of_lt (by omega)]
  have hne : offset' ≠ 0 := by
    rintro rfl
    rw [UInt64.toNat_zero] at hend'
    omega
  have hscan : Text.scanBack string offset'.toNat = some offset.toNat :=
    hstands.scanBack (Nat.le_of_eq hend'.symm) fun t hlo hhi => by omega
  rw [utf8Decrement_eq hne hscan (q.increment value hstands.1 hstands.2 hlength), if_pos rfl]

end Utf8Sequence

/-- **One step back.** -/
theorem utf8Decrement_startOf (hstring : joined qs <+: string) (hj : j < qs.length)
    (hfit : startOf qs (j + 1) ≤ string.length) (hlt : startOf qs (j + 1) < 2 ^ 64)
    (value : UInt32) :
    utf8Decrement string (.ofNat (startOf qs (j + 1))) value =
      some (.none, .ofNat (startOf qs j), qs[j].codePoint) := by
  have hnext := startOf_succ hj
  have hstart : (UInt64.ofNat (startOf qs j)).toNat = startOf qs j := toNat_startOf (by omega)
  have hend : (UInt64.ofNat (startOf qs (j + 1))).toNat = startOf qs (j + 1) := toNat_startOf hlt
  refine Utf8Sequence.StandsAt.decrement ⟨?_, ?_⟩ (hend.symm ▸ hfit) ?_ value
  · rw [hstart]
    exact prefix_startOf_of_prefix hstring hj
  · rw [hstart, hend, hnext]
  · rw [hnext, UInt64.ofNat_add]

end Hologine.Text
