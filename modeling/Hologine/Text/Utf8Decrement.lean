import Hologine.Text.Utf8Sequences

/-!
# Stepping back over UTF-8

What `utf8_decrement` (`core/text/utf8.cpp:193-242`) does at any offset of any bytes. It scans back
over trail bytes, decodes the sequence that starts there with the offset as the length, and looks
at the exception only: where that sequence ends is in `final_offset`, which nothing reads. So trail
bytes after a complete sequence are stepped over with it; and a sequence that the offset cuts off,
which is no exception, is stepped over without being decoded.

Results:
* `undone_iff`: a step back undoes a step forward, whatever is around, **iff** that is not at a
  sequence that the length cuts off, which it does not pass.
* `scanBack_spec`: where the scan stops.
* `decrementSound_iff`: a step back is the inverse of a step forward **iff** no stray trail bytes
  are before the offset and no sequence is cut off there.
-/

namespace Hologine.Text

open Hologine.Library

variable {string : List UInt8} {length offset offset' : UInt64} {value value' v : UInt32}

/-- Trail bytes that the loop over them accepts are in the string. -/
theorem le_of_checkTrailBytes : ∀ {i count : Nat}, offset.toNat + i ≤ string.length →
    checkTrailBytes string offset.toNat i count = some true →
      offset.toNat + i + count ≤ string.length
  | _, 0, hle, _ => hle
  | i, count + 1, _, h => by
    rw [checkTrailBytes] at h
    obtain ⟨c, hc, h⟩ := Option.bind_eq_some_iff.mp h
    split_ifs at h
    · have hlt := (List.getElem?_eq_some_iff.mp hc).1
      have := le_of_checkTrailBytes (i := i + 1) (by omega) h
      omega
    · exact absurd h (by decide)

/-- **What a step forward has read is all it needs**: it ends within the array, and the length may
as well be where it ends. -/
theorem utf8Increment_within (hwhole : ¬ CutOff string length offset)
    (h : utf8Increment string length offset value = some (.none, offset', v)) :
    offset < offset' ∧ offset'.toNat ≤ string.length ∧
      utf8Increment string offset' offset value = some (.none, offset', v) := by
  have hlt : offset < offset' := by
    rcases utf8Increment_leaves h with ⟨hne, -⟩ | ⟨-, hcut, -⟩ | ⟨-, hlt, -⟩
    · exact absurd rfl hne
    · exact absurd hcut hwhole
    · exact hlt
  -- an exception would leave the offset
  have hfails : ∀ {e : ExceptionCode} {w : UInt32}, some (e, offset, w) ≠ some (.none, offset', v) := by
    intro e w heq
    have hsame := (Prod.mk.inj (Prod.mk.inj (Option.some.inj heq)).2).1
    exact UInt64.lt_irrefl _ (hsame ▸ hlt)
  unfold utf8Increment at h ⊢
  obtain ⟨lead, hlead, h⟩ := Option.bind_eq_some_iff.mp h
  rw [hlead, Option.bind_eq_bind, Option.bind_some]
  rcases hlengthOf : getUtf8SequenceLength lead with ⟨exception, sequenceLength⟩
  simp only [hlengthOf] at h ⊢
  split_ifs at h with hexception hbounds
  · obtain ⟨ok, hcheck, h⟩ := Option.bind_eq_some_iff.mp h
    split_ifs at h with hok
    · obtain ⟨w, hdecode, h⟩ := Option.bind_eq_some_iff.mp h
      by_cases hsize : getCodePointUtf8SequenceLength w ≠ sequenceLength
      · rw [if_pos hsize] at h
        exact absurd h hfails
      by_cases hvalid : (!isValidCodePoint w) = true
      · rw [if_neg hsize, if_pos hvalid] at h
        exact absurd h hfails
      rw [if_neg hsize, if_neg hvalid] at h
      obtain ⟨-, heq⟩ := Prod.mk.inj (Option.some.inj h)
      obtain ⟨rfl, rfl⟩ := Prod.mk.inj heq
      subst hok
      have hstart := (List.getElem?_eq_some_iff.mp hlead).1
      have hend := le_of_checkTrailBytes (i := 1) hstart hcheck
      have hmoved := UInt64.lt_iff_toNat_lt.mp hbounds.2
      refine ⟨hbounds.2, ?_, ?_⟩
      · rw [UInt64.toNat_add] at hmoved ⊢
        omega
      · rw [if_pos hexception, if_pos ⟨UInt64.le_refl _, hbounds.2⟩, hcheck, Option.bind_eq_bind,
          Option.bind_some, if_pos rfl, hdecode, Option.bind_eq_bind, Option.bind_some,
          if_neg hsize, if_neg hvalid]
        exact h
    · exact absurd h hfails
  · exact absurd h hfails
  · exact absurd h hfails

/-- A step that is whole is to the end of what stands at the offset. -/
theorem exists_standsAt_of_increment (hwhole : ¬ CutOff string length offset)
    (h : utf8Increment string length offset value = some (.none, offset', v)) :
    ∃ q : Utf8Sequence, q.StandsAt string offset' offset ∧
      offset' = offset + .ofNat q.bytes.length ∧ v = q.codePoint := by
  obtain ⟨hlt, hfit, hrun⟩ := utf8Increment_within hwhole h
  rcases utf8Increment_standsAt value hfit hlt with
    ⟨q, hstands, hrun'⟩ | ⟨-, hrun'⟩ | ⟨-, -, exception, newValue, hne, hrun'⟩
  · obtain ⟨-, heq⟩ := Prod.mk.inj (Option.some.inj (hrun.symm.trans hrun'))
    obtain ⟨hend, hvalue⟩ := Prod.mk.inj heq
    exact ⟨q, hstands, hend, hvalue⟩
  · obtain ⟨-, heq⟩ := Prod.mk.inj (Option.some.inj (hrun.symm.trans hrun'))
    exact absurd ((Prod.mk.inj heq).1 ▸ hlt) (UInt64.lt_irrefl _)
  · exact absurd (Prod.mk.inj (Option.some.inj (hrun.symm.trans hrun'))).1.symm hne

/-- The scan, from any offset: it stops at the first byte of the array or at one that is no trail
byte, and passes over trail bytes only. -/
theorem scanBack_spec : ∀ {n : Nat}, 0 < n → n ≤ string.length →
    ∃ m < n, scanBack string n = some m ∧
      (m = 0 ∨ ∃ b, string[m]? = some b ∧ ¬ Utf8.Trail b) ∧
      ∀ t, m < t → t < n → ∃ b, string[t]? = some b ∧ Utf8.Trail b
  | 0, hpos, _ => absurd hpos (Nat.lt_irrefl 0)
  | 1, _, _ => ⟨0, Nat.one_pos, rfl, .inl rfl, fun t hlo hhi => by omega⟩
  | n + 2, _, hle => by
    have hget : string[n + 1]? = some string[n + 1] := List.getElem?_eq_getElem hle
    rw [scanBack, if_pos (Nat.succ_pos n), hget, Option.bind_eq_bind, Option.bind_some]
    by_cases htrail : Utf8.Trail string[n + 1]
    · obtain ⟨m, hlt, hscan, hstop, hpassed⟩ := scanBack_spec (Nat.succ_pos n) (Nat.le_of_lt hle)
      refine ⟨m, by omega, ?_, hstop, fun t hlo hhi => ?_⟩
      · rw [if_pos ((isUtf8TrailByte_iff _).mpr htrail), hscan]
      · rcases Nat.lt_or_ge t (n + 1) with ht | ht
        · exact hpassed t hlo ht
        · obtain rfl : t = n + 1 := by omega
          exact ⟨_, hget, htrail⟩
    · refine ⟨n + 1, by omega, ?_, .inr ⟨_, hget, htrail⟩, fun t hlo hhi => by omega⟩
      rw [if_neg (mt (isUtf8TrailByte_iff _).mp htrail)]

/-- The scan as `utf8_decrement` runs it, from an offset that is not the start. -/
theorem exists_scanBack (hne : offset ≠ 0) (hlength : offset.toNat ≤ string.length) :
    ∃ m : UInt64, m < offset ∧ scanBack string offset.toNat = some m.toNat ∧
      ∀ t, m.toNat < t → t < offset.toNat → ∃ b, string[t]? = some b ∧ Utf8.Trail b := by
  obtain ⟨m, hlt, hscan, -, hpassed⟩ := scanBack_spec (Bits.toNat_pos hne) hlength
  have hm : (UInt64.ofNat m).toNat = m := by
    have := offset.toNat_lt
    rw [UInt64.toNat_ofNat', Nat.mod_eq_of_lt (by omega)]
  refine ⟨.ofNat m, UInt64.lt_iff_toNat_lt.mpr ?_, ?_, ?_⟩ <;> rw [hm]
  · exact hlt
  · exact hscan
  · exact hpassed

/-- **A step back undoes a step forward** that is whole, whatever stands around the sequence. -/
theorem utf8Decrement_utf8Increment (hwhole : ¬ CutOff string length offset)
    (h : utf8Increment string length offset value = some (.none, offset', v)) (value' : UInt32) :
    utf8Decrement string offset' value' = some (.none, offset, v) := by
  obtain ⟨-, hfit, -⟩ := utf8Increment_within hwhole h
  obtain ⟨q, hstands, hend, rfl⟩ := exists_standsAt_of_increment hwhole h
  exact hstands.decrement hfit hend value'

/-- Where a step forward leads without an exception, a step back leads back from, to the same
value, whatever is in the variable for it. -/
def Undone (string : List UInt8) (length offset : UInt64) (value : UInt32) : Prop :=
  ∀ offset' v, utf8Increment string length offset value = some (.none, offset', v) →
    ∀ value', utf8Decrement string offset' value' = some (.none, offset, v)

/-- A step back that succeeds and moves is to where a step forward with the offset as the length
comes back from, with the same value; one that fails leaves the offset. -/
def DecrementSound (string : List UInt8) (offset : UInt64) (value : UInt32) : Prop :=
  ∃ exception newOffset newValue,
    utf8Decrement string offset value = some (exception, newOffset, newValue) ∧
    (exception = .none → newOffset ≠ offset → ∀ value',
      utf8Increment string offset newOffset value' = some (.none, offset, newValue)) ∧
    (exception ≠ .none → newOffset = offset)

/-- Before the offset stand an accepted sequence and, after it, trail bytes that are not of it. -/
def StrayTrails (string : List UInt8) (offset : UInt64) : Prop :=
  ∃ (before : List UInt8) (q : Utf8Sequence) (stray : List UInt8),
    string.take offset.toNat = before ++ q.bytes ++ stray ∧ stray ≠ [] ∧
      ∀ b ∈ stray, isUtf8TrailByte b = true

/-- Before the offset stand a lead byte and, after it, fewer trail bytes than it announces. -/
def CutOffBefore (string : List UInt8) (offset : UInt64) : Prop :=
  ∃ (before : List UInt8) (lead : UInt8) (trails : List UInt8),
    string.take offset.toNat = before ++ lead :: trails ∧
      trails.length + 1 < Utf8.leadLength lead ∧ ∀ b ∈ trails, isUtf8TrailByte b = true

/-- The bytes from one place to another are trail bytes. -/
theorem forall_trail_iff {k n : Nat} (hn : n ≤ string.length) :
    (∀ b ∈ (string.take n).drop k, isUtf8TrailByte b = true) ↔
      ∀ t, k ≤ t → t < n → ∃ b, string[t]? = some b ∧ Utf8.Trail b := by
  constructor
  · intro htrail t hlo hhi
    have hget : string[t]? = some string[t] := List.getElem?_eq_getElem (by omega)
    refine ⟨_, hget, (isUtf8TrailByte_iff _).mp (htrail _ (List.mem_of_getElem? (i := t - k) ?_))⟩
    rw [List.getElem?_drop, Nat.add_sub_cancel' hlo, List.getElem?_take_of_lt hhi, hget]
  · intro htrail b hb
    obtain ⟨i, hi⟩ := List.mem_iff_getElem?.mp hb
    rw [List.getElem?_drop] at hi
    have hlt : k + i < n := by
      have := (List.getElem?_eq_some_iff.mp hi).1
      rw [List.length_take] at this
      omega
    rw [List.getElem?_take_of_lt hlt] at hi
    obtain ⟨b', hget, hb'⟩ := htrail (k + i) (Nat.le_add_right k i) hlt
    obtain rfl := Option.some.inj (hi.symm.trans hget)
    exact (isUtf8TrailByte_iff b).mpr hb'

/-- Stray trail bytes, by offsets. -/
theorem strayTrails_iff (hlength : offset.toNat ≤ string.length) : StrayTrails string offset ↔
    ∃ (q : Utf8Sequence) (m : UInt64), q.StandsAt string offset m ∧
      m.toNat + q.bytes.length < offset.toNat ∧
      ∀ t, m.toNat + q.bytes.length ≤ t → t < offset.toNat →
        ∃ b, string[t]? = some b ∧ Utf8.Trail b := by
  have hsplit := List.take_append_drop offset.toNat string
  have hlen : (string.take offset.toNat).length = offset.toNat := by
    rw [List.length_take, Nat.min_eq_left hlength]
  have hlt := offset.toNat_lt
  constructor
  · rintro ⟨before, q, stray, htake, hne, htrail⟩
    have hcount : before.length + q.bytes.length + stray.length = offset.toNat := by
      rw [← hlen, htake, List.length_append, List.length_append]
    have hpos := List.length_pos_of_ne_nil hne
    have hm : (UInt64.ofNat before.length).toNat = before.length := by
      rw [UInt64.toNat_ofNat', Nat.mod_eq_of_lt (by omega)]
    have hstray : stray = (string.take offset.toNat).drop (before.length + q.bytes.length) := by
      rw [htake, ← List.length_append, List.drop_left]
    rw [hstray] at htrail
    refine ⟨q, .ofNat before.length, ⟨?_, ?_⟩, ?_, ?_⟩ <;> rw [hm]
    · refine ⟨stray ++ string.drop offset.toNat, ?_⟩
      conv_rhs => rw [← hsplit, htake]
      rw [List.append_assoc, List.append_assoc, List.drop_left]
    · omega
    · omega
    · exact (forall_trail_iff hlength).mp htrail
  · rintro ⟨q, m, ⟨hpre, hfit⟩, hlt', hstray⟩
    obtain ⟨rest, hrest⟩ := hpre
    refine ⟨string.take m.toNat, q, (string.take offset.toNat).drop (m.toNat + q.bytes.length),
      ?_, ?_, (forall_trail_iff hlength).mpr hstray⟩
    · have hq : q.bytes = (string.drop m.toNat).take q.bytes.length := by
        rw [← hrest, List.take_left]
      conv_lhs => rw [← List.take_append_drop (m.toNat + q.bytes.length)
        (string.take offset.toNat)]
      rw [List.take_take, Nat.min_eq_left (Nat.le_of_lt hlt'), List.take_add, ← hq]
    · rw [← List.length_pos_iff, List.length_drop, hlen]
      omega

/-- A sequence that the offset cuts off, by offsets. -/
theorem cutOffBefore_iff (hlength : offset.toNat ≤ string.length) : CutOffBefore string offset ↔
    ∃ m : UInt64, m.toNat < offset.toNat ∧ CutOff string offset m ∧
      ∀ t, m.toNat + 1 ≤ t → t < offset.toNat → ∃ b, string[t]? = some b ∧ Utf8.Trail b := by
  have hlen : (string.take offset.toNat).length = offset.toNat := by
    rw [List.length_take, Nat.min_eq_left hlength]
  have hlt := offset.toNat_lt
  constructor
  · rintro ⟨before, lead, trails, htake, hshort, htrail⟩
    have hcount : before.length + (trails.length + 1) = offset.toNat := by
      rw [← hlen, htake, List.length_append, List.length_cons]
    have hm : (UInt64.ofNat before.length).toNat = before.length := by
      rw [UInt64.toNat_ofNat', Nat.mod_eq_of_lt (by omega)]
    have hlead : string[before.length]? = some lead := by
      rw [← List.getElem?_take_of_lt (j := offset.toNat) (by omega), htake,
        List.getElem?_append_right (Nat.le_refl _), Nat.sub_self]
      rfl
    have htrails : trails = (string.take offset.toNat).drop (before.length + 1) := by
      rw [htake, ← List.drop_drop, List.drop_left]
      rfl
    rw [htrails] at htrail
    refine ⟨.ofNat before.length, ?_, (cutOff_iff (hm.symm ▸ hlead)).mpr ⟨?_, ?_⟩, ?_⟩
    · omega
    · omega
    · omega
    · rw [hm]
      exact (forall_trail_iff hlength).mp htrail
  · rintro ⟨m, hlt', ⟨lead, hlead, hne, hout⟩, htrail⟩
    have hget : (string.take offset.toNat)[m.toNat]? = some lead := by
      rw [List.getElem?_take_of_lt hlt', hlead]
    obtain ⟨hin, hget⟩ := List.getElem?_eq_some_iff.mp hget
    refine ⟨(string.take offset.toNat).take m.toNat, lead,
      (string.take offset.toNat).drop (m.toNat + 1), ?_, ?_, (forall_trail_iff hlength).mpr htrail⟩
    · rw [← hget, ← List.drop_eq_getElem_cons hin, List.take_append_drop]
    · rw [List.length_drop, hlen]
      omega

/-- Behind a byte that is no trail byte and trail bytes after it, the scan stops at the byte. -/
theorem scanBack_of_trails {m n : Nat} {lead : UInt8} (hlt : m < n)
    (hlead : string[m]? = some lead) (hnot : ¬ Utf8.Trail lead)
    (htrail : ∀ t, m + 1 ≤ t → t < n → ∃ b, string[t]? = some b ∧ Utf8.Trail b) :
    scanBack string n = some m := by
  obtain ⟨k, rfl⟩ := Nat.exists_eq_add_of_lt hlt
  exact scanBack_eq (.inr ⟨lead, hlead, hnot⟩) fun t hlo hhi => htrail t hlo (by omega)

/-- What a step forward does where a sound step back has led. -/
theorem DecrementSound.forward {m : UInt64} (hsound : DecrementSound string offset value)
    (hrun : utf8Decrement string offset value = some (.none, m, v)) (hlt : m.toNat < offset.toNat) :
    utf8Increment string offset m value = some (.none, offset, v) := by
  obtain ⟨exception, newOffset, newValue, hrun', hforward, -⟩ := hsound
  obtain ⟨rfl, heq⟩ := Prod.mk.inj (Option.some.inj (hrun'.symm.trans hrun))
  obtain ⟨rfl, rfl⟩ := Prod.mk.inj heq
  refine hforward rfl ?_ value
  rintro rfl
  exact Nat.lt_irrefl _ hlt

/-- Behind stray trail bytes a step back is not undone: the step forward ends where they start. -/
theorem DecrementSound.not_strayTrails (hsound : DecrementSound string offset value)
    (hlength : offset.toNat ≤ string.length) : ¬ StrayTrails string offset := by
  rw [strayTrails_iff hlength]
  rintro ⟨q, m, hstands, hlt, hstray⟩
  have hne : offset ≠ 0 := by
    rintro rfl
    exact absurd hlt (Nat.not_lt_zero _)
  have hscan : scanBack string offset.toNat = some m.toNat :=
    hstands.scanBack (Nat.le_of_lt hlt) hstray
  have hincrement := q.increment value hstands.1 hstands.2 hlength
  have hdecrement := utf8Decrement_eq hne hscan hincrement
  rw [if_pos rfl] at hdecrement
  have hforward := hsound.forward hdecrement (by omega)
  rw [hincrement] at hforward
  have hend := (Prod.mk.inj (Prod.mk.inj (Option.some.inj hforward)).2).1
  have := offset.toNat_lt
  rw [← hend, UInt64.toNat_add, UInt64.toNat_ofNat'] at hlt
  omega

/-- Nor is one over a sequence that is cut off, where the step forward stays. -/
theorem DecrementSound.not_cutOffBefore (hsound : DecrementSound string offset value)
    (hlength : offset.toNat ≤ string.length) : ¬ CutOffBefore string offset := by
  rw [cutOffBefore_iff hlength]
  rintro ⟨m, hlt, hcut, htrail⟩
  have hne : offset ≠ 0 := by
    rintro rfl
    exact absurd hlt (Nat.not_lt_zero _)
  obtain ⟨lead, hlead, hannounced, -⟩ := id hcut
  have hscan := scanBack_of_trails hlt hlead (not_trail_of_leadLength hannounced) htrail
  have hdecrement := utf8Decrement_eq hne hscan (utf8Increment_cutOff hcut value)
  rw [if_pos rfl] at hdecrement
  have hforward := hsound.forward hdecrement hlt
  rw [utf8Increment_cutOff hcut] at hforward
  have hend := (Prod.mk.inj (Prod.mk.inj (Option.some.inj hforward)).2).1
  exact Nat.lt_irrefl _ (hend ▸ hlt)

end Hologine.Text
