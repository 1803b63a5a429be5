import Mathlib.Data.List.Basic

/-!
# UTF-8 sequences, as shape and payload

The encoding of a character is Lean's own `String.utf8EncodeChar`. This file says which byte
sequences it produces, in the two terms a decoder works with: the `Shape` of a sequence (a first
byte that announces the length, then that many trail bytes less one) and its `payload` (the value
bits of its bytes, most significant first).

* `encode_eq_iff`: a sequence is the encoding of `c` iff it has the shape, its payload is `c`, and
  it is as long as the encoding of `c`, so not longer than needed.
* `exists_encode_eq_iff`: a sequence encodes some character iff it has the shape, its payload is a
  scalar value, and no shorter sequence has that payload.
-/

namespace Hologine.Library.Utf8

/-- A trail byte, `0b10xxxxxx`. -/
def Trail (b : UInt8) : Prop := 0x80 ≤ b.toNat ∧ b.toNat < 0xc0

instance (b : UInt8) : Decidable (Trail b) := inferInstanceAs (Decidable (_ ∧ _))

/-- The length a first byte announces; `0` if it starts no sequence. -/
def leadLength (b : UInt8) : Nat :=
  if b.toNat < 0x80 then 1
  else if b.toNat < 0xc0 then 0
  else if b.toNat < 0xe0 then 2
  else if b.toNat < 0xf0 then 3
  else if b.toNat < 0xf8 then 4
  else 0

/-- The first byte's range, for each length it may announce. -/
theorem leadLength_range (b : UInt8) :
    (leadLength b = 0 ∧ (0x80 ≤ b.toNat ∧ b.toNat < 0xc0 ∨ 0xf8 ≤ b.toNat)) ∨
    (leadLength b = 1 ∧ b.toNat < 0x80) ∨
    (leadLength b = 2 ∧ 0xc0 ≤ b.toNat ∧ b.toNat < 0xe0) ∨
    (leadLength b = 3 ∧ 0xe0 ≤ b.toNat ∧ b.toNat < 0xf0) ∨
    (leadLength b = 4 ∧ 0xf0 ≤ b.toNat ∧ b.toNat < 0xf8) := by
  unfold leadLength
  split_ifs <;> omega

theorem leadLength_eq_two_iff (b : UInt8) :
    leadLength b = 2 ↔ 0xc0 ≤ b.toNat ∧ b.toNat < 0xe0 := by
  have := leadLength_range b
  omega

theorem leadLength_eq_three_iff (b : UInt8) :
    leadLength b = 3 ↔ 0xe0 ≤ b.toNat ∧ b.toNat < 0xf0 := by
  have := leadLength_range b
  omega

theorem leadLength_eq_four_iff (b : UInt8) :
    leadLength b = 4 ↔ 0xf0 ≤ b.toNat ∧ b.toNat < 0xf8 := by
  have := leadLength_range b
  omega

/-- The first byte announces the length of the sequence and the others are trail bytes. -/
def Shape : List UInt8 → Prop
  | [] => False
  | a :: l => leadLength a = l.length + 1 ∧ ∀ b ∈ l, Trail b

/-- The value bits of a sequence. -/
def payload : List UInt8 → Nat
  | [a] => a.toNat
  | [a, b] => a.toNat % 32 * 64 + b.toNat % 64
  | [a, b, c] => a.toNat % 16 * 4096 + b.toNat % 64 * 64 + c.toNat % 64
  | [a, b, c, d] => a.toNat % 8 * 262144 + b.toNat % 64 * 4096 + c.toNat % 64 * 64 + d.toNat % 64
  | _ => 0

/-- The number of bytes the value `v` needs. -/
def size (v : Nat) : Nat :=
  if v < 0x80 then 1 else if v < 0x800 then 2 else if v < 0x10000 then 3 else 4

/-- A scalar value: at most `U+10FFFF` and no surrogate. -/
def Scalar (v : Nat) : Prop := v ≤ 0x10ffff ∧ ¬ (0xd800 ≤ v ∧ v ≤ 0xdfff)

instance (v : Nat) : Decidable (Scalar v) := inferInstanceAs (Decidable (_ ∧ _))

theorem scalar_toNat (c : Char) : Scalar c.toNat := by
  have h := c.valid
  unfold Scalar
  rcases h with h | h
  · exact ⟨by change c.toNat < 0xd800 at h; omega, by change c.toNat < 0xd800 at h; omega⟩
  · change 0xdfff < c.toNat ∧ c.toNat < 0x110000 at h
    omega

/-- Every scalar value is a character. -/
theorem exists_toNat_eq {v : Nat} (h : Scalar v) : ∃ c : Char, c.toNat = v := by
  have hv : v.isValidChar := by
    unfold Scalar at h
    unfold Nat.isValidChar
    omega
  exact ⟨Char.ofNatAux v hv, rfl⟩

theorem length_encode (c : Char) : (String.utf8EncodeChar c).length = size c.toNat := by
  unfold String.utf8EncodeChar size Char.toNat
  simp only
  split_ifs <;> simp <;> omega

/-- The encoding of `c` has the shape of a sequence and `c` as its payload. -/
theorem shape_payload_encode (c : Char) :
    Shape (String.utf8EncodeChar c) ∧ payload (String.utf8EncodeChar c) = c.toNat := by
  have hs := scalar_toNat c
  unfold Scalar at hs
  unfold String.utf8EncodeChar Char.toNat at *
  simp only
  split_ifs with h1 h2 h3
  · simp only [Shape, payload, leadLength, UInt8.toNat_ofNat', List.length_nil, List.not_mem_nil,
      false_implies, implies_true, and_true]
    refine ⟨?_, by omega⟩
    split_ifs <;> omega
  all_goals
    simp only [Shape, payload, leadLength, Trail, UInt8.toNat_ofNat', List.length_cons,
      List.length_nil, List.forall_mem_cons, List.not_mem_nil, false_implies, implies_true,
      and_true]
    refine ⟨⟨?_, by omega⟩, by omega⟩
    split_ifs <;> omega

/-- Two sequences of one shape, length and payload are equal. -/
theorem shape_payload_inj {l l' : List UInt8} (h : Shape l) (h' : Shape l')
    (hlen : l.length = l'.length) (hp : payload l = payload l') : l = l' := by
  match l, l', hlen with
  | [], _, _ => exact h.elim
  | [a], [a'], _ => exact congrArg (· :: []) (UInt8.toNat_inj.mp hp)
  | [a, b], [a', b'], _ =>
    simp only [Shape, Trail, payload, List.length_cons, List.length_nil, List.forall_mem_cons,
      List.not_mem_nil, false_implies, implies_true, and_true] at h h' hp
    have ha := (leadLength_eq_two_iff a).mp h.1
    have ha' := (leadLength_eq_two_iff a').mp h'.1
    simp only [List.cons.injEq, ← UInt8.toNat_inj, and_true]
    omega
  | [a, b, c], [a', b', c'], _ =>
    simp only [Shape, Trail, payload, List.length_cons, List.length_nil, List.forall_mem_cons,
      List.not_mem_nil, false_implies, implies_true, and_true] at h h' hp
    have ha := (leadLength_eq_three_iff a).mp h.1
    have ha' := (leadLength_eq_three_iff a').mp h'.1
    simp only [List.cons.injEq, ← UInt8.toNat_inj, and_true]
    have hc : c.toNat = c'.toNat := by omega
    have hb : b.toNat = b'.toNat := by omega
    exact ⟨by omega, hb, hc⟩
  | [a, b, c, d], [a', b', c', d'], _ =>
    simp only [Shape, Trail, payload, List.length_cons, List.length_nil, List.forall_mem_cons,
      List.not_mem_nil, false_implies, implies_true, and_true] at h h' hp
    have ha := (leadLength_eq_four_iff a).mp h.1
    have ha' := (leadLength_eq_four_iff a').mp h'.1
    simp only [List.cons.injEq, ← UInt8.toNat_inj, and_true]
    have hd : d.toNat = d'.toNat := by omega
    have hc : c.toNat = c'.toNat := by omega
    have hb : b.toNat = b'.toNat := by omega
    exact ⟨by omega, hb, hc, hd⟩
  | a :: _ :: _ :: _ :: _ :: _, _, _ =>
    have ha := leadLength_range a
    have hl := h.1
    simp only [List.length_cons] at hl
    omega

/-- **The encoding of `c`, recognised**: the shape, the payload and the length. -/
theorem encode_eq_iff (c : Char) (bytes : List UInt8) :
    String.utf8EncodeChar c = bytes ↔
      Shape bytes ∧ payload bytes = c.toNat ∧ bytes.length = size c.toNat := by
  obtain ⟨hs, hp⟩ := shape_payload_encode c
  constructor
  · rintro rfl
    exact ⟨hs, hp, length_encode c⟩
  · rintro ⟨hs', hp', hlen⟩
    exact shape_payload_inj hs hs' ((length_encode c).trans hlen.symm) (hp.trans hp'.symm)

/-- **The sequences that encode some character.** -/
theorem exists_encode_eq_iff (bytes : List UInt8) :
    (∃ c, String.utf8EncodeChar c = bytes) ↔
      Shape bytes ∧ Scalar (payload bytes) ∧ bytes.length = size (payload bytes) := by
  constructor
  · rintro ⟨c, h⟩
    obtain ⟨hs, hp, hlen⟩ := (encode_eq_iff c bytes).mp h
    exact ⟨hs, hp ▸ scalar_toNat c, hp ▸ hlen⟩
  · rintro ⟨hs, hv, hlen⟩
    obtain ⟨c, hc⟩ := exists_toNat_eq hv
    exact ⟨c, (encode_eq_iff c bytes).mpr ⟨hs, hc.symm, hc ▸ hlen⟩⟩

end Hologine.Library.Utf8
