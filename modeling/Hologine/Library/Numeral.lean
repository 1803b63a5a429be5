import Mathlib.Data.Nat.Digits.Defs

/-!
# Numerals

Numbers in text, in a base of up to 16, most significant digit first.

* `readDigits_numeral`: a numeral that stands behind zeros and before what is no digit is read as
  its number, up to there.
-/

namespace Hologine.Library.Numeral

/-- The character of a digit. -/
def digitChar (upper : Bool) (d : ℕ) : UInt8 :=
  .ofNat (if d < 10 then 48 + d else if upper then 55 + d else 87 + d)

/-- The digit of a character, which may be a letter of either case. -/
def digitValue (c : UInt8) : Option ℕ :=
  if 48 ≤ c ∧ c ≤ 57 then some (c.toNat - 48)
  else if 65 ≤ c ∧ c ≤ 70 then some (c.toNat - 55)
  else if 97 ≤ c ∧ c ≤ 102 then some (c.toNat - 87)
  else none

/-- A character is a digit in a base. -/
def IsDigit (base : ℕ) (c : UInt8) : Prop := ∃ d ∈ digitValue c, d < base

instance (base : ℕ) (c : UInt8) : Decidable (IsDigit base c) :=
  Option.decidableExistsMem (digitValue c)

/-- A number in a base. -/
def numeral (base : ℕ) (upper : Bool) (n : ℕ) : List UInt8 :=
  if n = 0 then [digitChar upper 0] else ((Nat.digits base n).map (digitChar upper)).reverse

/-- The number of the digits at the front of a text behind those of `n`, and the rest of it. -/
def readDigits (base : ℕ) : ℕ → List UInt8 → ℕ × List UInt8
  | n, [] => (n, [])
  | n, c :: text =>
    if IsDigit base c then readDigits base (base * n + (digitValue c).getD 0) text
    else (n, c :: text)

variable {base d n : ℕ} {upper : Bool} {rest : List UInt8}

theorem digitValue_digitChar : ∀ upper, ∀ d < 16, digitValue (digitChar upper d) = some d := by
  decide

theorem isDigit_digitChar (hbase : base ≤ 16) (hd : d < base) (upper : Bool) :
    IsDigit base (digitChar upper d) :=
  ⟨d, digitValue_digitChar upper d (by omega), hd⟩

theorem readDigits_digit (hbase : base ≤ 16) (hd : d < base) (upper : Bool) (n : ℕ)
    (rest : List UInt8) :
    readDigits base n (digitChar upper d :: rest) = readDigits base (base * n + d) rest := by
  rw [readDigits, if_pos (isDigit_digitChar hbase hd upper),
    digitValue_digitChar upper d (by omega)]
  rfl

/-- **Digits are read one by one.** -/
theorem readDigits_digits (hbase : base ≤ 16) (upper : Bool) (n : ℕ) {l : List ℕ}
    (hl : ∀ d ∈ l, d < base) (rest : List UInt8) :
    readDigits base n ((l.map (digitChar upper)).reverse ++ rest) =
      readDigits base (base ^ l.length * n + Nat.ofDigits base l) rest := by
  induction l generalizing rest with
  | nil => simp
  | cons d l ih =>
    have hd := hl d List.mem_cons_self
    rw [List.map_cons, List.reverse_cons, List.append_assoc,
      ih (fun d hd => hl d (List.mem_cons_of_mem _ hd)), List.singleton_append,
      readDigits_digit hbase hd, Nat.ofDigits_cons, List.length_cons]
    congr 1
    ring

theorem readDigits_zeros (hbase : base ≤ 16) (hpos : 0 < base) (upper : Bool) (k : ℕ)
    (rest : List UInt8) :
    readDigits base 0 (List.replicate k (digitChar upper 0) ++ rest) = readDigits base 0 rest := by
  induction k with
  | zero => rfl
  | succ k ih =>
    rw [List.replicate_succ, List.cons_append, readDigits_digit hbase hpos, Nat.mul_zero,
      Nat.zero_add, ih]

/-- Reading stops at what is no digit. -/
theorem readDigits_of_stops (hrest : ∀ c ∈ rest.head?, ¬ IsDigit base c) (n : ℕ) :
    readDigits base n rest = (n, rest) := by
  cases rest with
  | nil => rfl
  | cons c rest => exact if_neg (hrest c rfl)

/-- **A numeral is read back**, behind zeros too. -/
theorem readDigits_numeral (hbase : base ≤ 16) (hone : 1 < base) (upper : Bool) (k n : ℕ)
    (hrest : ∀ c ∈ rest.head?, ¬ IsDigit base c) :
    readDigits base 0 (List.replicate k (digitChar upper 0) ++ (numeral base upper n ++ rest)) =
      (n, rest) := by
  rw [readDigits_zeros hbase (by omega), numeral]
  split_ifs with hn
  · rw [List.singleton_append, readDigits_digit hbase (by omega), readDigits_of_stops hrest, hn]
    rfl
  · rw [readDigits_digits hbase upper 0 fun d hd => Nat.digits_lt_base hone hd,
      readDigits_of_stops hrest, Nat.ofDigits_digits, Nat.mul_zero, Nat.zero_add]

theorem numeral_ne_nil (base : ℕ) (upper : Bool) (n : ℕ) : numeral base upper n ≠ [] := by
  unfold numeral
  split_ifs with hn
  · exact List.cons_ne_nil _ _
  · simp [Nat.digits_ne_nil_iff_ne_zero.mpr hn]

/-- A numeral is of digits only. -/
theorem isDigit_of_mem_numeral (hbase : base ≤ 16) (hone : 1 < base) {c : UInt8}
    (h : c ∈ numeral base upper n) : IsDigit base c := by
  unfold numeral at h
  split_ifs at h with hn
  · rw [List.mem_singleton.mp h]
    exact isDigit_digitChar hbase (by omega) upper
  · obtain ⟨d, hd, rfl⟩ := List.mem_map.mp (List.mem_reverse.mp h)
    exact isDigit_digitChar hbase (Nat.digits_lt_base hone hd) upper

end Hologine.Library.Numeral
