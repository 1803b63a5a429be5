import Mathlib.Data.Nat.Bitwise
import Mathlib.Tactic.IntervalCases

/-!
# Numbers as byte sequences

`toBytes n v` are the `n` least significant bytes of `v`, least significant first, and `ofBytes`
is the number such a sequence stands for. Most significant first is `List.reverse`.

* `ofBytes_toBytes`, `toBytes_ofBytes`: a number below `256 ^ n` is the number its `n` bytes stand
  for, and bytes are those of the number they stand for.
* `toBytes_reverse`: a number with the bits of another, byte by byte in reverse, has its bytes in
  reverse.
-/

namespace Hologine.Library.ByteOrder

/-- The `n` least significant bytes of `v`, least significant first. -/
def toBytes : Nat → Nat → List UInt8
  | 0, _ => []
  | n + 1, v => UInt8.ofNat v :: toBytes n (v >>> 8)

/-- The number a sequence of bytes stands for, least significant first. -/
def ofBytes : List UInt8 → Nat
  | [] => 0
  | b :: bytes => b.toNat + 256 * ofBytes bytes

@[simp] theorem length_toBytes : ∀ n v : Nat, (toBytes n v).length = n
  | 0, _ => rfl
  | n + 1, v => by rw [toBytes, List.length_cons, length_toBytes n]

theorem ofBytes_toBytes : ∀ {n v : Nat}, v < 256 ^ n → ofBytes (toBytes n v) = v
  | 0, v, h => by
    rw [Nat.pow_zero] at h
    rw [toBytes, ofBytes]
    omega
  | n + 1, v, h => by
    have hv : v >>> 8 < 256 ^ n := by
      rw [Nat.shiftRight_eq_div_pow, Nat.div_lt_iff_lt_mul (by decide)]
      rwa [Nat.pow_succ] at h
    rw [toBytes, ofBytes, ofBytes_toBytes hv, UInt8.toNat_ofNat', Nat.shiftRight_eq_div_pow]
    omega

theorem ofBytes_lt (bytes : List UInt8) : ofBytes bytes < 256 ^ bytes.length := by
  induction bytes with
  | nil => exact Nat.one_pos
  | cons byte bytes ih =>
    have hbyte := byte.toNat_lt
    rw [ofBytes, List.length_cons, Nat.pow_succ]
    omega

/-- **Bytes are those of the number they stand for.** -/
theorem toBytes_ofBytes (bytes : List UInt8) : toBytes bytes.length (ofBytes bytes) = bytes := by
  induction bytes with
  | nil => rfl
  | cons byte bytes ih =>
    have hbyte := byte.toNat_lt
    have hrest : (byte.toNat + 256 * ofBytes bytes) >>> 8 = ofBytes bytes := by
      rw [Nat.shiftRight_eq_div_pow]
      omega
    have hfirst : UInt8.ofNat (byte.toNat + 256 * ofBytes bytes) = byte := by
      rw [← UInt8.toNat_inj, UInt8.toNat_ofNat']
      omega
    rw [List.length_cons, ofBytes, toBytes, hrest, hfirst, ih]

theorem toBytes_inj {n v w : Nat} (hv : v < 256 ^ n) (hw : w < 256 ^ n)
    (h : toBytes n v = toBytes n w) : v = w := by
  rw [← ofBytes_toBytes hv, h, ofBytes_toBytes hw]

theorem getElem_toBytes : ∀ {n v k : Nat} (h : k < (toBytes n v).length),
    (toBytes n v)[k] = UInt8.ofNat (v >>> (8 * k))
  | 0, _, _, h => absurd h (by simp)
  | n + 1, v, 0, _ => rfl
  | n + 1, v, k + 1, h => by
    have hk : k < (toBytes n (v >>> 8)).length := by simpa using h
    have ih := getElem_toBytes hk
    rw [← Nat.shiftRight_add] at ih
    rw [show 8 * (k + 1) = 8 + 8 * k by omega, ← ih]
    rfl

/-- **Bits in reverse byte by byte are bytes in reverse.** -/
theorem toBytes_reverse {n v w : Nat}
    (h : ∀ i < 8 * n, w.testBit i = v.testBit (8 * (n - 1 - i / 8) + i % 8)) :
    toBytes n w = (toBytes n v).reverse := by
  refine List.ext_getElem (by simp) fun k hk hk' => ?_
  rw [length_toBytes] at hk
  rw [List.getElem_reverse, getElem_toBytes, getElem_toBytes, length_toBytes, ← UInt8.toNat_inj,
    UInt8.toNat_ofNat', UInt8.toNat_ofNat']
  refine Nat.eq_of_testBit_eq fun j => ?_
  rw [Nat.testBit_mod_two_pow, Nat.testBit_mod_two_pow, Nat.testBit_shiftRight,
    Nat.testBit_shiftRight]
  by_cases hj : j < 8
  · rw [h (8 * k + j) (by omega), show (8 * k + j) / 8 = k by omega,
      show (8 * k + j) % 8 = j by omega]
  · simp [hj]

/-- The bits of a byte-wide mask. -/
theorem testBit_byteMask (k i : Nat) :
    (0xff <<< k).testBit i = (decide (k ≤ i) && decide (i - k < 8)) := by
  rw [Nat.testBit_shiftLeft]
  exact congrArg (decide (k ≤ i) && ·) (Nat.testBit_two_pow_sub_one 8 (i - k))

end Hologine.Library.ByteOrder
