import Hologine.Library.ByteOrder

/-!
# Byte memory

A memory holds a byte at every address, and a word of `n` bytes is stored least significant byte
first. Pointers are `UInt64`, `0` being null.

* `load_store`: a word that is stored is the word that is loaded.
* `store_apply_of_outside`, `load_store_of_disjoint`: nothing else changes.
* `load_congr`: a word is what its bytes are.
* `write_comm`: writes that do not overlap commute.
* `store64_eq_iff`: a store leaves what is around it just where the word is there already.
-/

namespace Hologine.Library

open ByteOrder

/-- A byte at every address. -/
abbrev Memory := Nat → UInt8

/-- A pointer, `none` if it is null. -/
def ofPointer (p : UInt64) : Option UInt64 := if p = 0 then none else some p

theorem ofPointer_eq_some {p q : UInt64} : ofPointer p = some q ↔ p = q ∧ q ≠ 0 := by
  unfold ofPointer
  split_ifs with h0
  · exact iff_of_false nofun fun h => h.2 (h.1.symm.trans h0)
  · rw [Option.some_inj]
    exact ⟨fun h => ⟨h, h ▸ h0⟩, And.left⟩

namespace Memory

/-- The `n` bytes at an address. -/
def read (m : Memory) : Nat → Nat → List UInt8
  | _, 0 => []
  | a, n + 1 => m a :: read m (a + 1) n

/-- The memory with bytes written at an address. -/
def write (m : Memory) (a : Nat) (bytes : List UInt8) : Memory :=
  fun x => if a ≤ x then (bytes[x - a]?).getD (m x) else m x

/-- The word of `n` bytes at an address. -/
def load (n : Nat) (m : Memory) (a : Nat) : Nat := ofBytes (m.read a n)

/-- The memory with a word of `n` bytes stored at an address. -/
def store (n : Nat) (m : Memory) (a v : Nat) : Memory := m.write a (toBytes n v)

def load32 (m : Memory) (a : Nat) : UInt32 := .ofNat (load 4 m a)

def store32 (m : Memory) (a : Nat) (v : UInt32) : Memory := store 4 m a v.toNat

def load64 (m : Memory) (a : Nat) : UInt64 := .ofNat (load 8 m a)

def store64 (m : Memory) (a : Nat) (v : UInt64) : Memory := store 8 m a v.toNat

variable {m m' : Memory} {a b n k : Nat}

theorem read_congr (h : ∀ x, a ≤ x → x < a + n → m x = m' x) : m.read a n = m'.read a n := by
  induction n generalizing a with
  | zero => rfl
  | succ n ih =>
    rw [read, read, h a (Nat.le_refl a) (by omega), ih fun x hx hx' => h x (by omega) (by omega)]

/-- **Only the bytes written to change.** -/
theorem write_apply_of_outside {bytes : List UInt8} (h : b < a ∨ a + bytes.length ≤ b) :
    m.write a bytes b = m b := by
  unfold write
  split_ifs with hab
  · rw [List.getElem?_eq_none (by omega), Option.getD_none]
  · rfl

theorem write_cons_succ (m : Memory) (a : Nat) (byte : UInt8) (bytes : List UInt8) :
    ∀ x, a + 1 ≤ x → m.write a (byte :: bytes) x = m.write (a + 1) bytes x := by
  intro x hx
  rw [write, write, if_pos (by omega), if_pos hx, show x - a = x - (a + 1) + 1 by omega,
    List.getElem?_cons_succ]

/-- **What is written is read.** -/
theorem read_write (m : Memory) (a : Nat) (bytes : List UInt8) :
    (m.write a bytes).read a bytes.length = bytes := by
  induction bytes generalizing a with
  | nil => rfl
  | cons byte bytes ih =>
    have hrest : (m.write a (byte :: bytes)).read (a + 1) bytes.length = bytes := by
      rw [read_congr fun x hx _ => write_cons_succ m a byte bytes x hx, ih]
    have hfirst : m.write a (byte :: bytes) a = byte := by simp [write]
    rw [List.length_cons, read, hrest, hfirst]

/-- **A word is what its bytes are.** -/
theorem load_congr (h : ∀ x, a ≤ x → x < a + n → m x = m' x) : load n m a = load n m' a :=
  congrArg ofBytes (read_congr h)

theorem load_store {v : Nat} (h : v < 256 ^ n) : load n (store n m a v) a = v := by
  have hread := read_write m a (toBytes n v)
  rw [length_toBytes] at hread
  rw [load, store, hread, ofBytes_toBytes h]

theorem store_apply_of_outside {v : Nat} (h : b < a ∨ a + n ≤ b) : store n m a v b = m b :=
  write_apply_of_outside (by rwa [length_toBytes])

theorem load_store_of_disjoint {v : Nat} (h : b + k ≤ a ∨ a + n ≤ b) :
    load k (store n m a v) b = load k m b :=
  load_congr fun x _ _ => store_apply_of_outside (by omega)

@[simp] theorem load32_store32 (m : Memory) (a : Nat) (v : UInt32) :
    load32 (store32 m a v) a = v := by
  rw [load32, store32, load_store v.toNat_lt, UInt32.ofNat_toNat]

@[simp] theorem load64_store64 (m : Memory) (a : Nat) (v : UInt64) :
    load64 (store64 m a v) a = v := by
  rw [load64, store64, load_store v.toNat_lt, UInt64.ofNat_toNat]

theorem load64_store64_of_disjoint {v : UInt64} (h : b + 8 ≤ a ∨ a + 8 ≤ b) :
    load64 (store64 m a v) b = load64 m b :=
  congrArg UInt64.ofNat (load_store_of_disjoint h)

theorem store32_apply_of_outside {v : UInt32} (h : b < a ∨ a + 4 ≤ b) :
    store32 m a v b = m b :=
  store_apply_of_outside h

theorem store64_apply_of_outside {v : UInt64} (h : b < a ∨ a + 8 ≤ b) :
    store64 m a v b = m b :=
  store_apply_of_outside h

theorem load64_congr (h : ∀ x, a ≤ x → x < a + 8 → m x = m' x) : load64 m a = load64 m' a :=
  congrArg UInt64.ofNat (load_congr h)

theorem length_read (m : Memory) (a n : Nat) : (m.read a n).length = n := by
  induction n generalizing a with
  | zero => rfl
  | succ n ih => rw [read, List.length_cons, ih]

/-- What is read can be written. -/
theorem write_read (m : Memory) (a n : Nat) : m.write a (m.read a n) = m := by
  induction n generalizing a with
  | zero =>
    funext x
    exact write_apply_of_outside (by rw [length_read]; omega)
  | succ n ih =>
    funext x
    by_cases hx : a + 1 ≤ x
    · rw [read, write_cons_succ m a (m a) _ x hx, ih]
    · by_cases heq : x = a
      · rw [heq]
        simp [write, read]
      · exact write_apply_of_outside (by omega)

theorem store64_load64 (m : Memory) (a : Nat) : m.store64 a (m.load64 a) = m := by
  have hlength := length_read m a 8
  have hlt : load 8 m a < 2 ^ 64 := by
    have hlt := ofBytes_lt (m.read a 8)
    rw [hlength] at hlt
    exact hlt
  have hbytes := toBytes_ofBytes (m.read a 8)
  rw [hlength] at hbytes
  rw [store64, load64, UInt64.toNat_ofNat', Nat.mod_eq_of_lt hlt, store, load, hbytes, write_read]

/-- **A store leaves what is around it as it is** just where the word is there already. -/
theorem store64_eq_iff {v : UInt64} {e : Nat} (hb : b ≤ a) (he : a + 8 ≤ e)
    (h : ∀ x, b ≤ x → x < e → m' x = m x) :
    (∀ x, b ≤ x → x < e → m'.store64 a v x = m x) ↔ m.load64 a = v := by
  constructor
  · intro hsame
    rw [← load64_congr fun x hx hx' => hsame x (by omega) (by omega), load64_store64]
  · rintro rfl x hx hx'
    rw [← load64_congr fun x hx hx' => h x (by omega) (by omega), store64_load64]
    exact h x hx hx'

theorem write_apply_congr {bytes : List UInt8} (h : m b = m' b) :
    m.write a bytes b = m'.write a bytes b := by
  rw [write, write, h]

/-- **Writes that do not overlap commute.** -/
theorem write_comm {xs ys : List UInt8} (h : a + xs.length ≤ b ∨ b + ys.length ≤ a) :
    (m.write a xs).write b ys = (m.write b ys).write a xs := by
  funext x
  by_cases hx : x < b ∨ b + ys.length ≤ x
  · have hsame : m.write b ys x = m x := write_apply_of_outside hx
    rw [write_apply_of_outside hx, write_apply_congr hsame]
  · have hx' : x < a ∨ a + xs.length ≤ x := by omega
    have hsame : m.write a xs x = m x := write_apply_of_outside hx'
    rw [write_apply_of_outside hx', write_apply_congr hsame]

/-- A word that is stored elsewhere than where is written. -/
theorem write_store64_comm {v : UInt64} {bytes : List UInt8}
    (h : a + bytes.length ≤ b ∨ b + 8 ≤ a) :
    (m.write a bytes).store64 b v = (m.store64 b v).write a bytes :=
  write_comm (by rwa [length_toBytes])

end Memory

end Hologine.Library
