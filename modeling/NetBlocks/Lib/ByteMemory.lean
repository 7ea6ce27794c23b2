import Mathlib.Algebra.Group.Nat.Defs
import Mathlib.Tactic.Common
import Mathlib.Logic.Function.Basic

/-
  Byte memories, seen as sequences of bits: bit `k` is bit
  `k % 8` of byte `k / 8`, as on a little-endian machine.

  Main declarations:
    * `slice` and `testBit_slice`
    * `load` and `testBit_load`
    * `store` and `bit_store`
    * `window` and `patch`
    * `bytesAt`
    * `eq_of_bit_eq`
-/

namespace ByteMemory

/- A memory holds a byte at each address. -/
abbrev Memory := Nat → BitVec 8

------------------------------------------------------------
-- Bits
------------------------------------------------------------

/- The bit at a bit address. -/
def bit
    (mem : Memory)
    (k : Nat) : Bool :=
  (mem (k / 8)).getLsbD (k % 8)

theorem bit_byte
    (mem : Memory)
    (a : Nat)
    {i : Nat}
    (hLt : i < 8) :
    bit mem (8 * a + i) = (mem a).getLsbD i := by
  have hDiv : (8 * a + i) / 8 = a := by omega
  have hMod : (8 * a + i) % 8 = i := by omega
  rw [bit, hDiv, hMod]

/- Bytes with the same bits are equal. -/
theorem byte_eq_of_bit_eq
    {mem mem' : Memory}
    {a : Nat}
    (hBits : ∀ i, i < 8 →
      bit mem' (8 * a + i) = bit mem (8 * a + i)) :
    mem' a = mem a := by
  ext i hi
  have hBit := hBits i hi
  rw [bit_byte _ _ hi, bit_byte _ _ hi] at hBit
  simpa [BitVec.getLsbD_eq_getElem hi] using hBit

/- Memories with the same bits are equal. -/
theorem eq_of_bit_eq
    {mem mem' : Memory}
    (hBits : ∀ k, bit mem' k = bit mem k) :
    mem' = mem := by
  funext a
  exact byte_eq_of_bit_eq (fun i _ => hBits (8 * a + i))

/- The number with the `n` bits from bit address `k` on. -/
def slice
    (mem : Memory)
    (k : Nat) : Nat → Nat
| 0 => 0
| n + 1 => (bit mem k).toNat + 2 * slice mem (k + 1) n

theorem testBit_slice
    (mem : Memory)
    (k n i : Nat) :
    (slice mem k n).testBit i =
      (decide (i < n) && bit mem (k + i)) := by
  induction n generalizing k i with
  | zero => simp [slice]
  | succ n ih =>
      have hBit : (bit mem k).toNat < 2 ^ 1 :=
        Bool.toNat_lt _
      rw [slice, Nat.add_comm,
        show (2 : Nat) = 2 ^ 1 from rfl,
        Nat.testBit_two_pow_mul_add _ hBit]
      cases i with
      | zero =>
          rw [if_pos (by decide)]
          cases bit mem k <;> rfl
      | succ i =>
          have hIndex : k + 1 + (i + 1 - 1) = k + (i + 1) := by
            omega
          have hBound : i + 1 - 1 < n ↔ i + 1 < n + 1 := by
            omega
          rw [if_neg (by omega), ih, hIndex]
          simp only [hBound]

------------------------------------------------------------
-- Loading
------------------------------------------------------------

/- The number in the `n` bytes at address `a`. -/
def load
    (mem : Memory)
    (a : Nat) : Nat → Nat
| 0 => 0
| n + 1 => (mem a).toNat + 256 * load mem (a + 1) n

theorem load_lt
    (mem : Memory)
    (a n : Nat) :
    load mem a n < 2 ^ (8 * n) := by
  induction n generalizing a with
  | zero => simp [load]
  | succ n ih =>
      have hByte : (mem a).toNat < 256 := (mem a).isLt
      have hRest := ih (a + 1)
      have hPow : 2 ^ (8 * (n + 1)) = 256 * 2 ^ (8 * n) := by
        rw [Nat.mul_succ, Nat.pow_add, Nat.mul_comm]
      rw [load, hPow]
      omega

/- The bits of a loaded number are those of the memory. -/
theorem testBit_load
    (mem : Memory)
    (a n i : Nat) :
    (load mem a n).testBit i =
      (decide (i < 8 * n) && bit mem (8 * a + i)) := by
  induction n generalizing a i with
  | zero => simp [load]
  | succ n ih =>
      have hByte : (mem a).toNat < 2 ^ 8 := (mem a).isLt
      rw [load, Nat.add_comm,
        show (256 : Nat) = 2 ^ 8 from rfl,
        Nat.testBit_two_pow_mul_add _ hByte]
      by_cases hLow : i < 8
      · have hIn : i < 8 * (n + 1) := by omega
        rw [if_pos hLow, bit_byte _ _ hLow]
        simp [hIn, BitVec.testBit_toNat]
      · have hIndex : 8 * (a + 1) + (i - 8) = 8 * a + i := by
          omega
        have hBound : i - 8 < 8 * n ↔ i < 8 * (n + 1) := by
          omega
        rw [if_neg hLow, ih, hIndex]
        simp only [hBound]

/- What is loaded depends on the bytes loaded. -/
theorem load_congr
    {mem mem' : Memory}
    {a n : Nat}
    (hBytes : ∀ k, a ≤ k → k < a + n → mem' k = mem k) :
    load mem' a n = load mem a n := by
  induction n generalizing a with
  | zero => rfl
  | succ n ih =>
      rw [load, load, hBytes a (by omega) (by omega),
        ih (fun k hLe hLt => hBytes k (by omega) (by omega))]

------------------------------------------------------------
-- Storing
------------------------------------------------------------

/-
  Store a number in the `n` bytes at address `a`; its higher
  bits are lost.
-/
def store
    (mem : Memory)
    (a n v : Nat) : Memory :=
  fun k =>
    if a ≤ k ∧ k < a + n then
      BitVec.ofNat 8 (v >>> (8 * (k - a)))
    else
      mem k

theorem store_of_outside
    (mem : Memory)
    {a n k : Nat}
    (v : Nat)
    (hOutside : k < a ∨ a + n ≤ k) :
    store mem a n v k = mem k := by
  rw [store, if_neg (by omega)]

/- Only the bits of the stored bytes change. -/
theorem bit_store
    (mem : Memory)
    (a n v k : Nat) :
    bit (store mem a n v) k =
      if 8 * a ≤ k ∧ k < 8 * (a + n) then
        v.testBit (k - 8 * a)
      else
        bit mem k := by
  rw [bit, store]
  by_cases hIn : a ≤ k / 8 ∧ k / 8 < a + n
  · have hBits : 8 * a ≤ k ∧ k < 8 * (a + n) := by omega
    have hLow : k % 8 < 8 := Nat.mod_lt _ (by decide)
    have hIndex : 8 * (k / 8 - a) + k % 8 = k - 8 * a := by
      omega
    rw [if_pos hIn, if_pos hBits, BitVec.getLsbD_ofNat,
      Nat.testBit_shiftRight, hIndex]
    simp [hLow]
  · have hBits : ¬ (8 * a ≤ k ∧ k < 8 * (a + n)) := by omega
    rw [if_neg hIn, if_neg hBits, bit]

------------------------------------------------------------
-- Windows
------------------------------------------------------------

/- The memory from an address on. -/
def window
    (mem : Memory)
    (p : Nat) : Memory :=
  fun a => mem (p + a)

/- The memory with other contents from an address on. -/
def patch
    (mem : Memory)
    (p : Nat)
    (w : Memory) : Memory :=
  fun a => if a < p then mem a else w (a - p)

/- A window that changes below a bound changes as much. -/
theorem patch_of_outside
    {mem w : Memory}
    {p n a : Nat}
    (hBound : ∀ b, n ≤ b → w b = window mem p b)
    (hOutside : a < p ∨ p + n ≤ a) :
    patch mem p w a = mem a := by
  unfold patch
  split
  · rfl
  · have hIndex : p + (a - p) = a := by omega
    rw [hBound (a - p) (by omega), window, hIndex]

/- The bytes `memcpy` copies from an address. -/
def bytesAt
    (mem : Memory)
    (a n : Nat) : List (BitVec 8) :=
  (List.range n).map (fun i => mem (a + i))

theorem length_bytesAt
    (mem : Memory)
    (a n : Nat) :
    (bytesAt mem a n).length = n := by
  simp [bytesAt]

theorem getElem?_bytesAt
    (mem : Memory)
    (a : Nat)
    {n k : Nat}
    (hLt : k < n) :
    (bytesAt mem a n)[k]? = some (mem (a + k)) := by
  simp [bytesAt, hLt]

theorem bytesAt_congr
    {mem mem' : Memory}
    {a n : Nat}
    (hBytes : ∀ k, k < n → mem' (a + k) = mem (a + k)) :
    bytesAt mem' a n = bytesAt mem a n := by
  apply List.map_congr_left
  intro k hMem
  exact hBytes k (List.mem_range.mp hMem)

end ByteMemory
