import NetBlocks.Lib.ByteMemory
import NetBlocks.Lib.OnesComplement
import Mathlib.Algebra.Order.Ring.Nat

/-
  The checksum of an IP header on a little-endian machine,
  and that a header with its checksum stored adds up to the
  largest number.

  Main declarations:
    * `doIpChecksum`
    * `ChecksumVerifies` and `doIpChecksum_verifies`
-/

namespace NetBlocks

open ByteMemory

------------------------------------------------------------
-- Words
------------------------------------------------------------

/- Read through an `unsigned short*`. -/
def loadShort
    (mem : Memory)
    (addr : Nat) : BitVec 16 :=
  BitVec.ofNat 16 (load mem addr 2)

/- Write through an `unsigned short*`. -/
def storeShort
    (mem : Memory)
    (addr : Nat)
    (value : BitVec 16) : Memory :=
  store mem addr 2 value.toNat

/- `ntohs`, which swaps the two bytes -/
def ntohs
    (value : BitVec 16) : BitVec 16 :=
  (value <<< 8) ||| (value >>> 8)

/- `htons` -/
def htons
    (value : BitVec 16) : BitVec 16 :=
  ntohs value

/- The number in two bytes, the first one counting most. -/
def bigEndianWord
    (mem : Memory)
    (addr : Nat) : Nat :=
  256 * (mem addr).toNat + (mem (addr + 1)).toNat

theorem ntohs_eq_append
    (value : BitVec 16) :
    ntohs value =
      value.setWidth 8 ++ (value >>> 8).setWidth 8 := by
  apply BitVec.eq_of_getLsbD_eq
  intro i hi
  simp only [ntohs, BitVec.getLsbD_or,
    BitVec.getLsbD_shiftLeft, BitVec.getLsbD_ushiftRight,
    BitVec.getLsbD_append, BitVec.getLsbD_setWidth]
  by_cases hLow : i < 8
  · simp [hLow]
  · have hHigh : i - 8 < 8 := by omega
    have hNone : value.getLsbD (8 + i) = false :=
      BitVec.getLsbD_of_ge _ _ (by omega)
    simp [hLow, hHigh, hi, hNone]

theorem toNat_ntohs
    (value : BitVec 16) :
    (ntohs value).toNat =
      256 * (value.toNat % 256) + value.toNat / 256 := by
  have hLt := value.isLt
  have hShift : value.toNat >>> 8 = value.toNat / 256 :=
    Nat.shiftRight_eq_div_pow _ _
  rw [ntohs_eq_append, BitVec.toNat_append,
    BitVec.toNat_setWidth, BitVec.toNat_setWidth,
    BitVec.toNat_ushiftRight, hShift,
    Nat.mod_eq_of_lt (by omega : value.toNat / 256 < 2 ^ 8),
    Nat.shiftLeft_eq, Nat.mul_comm,
    ← Nat.two_pow_add_eq_or_of_lt (by omega)]

/- A word read on the machine and swapped is big-endian. -/
theorem toNat_ntohs_loadShort
    (mem : Memory)
    (addr : Nat) :
    (ntohs (loadShort mem addr)).toNat =
      bigEndianWord mem addr := by
  have hFirst := (mem addr).isLt
  have hSecond := (mem (addr + 1)).isLt
  rw [toNat_ntohs, loadShort, BitVec.toNat_ofNat]
  simp only [load, bigEndianWord]
  omega

theorem bigEndianWord_le
    (mem : Memory)
    (addr : Nat) :
    bigEndianWord mem addr ≤ 0xffff := by
  have hFirst := (mem addr).isLt
  have hSecond := (mem (addr + 1)).isLt
  unfold bigEndianWord
  omega

/- A word stored swapped is big-endian in memory. -/
theorem bigEndianWord_storeShort_self
    (mem : Memory)
    (addr : Nat)
    (value : BitVec 16) :
    bigEndianWord (storeShort mem addr (htons value)) addr =
      value.toNat := by
  have hLt := value.isLt
  have hSwap := toNat_ntohs value
  have hShift : ∀ n : Nat, n >>> 8 = n / 256 :=
    fun n => Nat.shiftRight_eq_div_pow n 8
  have hFirst : addr ≤ addr ∧ addr < addr + 2 := by omega
  have hSecond : addr ≤ addr + 1 ∧ addr + 1 < addr + 2 := by
    omega
  have hOne : addr + 1 - addr = 1 := by omega
  rw [bigEndianWord, storeShort, htons, store, store,
    if_pos hFirst, if_pos hSecond, hOne, Nat.sub_self, hSwap,
    Nat.mul_zero, Nat.shiftRight_zero, Nat.mul_one, hShift,
    BitVec.toNat_ofNat, BitVec.toNat_ofNat]
  have hHigh : value.toNat / 256 < 256 := by omega
  have hLow : value.toNat % 256 < 256 :=
    Nat.mod_lt _ (by decide)
  have hWhole := Nat.mod_add_div value.toNat 256
  generalize value.toNat / 256 = high at hHigh hWhole ⊢
  generalize value.toNat % 256 = low at hLow hWhole ⊢
  have hDiv : (256 * low + high) / 256 = low := by omega
  have hMod : (256 * low + high) % 2 ^ 8 = high := by omega
  rw [hDiv, hMod, Nat.mod_eq_of_lt hLow]
  omega

theorem bigEndianWord_storeShort_ne
    (mem : Memory)
    {addr other : Nat}
    (value : BitVec 16)
    (hApart : other + 2 ≤ addr ∨ addr + 2 ≤ other) :
    bigEndianWord (storeShort mem addr value) other =
      bigEndianWord mem other := by
  rw [bigEndianWord, storeShort,
    store_of_outside _ _ (by omega),
    store_of_outside _ _ (by omega), bigEndianWord]

------------------------------------------------------------
-- The Checksum
------------------------------------------------------------

/- The accumulator of `nb__do_ip_checksum` after `n` rounds. -/
def checksumLoop
    (mem : Memory)
    (p : Nat) : Nat → BitVec 32
| 0 => 0
| n + 1 =>
    checksumLoop mem p n +
      (ntohs (loadShort mem (p + 2 * n))).setWidth 32

/- `lower + upper`, the two halves of the accumulator -/
def foldHalves
    (checksum : BitVec 32) : BitVec 32 :=
  let lower := checksum &&& 0xffff
  let upper := (checksum >>> 16) &&& 0xffff
  lower + upper

/- `nb__do_ip_checksum` -/
def doIpChecksum
    (mem : Memory)
    (p len : Nat) : BitVec 16 :=
  let checksum := checksumLoop mem p (len / 2)
  let checksum := foldHalves (foldHalves checksum)
  let lower := (checksum &&& 0xffff) ^^^ 0xffff
  htons (lower.setWidth 16)

/- The first `n` words from an address on. -/
def bigEndianWords
    (mem : Memory)
    (p n : Nat) : List Nat :=
  (List.range n).map (fun i => bigEndianWord mem (p + 2 * i))

theorem sum_bigEndianWords_succ
    (mem : Memory)
    (p n : Nat) :
    (bigEndianWords mem p (n + 1)).sum =
      (bigEndianWords mem p n).sum +
        bigEndianWord mem (p + 2 * n) := by
  simp [bigEndianWords, List.range_succ]

theorem sum_bigEndianWords_le
    (mem : Memory)
    (p n : Nat) :
    (bigEndianWords mem p n).sum ≤ n * 0xffff := by
  induction n with
  | zero => simp [bigEndianWords]
  | succ n ih =>
      have hWord := bigEndianWord_le mem (p + 2 * n)
      rw [sum_bigEndianWords_succ]
      omega

/- 65537 words are the most the accumulator has room for. -/
theorem toNat_checksumLoop
    (mem : Memory)
    (p : Nat)
    {n : Nat}
    (hLe : n ≤ 65537) :
    (checksumLoop mem p n).toNat =
      (bigEndianWords mem p n).sum := by
  induction n with
  | zero => rfl
  | succ n ih =>
      have hSum := sum_bigEndianWords_le mem p (n + 1)
      have hWord := toNat_ntohs_loadShort mem (p + 2 * n)
      have hLt := (ntohs (loadShort mem (p + 2 * n))).isLt
      rw [sum_bigEndianWords_succ] at hSum ⊢
      rw [checksumLoop, BitVec.toNat_add, ih (by omega),
        BitVec.toNat_setWidth, hWord]
      omega

theorem toNat_foldHalves
    (checksum : BitVec 32) :
    (foldHalves checksum).toNat =
      OnesComplement.fold 0xffff checksum.toNat := by
  have hLt := checksum.isLt
  have hMask : (65535 : BitVec 32).toNat = 2 ^ 16 - 1 := rfl
  have hLow : checksum.toNat &&& 2 ^ 16 - 1 =
      checksum.toNat % 2 ^ 16 := Nat.and_two_pow_sub_one_eq_mod _ _
  have hShift : checksum.toNat >>> 16 =
      checksum.toNat / 2 ^ 16 := Nat.shiftRight_eq_div_pow _ _
  have hHigh : checksum.toNat / 2 ^ 16 &&& 2 ^ 16 - 1 =
      checksum.toNat / 2 ^ 16 := by
    rw [Nat.and_two_pow_sub_one_eq_mod]
    omega
  simp only [foldHalves, BitVec.toNat_add, BitVec.toNat_and,
    BitVec.toNat_ushiftRight, hMask, hLow, hShift, hHigh,
    OnesComplement.fold]
  omega

/- `lower ^ 0xffffu` turns the lower half around. -/
theorem lower_xor_eq
    (checksum : BitVec 32) :
    ((checksum &&& 0xffff) ^^^ 0xffff).setWidth 16 =
      ~~~ checksum.setWidth 16 := by
  have hMask : (0xffff : BitVec 32) =
    BitVec.ofNat 32 (2 ^ 16 - 1) := rfl
  apply BitVec.eq_of_getLsbD_eq
  intro i hi
  have hWide : i < 32 := by omega
  have hBit : (0xffff : BitVec 32).getLsbD i = true := by
    rw [hMask, BitVec.getLsbD_ofNat,
      Nat.testBit_two_pow_sub_one]
    simp [hi, hWide]
  rw [BitVec.getLsbD_setWidth, BitVec.getLsbD_xor,
    BitVec.getLsbD_and, hBit, BitVec.getLsbD_not,
    BitVec.getLsbD_setWidth]
  simp [hi]

/- The result is the complement of the folded sum. -/
theorem doIpChecksum_eq
    (mem : Memory)
    (p : Nat)
    {len : Nat}
    (hLe : len ≤ 2 * 65537) :
    ∃ value : BitVec 16,
      doIpChecksum mem p len = htons value ∧
        value.toNat = 0xffff - OnesComplement.fold 0xffff
          (OnesComplement.fold 0xffff
            (bigEndianWords mem p (len / 2)).sum) := by
  have hSum := toNat_checksumLoop mem p
    (by omega : len / 2 ≤ 65537)
  have hFolded : (foldHalves (foldHalves
      (checksumLoop mem p (len / 2)))).toNat =
        OnesComplement.fold 0xffff (OnesComplement.fold 0xffff
          (bigEndianWords mem p (len / 2)).sum) := by
    rw [toNat_foldHalves, toNat_foldHalves, hSum]
  refine ⟨_, rfl, ?_⟩
  have hTotal := sum_bigEndianWords_le mem p (len / 2)
  have hFits := OnesComplement.fold_fold_le
    (m := 0xffff)
    (n := (bigEndianWords mem p (len / 2)).sum) (by omega)
  rw [lower_xor_eq, BitVec.toNat_not, BitVec.toNat_setWidth,
    hFolded, Nat.mod_eq_of_lt (by omega)]

------------------------------------------------------------
-- Verifying
------------------------------------------------------------

/-
  The accumulator does not overflow in any round, folding it
  twice leaves no carry, and with the result stored at word
  `k` the big-endian words add up to the largest number, with
  carries added around.
-/
structure ChecksumVerifies
    (mem : Memory)
    (p len k : Nat) : Prop where
  accumulates : ∀ n ≤ len / 2,
    (checksumLoop mem p n).toNat =
      (bigEndianWords mem p n).sum
  folded :
    (foldHalves (foldHalves
      (checksumLoop mem p (len / 2)))).toNat ≤ 0xffff
  verifies :
    OnesComplement.sum 0xffff
      (bigEndianWords
        (storeShort mem (p + 2 * k) (doIpChecksum mem p len))
        p (len / 2)) = 0xffff

/- Storing at a word that was zero adds to the sum. -/
theorem sum_bigEndianWords_storeShort
    {mem : Memory}
    {p k : Nat}
    (value : BitVec 16)
    (hZero : bigEndianWord mem (p + 2 * k) = 0)
    (n : Nat) :
    (bigEndianWords
        (storeShort mem (p + 2 * k) (htons value)) p n).sum =
      (bigEndianWords mem p n).sum +
        if k < n then value.toNat else 0 := by
  induction n with
  | zero => rfl
  | succ n ih =>
      rw [sum_bigEndianWords_succ, sum_bigEndianWords_succ, ih]
      by_cases hEq : n = k
      · subst hEq
        rw [bigEndianWord_storeShort_self, hZero,
          if_neg (Nat.lt_irrefl n), if_pos (Nat.lt_succ_self n)]
      · rw [bigEndianWord_storeShort_ne mem _ (by omega)]
        by_cases hLt : k < n
        · rw [if_pos hLt, if_pos (by omega)]
          exact Nat.add_right_comm _ _ _
        · rw [if_neg hLt, if_neg (by omega)]
          exact Nat.add_right_comm _ _ _

/- The checksum of any buffer verifies. -/
theorem doIpChecksum_verifies
    {mem : Memory}
    {p len k : Nat}
    (hLe : len ≤ 2 * 65537)
    (hWord : k < len / 2)
    (hZero : bigEndianWord mem (p + 2 * k) = 0) :
    ChecksumVerifies mem p len k := by
  have hTotal := sum_bigEndianWords_le mem p (len / 2)
  rcases doIpChecksum_eq mem p hLe with
    ⟨value, hResult, hValue⟩
  refine ⟨fun n hn => toNat_checksumLoop mem p (by omega),
    ?_, ?_⟩
  · rw [toNat_foldHalves, toNat_foldHalves,
      toNat_checksumLoop mem p (by omega)]
    exact OnesComplement.fold_fold_le (by omega)
  · have hAll : ∀ x ∈ bigEndianWords
        (storeShort mem (p + 2 * k) (htons value)) p (len / 2),
        x ≤ 0xffff := by
      intro x hx
      rcases List.mem_map.mp hx with ⟨i, -, rfl⟩
      exact bigEndianWord_le _ _
    rw [hResult, OnesComplement.sum_eq (by decide) hAll,
      sum_bigEndianWords_storeShort value hZero,
      if_pos hWord, hValue]
    exact OnesComplement.norm_complement (by decide)
      (by omega)

end NetBlocks
