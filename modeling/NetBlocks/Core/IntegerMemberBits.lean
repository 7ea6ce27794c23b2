import NetBlocks.Core.IntegerMember

/-
  What the bit-range helpers of an integer member read and
  write, bit by bit.

  Main declarations:
    * `extractBitsLower_spec` and `extractBitsUpper_spec`
    * `setBitsLower_spec` and `setBitsUpper_spec`
-/

namespace NetBlocks

open ByteMemory

namespace IntType

theorem bits_pos
    (ty : IntType) :
    0 < ty.bits := by
  unfold bits bytes
  positivity

theorem bits_le
    (ty : IntType) :
    ty.bits ≤ 64 := by
  unfold bits bytes
  have hLog : ty.logBytes.val ≤ 3 := by omega
  have hPow := Nat.pow_le_pow_right (n := 2) (by decide) hLog
  omega

end IntType

namespace IntegerMember

------------------------------------------------------------
-- Masks and Words
------------------------------------------------------------

theorem getValueMask_spec
    (nBits : Nat)
    (hLt : nBits < 64) :
    ∃ mask, getValueMask nBits = .ok mask ∧
      ∀ i, mask.getLsbD i = decide (i < nBits) := by
  refine ⟨_, if_pos hLt, fun i => ?_⟩
  have hPow : 2 ^ nBits < 2 ^ 64 :=
    Nat.pow_lt_pow_right (by decide) hLt
  have hPos : 0 < 2 ^ nBits := Nat.two_pow_pos nBits
  have hNat : ((1 : BitVec 64) <<< nBits - 1).toNat =
      2 ^ nBits - 1 := by
    simp only [BitVec.toNat_sub, BitVec.toNat_shiftLeft,
      BitVec.ofNat_eq_ofNat, BitVec.toNat_ofNat,
      Nat.shiftLeft_eq]
    omega
  rw [BitVec.getLsbD, hNat, Nat.testBit_two_pow_sub_one]

/- The bits read through a `T*`. -/
theorem getLsbD_readType
    (ty : IntType)
    (mem : Memory)
    (addr : Nat)
    {i : Nat}
    (hLt : i < 64) :
    (readType ty mem addr).getLsbD i =
      if i < ty.bits then
        bit mem (8 * addr + i)
      else
        ty.signed && bit mem (8 * addr + (ty.bits - 1)) := by
  have hPos := ty.bits_pos
  have hBits : ∀ k, k < ty.bits →
      (BitVec.ofNat ty.bits (load mem addr ty.bytes)).getLsbD
        k = bit mem (8 * addr + k) := by
    intro k hk
    have hIn : k < 8 * ty.bytes := hk
    rw [BitVec.getLsbD_ofNat, testBit_load]
    simp [hk, hIn]
  unfold readType
  cases hSigned : ty.signed with
  | true =>
      simp only [if_true, BitVec.getLsbD_signExtend, hLt,
        decide_true, Bool.true_and]
      split
      · next hIn => exact hBits i hIn
      · rw [BitVec.msb_eq_getLsbD_last,
          hBits _ (by omega)]
  | false =>
      simp only [Bool.false_eq_true, if_false, hLt,
        BitVec.getLsbD_setWidth, decide_true,
        Bool.true_and, Bool.false_and]
      split
      · next hIn => exact hBits i hIn
      · next hOut =>
          exact BitVec.getLsbD_of_ge _ _ (by omega)

/- The bits written through a `T*`. -/
theorem bit_writeType
    (ty : IntType)
    (mem : Memory)
    (addr : Nat)
    (value : BitVec 64)
    (k : Nat) :
    bit (writeType ty mem addr value) k =
      if 8 * addr ≤ k ∧ k < 8 * addr + ty.bits then
        value.getLsbD (k - 8 * addr)
      else
        bit mem k := by
  rw [writeType, bit_store, IntType.bits, Nat.mul_add]
  rfl

------------------------------------------------------------
-- Extracting
------------------------------------------------------------

theorem extractBitsLower_spec
    (mem : Memory)
    (bitStart n : Nat)
    (hByte : bitStart % 8 + n ≤ 8) :
    ∃ x, extractBitsLower mem bitStart (bitStart + n) =
        .ok x ∧
      ∀ i, x.getLsbD i =
        (decide (i < n) && bit mem (bitStart + i)) := by
  have hShift : ∀ i, bitStart % 8 + i < 8 →
      (mem (bitStart / 8)).getLsbD (bitStart % 8 + i) =
        bit mem (bitStart + i) := by
    intro i hi
    rw [← bit_byte _ _ hi]
    congr 1
    omega
  have hNum : bitStart + n - bitStart = n := by omega
  unfold extractBitsLower
  rw [hNum, if_neg (by omega)]
  by_cases hFull : bitStart % 8 + n = 8
  · refine ⟨mem (bitStart / 8) >>> (bitStart % 8), ?_, ?_⟩
    · simp [hFull]
    · intro i
      rw [BitVec.getLsbD_ushiftRight]
      by_cases hIn : i < n
      · simp [hIn, hShift i (by omega)]
      · rw [BitVec.getLsbD_of_ge _ _ (by omega)]
        simp [hIn]
  · rcases getValueMask_spec n (by omega) with
      ⟨mask, hMask, hBits⟩
    refine ⟨mem (bitStart / 8) >>> (bitStart % 8) &&&
      mask.setWidth 8, ?_, ?_⟩
    · simp [hFull, hMask]
    · intro i
      rw [BitVec.getLsbD_and, BitVec.getLsbD_ushiftRight,
        BitVec.getLsbD_setWidth, hBits]
      by_cases hIn : i < n
      · have hLow : i < 8 := by omega
        simp [hIn, hLow, hShift i (by omega)]
      · simp [hIn]

theorem extractBitsUpper_spec
    (ty : IntType)
    (mem : Memory)
    (bitStart n : Nat)
    (hAligned : bitStart % 8 = 0)
    (hWidth : n ≤ ty.bits) :
    ∃ x, extractBitsUpper ty mem bitStart (bitStart + n) =
        .ok x ∧
      ∀ i, i < 64 → x.getLsbD i =
        if i < n then
          bit mem (bitStart + i)
        else
          (decide (n = ty.bits) && ty.signed) &&
            bit mem (bitStart + (ty.bits - 1)) := by
  have hNum : bitStart + n - bitStart = n := by omega
  have hStart : 8 * (bitStart / 8) = bitStart := by omega
  have hType := ty.bits_le
  unfold extractBitsUpper
  rw [hNum, if_neg (by omega)]
  by_cases hFull : n = ty.bits
  · refine ⟨readType ty mem (bitStart / 8), by simp [hFull],
      ?_⟩
    intro i hi
    rw [getLsbD_readType _ _ _ hi, hStart, hFull]
    simp
  · rcases getValueMask_spec n (by omega) with
      ⟨mask, hMask, hBits⟩
    refine ⟨readType ty mem (bitStart / 8) &&& mask,
      by simp [hFull, hMask], ?_⟩
    intro i hi
    rw [BitVec.getLsbD_and, getLsbD_readType _ _ _ hi,
      hStart, hBits]
    by_cases hIn : i < n
    · have hInType : i < ty.bits := by omega
      simp [hIn, hInType]
    · simp [hIn, hFull]

------------------------------------------------------------
-- Setting
------------------------------------------------------------

/-
  The bits of one byte that `set_bits_lower` clears, for an
  offset of `bitStart`.
-/
def clearedBits
    (bitStart : Nat) : Nat :=
  min 8 (bitStart % 8 + min bitStart 8)

theorem setBitsLower_spec
    (mem : Memory)
    (bitStart n : Nat)
    (val : BitVec 8)
    (hByte : n ≤ 8)
    (hShift : bitStart < 64) :
    ∃ mem', setBitsLower mem bitStart (bitStart + n) val =
        .ok mem' ∧
      ∀ k, bit mem' k =
        if k / 8 = bitStart / 8 then
          (!(decide (bitStart % 8 ≤ k % 8 ∧
              k % 8 < clearedBits bitStart)) && bit mem k) ||
            (decide (bitStart % 8 ≤ k % 8) &&
              val.getLsbD (k % 8 - bitStart % 8))
        else
          bit mem k := by
  rcases getValueMask_spec _ hShift with ⟨mask, hMask, hBits⟩
  have hNum : bitStart + n - bitStart = n := by omega
  let cleared : BitVec 8 :=
    ~~~(mask.setWidth 8 <<< (bitStart % 8)) &&&
      mem (bitStart / 8)
  refine ⟨Function.update mem (bitStart / 8)
    (cleared ||| val <<< (bitStart % 8)), ?_, ?_⟩
  · unfold setBitsLower
    rw [hNum, if_neg (by omega)]
    simp [hMask, cleared]
  · intro k
    have hLow : k % 8 < 8 := Nat.mod_lt _ (by decide)
    by_cases hSame : k / 8 = bitStart / 8
    · rw [if_pos hSame, bit, bit, hSame,
        Function.update_self]
      simp only [cleared, BitVec.getLsbD_or,
        BitVec.getLsbD_and, BitVec.getLsbD_not,
        BitVec.getLsbD_shiftLeft, BitVec.getLsbD_setWidth,
        hBits, hLow, decide_true, Bool.true_and]
      by_cases hFrom : bitStart % 8 ≤ k % 8
      · have hBelow : ¬ k % 8 < bitStart % 8 := by omega
        have hIn : k % 8 - bitStart % 8 < 8 := by omega
        have hCleared : k % 8 - bitStart % 8 < bitStart ↔
            k % 8 < clearedBits bitStart := by
          unfold clearedBits
          omega
        simp [hFrom, hBelow, hIn, hCleared]
      · have hBelow : k % 8 < bitStart % 8 := by omega
        simp [hFrom, hBelow]
    · rw [if_neg hSame, bit, bit,
        Function.update_of_ne hSame]

theorem setBitsUpper_spec
    (ty : IntType)
    (mem : Memory)
    (bitStart n : Nat)
    (val : BitVec 64)
    (hAligned : bitStart % 8 = 0)
    (hWidth : n ≤ ty.bits) :
    ∃ mem', setBitsUpper ty mem bitStart (bitStart + n) val =
        .ok mem' ∧
      ∀ k, bit mem' k =
        if bitStart ≤ k ∧ k < bitStart + ty.bits then
          (decide (bitStart + n ≤ k) && bit mem k) ||
            val.getLsbD (k - bitStart)
        else
          bit mem k := by
  have hNum : bitStart + n - bitStart = n := by omega
  have hStart : 8 * (bitStart / 8) = bitStart := by omega
  have hType := ty.bits_le
  unfold setBitsUpper
  rw [hNum, if_neg (by omega)]
  by_cases hFull : n = ty.bits
  · refine ⟨writeType ty mem (bitStart / 8) val,
      by simp [hFull], ?_⟩
    intro k
    rw [bit_writeType, hStart]
    split
    · next hIn =>
        have hNot : ¬ bitStart + n ≤ k := by omega
        simp [hNot]
    · rfl
  · rcases getValueMask_spec n (by omega) with
      ⟨mask, hMask, hBits⟩
    refine ⟨_, by simp only [hMask, if_neg hFull]; rfl, ?_⟩
    intro k
    rw [bit_writeType, hStart]
    split
    · next hIn =>
        have hBit : k - bitStart < 64 := by omega
        have hInType : k - bitStart < ty.bits := by omega
        rw [BitVec.getLsbD_or, BitVec.getLsbD_and,
          BitVec.getLsbD_not, hBits,
          getLsbD_readType _ _ _ hBit, hStart,
          if_pos hInType]
        have hAddr : bitStart + (k - bitStart) = k := by omega
        by_cases hOut : bitStart + n ≤ k
        · have hMasked : ¬ k - bitStart < n := by omega
          simp [hOut, hMasked, hBit, hAddr]
        · have hMasked : k - bitStart < n := by omega
          simp [hOut, hMasked]
    · rfl

end IntegerMember

end NetBlocks
