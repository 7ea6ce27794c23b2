import NetBlocks.Core.IntegerMemberBits

/-
  Reading and writing a whole member: which bits `get_integer`
  collects, which bits `set_integer` changes, and for which
  offsets the two belong together.

  Main declarations:
    * `IntegerMember.InRange` and `IntegerMember.CanEncode`
    * `getBits_spec` and `setBits_spec`
    * `getInteger_setInteger`
-/

namespace NetBlocks

open ByteMemory Except

namespace IntegerMember

------------------------------------------------------------
-- Collecting Bits
------------------------------------------------------------

/- Whether a value is read with the sign of its type. -/
def signExtends
    (m : IntegerMember)
    (offset : Nat) : Bool :=
  decide (offset % 8 = 0) &&
    (decide (m.bitSize = m.type.bits) && m.type.signed)

/- `get_integer` collects the bits of the member. -/
theorem getBits_spec
    (m : IntegerMember)
    (offset : Nat)
    (mem : Memory) :
    ∃ x, m.getBits offset mem = .ok x ∧
      ∀ i, i < 64 → x.getLsbD i =
        if i < m.bitSize then
          bit mem (offset + i)
        else
          m.signExtends offset &&
            bit mem (offset + (m.type.bits - 1)) := by
  have hSize := m.bitSize_le
  unfold getBits
  by_cases hAligned : offset % 8 = 0
  · rcases extractBitsUpper_spec m.type mem _ _ hAligned hSize
      with ⟨x, hExtract, hBits⟩
    refine ⟨x, by simp [hAligned, hExtract], ?_⟩
    intro i hi
    rw [hBits i hi]
    simp [signExtends, hAligned]
  · have hExtends : m.signExtends offset = false := by
      simp [signExtends, hAligned]
    let lb := m.lowerBits offset
    have hLb : lb = min (8 - offset % 8) m.bitSize := rfl
    rcases extractBitsLower_spec mem offset lb (by omega)
      with ⟨lower, hLower, hLowerBits⟩
    rw [if_pos hAligned]
    change ∃ x, (extractBitsLower mem offset (offset + lb) >>=
      _) = _ ∧ _
    rw [hLower, ok_bind]
    by_cases hMore : offset + m.bitSize - (offset + lb) = 0
    · refine ⟨lower.setWidth 64,
        if_neg (not_not.mpr hMore), ?_⟩
      intro i hi
      have hAll : lb = m.bitSize := by omega
      rw [BitVec.getLsbD_setWidth, hLowerBits, hAll,
        hExtends]
      by_cases hIn : i < m.bitSize <;> simp [hIn, hi]
    · have hEnd : offset + m.bitSize =
          offset + lb + (m.bitSize - lb) := by omega
      have hNotFull : m.bitSize - lb ≠ m.type.bits := by
        omega
      rcases extractBitsUpper_spec m.type mem
          (offset + lb) (m.bitSize - lb)
          (by omega) (by omega) with
        ⟨upper, hUpper, hUpperBits⟩
      refine ⟨lower.setWidth 64 ||| upper <<< lb, ?_, ?_⟩
      · rw [if_pos hMore, hEnd, hUpper]
        rfl
      · intro i hi
        rw [BitVec.getLsbD_or, BitVec.getLsbD_setWidth,
          BitVec.getLsbD_shiftLeft, hLowerBits, hExtends]
        by_cases hLow : i < lb
        · have hIn : i < m.bitSize := by omega
          simp [hi, hLow, hIn]
        · have hIndex : offset + lb + (i - lb) =
              offset + i := by omega
          rw [hUpperBits _ (by omega), hIndex]
          by_cases hIn : i < m.bitSize
          · have hInUpper : i - lb < m.bitSize - lb := by
              omega
            simp [hi, hLow, hIn, hInUpper]
          · have hOutUpper : ¬ i - lb < m.bitSize - lb := by
              omega
            simp [hi, hLow, hIn, hOutUpper, hNotFull]

/- `get_integer` adds the base to the bits collected. -/
theorem getInteger_eq
    {m : IntegerMember}
    {offset : Nat}
    {mem : Memory}
    {x : BitVec 64}
    (hBits : m.getBits offset mem = .ok x) :
    m.getInteger offset mem = .ok (x + m.rangeBase) := by
  unfold getInteger
  rw [hBits, ok_bind]
  split
  · rfl
  · next hBase =>
      rw [not_not.mp hBase]
      simp

/- What is read depends on the bits of the member. -/
theorem getInteger_congr
    (m : IntegerMember)
    (offset : Nat)
    {mem mem' : Memory}
    (hBits : ∀ k, offset ≤ k → k < offset + m.bitSize →
      bit mem' k = bit mem k) :
    m.getInteger offset mem' = m.getInteger offset mem := by
  rcases m.getBits_spec offset mem with ⟨x, hX, hXBits⟩
  rcases m.getBits_spec offset mem' with ⟨x', hX', hXBits'⟩
  have hSame : x' = x := by
    apply BitVec.eq_of_getLsbD_eq
    intro i hi
    rw [hXBits i hi, hXBits' i hi]
    split
    · exact hBits _ (by omega) (by omega)
    · cases hExtends : m.signExtends offset with
      | false => rfl
      | true =>
          have hPos := m.type.bits_pos
          have hFull : m.bitSize = m.type.bits := by
            simp only [signExtends, Bool.and_eq_true,
              decide_eq_true_eq] at hExtends
            exact hExtends.2.1
          rw [hBits _ (by omega) (by omega)]
  rw [getInteger_eq hX, getInteger_eq hX', hSame]

------------------------------------------------------------
-- Spreading Bits
------------------------------------------------------------

/-
  The bits of a value beyond the member that would be
  written with it are zero.
-/
def HighClear
    (m : IntegerMember)
    (offset : Nat)
    (val : BitVec 64) : Prop :=
  ∀ i, m.bitSize ≤ i →
    (offset % 8 = 0 → i < m.type.bits) →
      val.getLsbD i = false

/-
  `set_bits_lower` clears the bits of the member, and no
  other ones.
-/
def ClearsOwn
    (m : IntegerMember)
    (offset : Nat) : Prop :=
  offset % 8 = 0 ∨
    (offset < 64 ∧
      clearedBits offset = offset % 8 + m.lowerBits offset)

instance (m : IntegerMember) (offset : Nat) :
    Decidable (m.ClearsOwn offset) := by
  unfold ClearsOwn
  infer_instance

/- `set_integer` writes the bits of the member. -/
theorem setBits_spec
    {m : IntegerMember}
    {offset : Nat}
    (mem : Memory)
    {val : BitVec 64}
    (hClears : m.ClearsOwn offset)
    (hHigh : m.HighClear offset val) :
    ∃ mem', m.setBits offset mem val = .ok mem' ∧
      ∀ k, bit mem' k =
        if offset ≤ k ∧ k < offset + m.bitSize then
          val.getLsbD (k - offset)
        else
          bit mem k := by
  have hSize := m.bitSize_le
  unfold setBits
  by_cases hAligned : offset % 8 = 0
  · rcases setBitsUpper_spec m.type mem _ _ val hAligned hSize
      with ⟨mem', hSet, hBits⟩
    refine ⟨mem', by simp [hAligned, hSet], ?_⟩
    intro k
    rw [hBits k]
    by_cases hIn : offset ≤ k ∧ k < offset + m.bitSize
    · have hInType :
          offset ≤ k ∧ k < offset + m.type.bits := by omega
      have hNotBeyond : ¬ offset + m.bitSize ≤ k := by omega
      simp [hIn, hInType, hNotBeyond]
    · rw [if_neg hIn]
      split
      · have hBeyond : offset + m.bitSize ≤ k := by omega
        rw [hHigh (k - offset) (by omega)
          (fun _ => by omega)]
        simp [hBeyond]
      · rfl
  · rcases hClears with hZero | ⟨hShift, hCleared⟩
    · exact absurd hZero hAligned
    let lb := m.lowerBits offset
    have hLb : lb = min (8 - offset % 8) m.bitSize := rfl
    have hClearedLb :
        clearedBits offset = offset % 8 + lb := hCleared
    rcases getValueMask_spec lb (by omega) with
      ⟨mask, hMask, hMaskBits⟩
    rcases setBitsLower_spec mem offset lb
        ((val &&& mask).setWidth 8) (by omega) hShift with ⟨mem₁, hLower, hLowerBits⟩
    -- the lower part is what the member has in its first byte
    have hFirst : ∀ k, bit mem₁ k =
        if offset ≤ k ∧ k < offset + lb then
          val.getLsbD (k - offset)
        else
          bit mem k := by
      intro k
      rw [hLowerBits k, hClearedLb]
      by_cases hSame : k / 8 = offset / 8
      · rw [if_pos hSame]
        by_cases hFrom : offset % 8 ≤ k % 8
        · have hIndex : k % 8 - offset % 8 = k - offset := by
            omega
          have hSmall : k - offset < 8 := by omega
          rw [hIndex, BitVec.getLsbD_setWidth,
            BitVec.getLsbD_and, hMaskBits]
          by_cases hIn : k % 8 < offset % 8 + lb
          · have hMember : offset ≤ k ∧ k < offset + lb := by
              omega
            have hMasked : k - offset < lb := by omega
            rw [if_pos hMember]
            simp [hFrom, hIn, hSmall, hMasked]
          · have hOther :
                ¬ (offset ≤ k ∧ k < offset + lb) := by omega
            have hMasked : ¬ k - offset < lb := by omega
            rw [if_neg hOther]
            simp [hFrom, hIn, hSmall, hMasked]
        · have hOther :
              ¬ (offset ≤ k ∧ k < offset + lb) := by omega
          rw [if_neg hOther]
          simp [hFrom]
      · have hOther : ¬ (offset ≤ k ∧ k < offset + lb) := by
          omega
        rw [if_neg hSame, if_neg hOther]
    rw [if_pos hAligned]
    change ∃ mem', (getValueMask lb >>= _) = _ ∧ _
    rw [hMask, ok_bind]
    change ∃ mem', (setBitsLower mem offset (offset + lb)
      ((val &&& mask).setWidth 8) >>= _) = _ ∧ _
    rw [hLower, ok_bind]
    by_cases hMore : offset + m.bitSize - (offset + lb) = 0
    · refine ⟨mem₁, if_neg (not_not.mpr hMore), ?_⟩
      have hAll : lb = m.bitSize := by omega
      rw [← hAll]
      exact hFirst
    · have hEnd : offset + m.bitSize =
          offset + lb + (m.bitSize - lb) := by omega
      rcases setBitsUpper_spec m.type mem₁
          (offset + lb) (m.bitSize - lb)
          (val >>> lb) (by omega) (by omega) with
        ⟨mem', hUpper, hUpperBits⟩
      refine ⟨mem', ?_, ?_⟩
      · rw [if_pos hMore, hEnd]
        exact hUpper
      · intro k
        rw [hUpperBits k, hFirst k, BitVec.getLsbD_ushiftRight]
        by_cases hIn : offset ≤ k ∧ k < offset + m.bitSize
        · rw [if_pos hIn]
          by_cases hLow : k < offset + lb
          · have hNotType : ¬ (offset + lb ≤ k ∧
                k < offset + lb + m.type.bits) := by omega
            simp [hIn, hLow]
          · have hInType : offset + lb ≤ k ∧
                k < offset + lb + m.type.bits := by omega
            have hNotBeyond :
                ¬ offset + lb + (m.bitSize - lb) ≤ k := by
              omega
            have hIndex : lb + (k - (offset + lb)) =
                k - offset := by omega
            rw [if_pos hInType, hIndex]
            simp [hNotBeyond]
        · rw [if_neg hIn]
          have hOther : ¬ (offset ≤ k ∧ k < offset + lb) := by
            omega
          rw [if_neg hOther]
          split
          · have hBeyond :
                offset + lb + (m.bitSize - lb) ≤ k := by omega
            have hIndex : lb + (k - (offset + lb)) =
                k - offset := by omega
            rw [hIndex, hHigh (k - offset) (by omega)
              (fun hZero => absurd hZero hAligned)]
            simp [hBeyond]
          · rfl

------------------------------------------------------------
-- Values in Range
------------------------------------------------------------

/- The values of a signed type without a custom range. -/
def IsFullSigned
    (m : IntegerMember) : Prop :=
  m.range = none ∧ m.type.signed = true ∧
    m.bitSize = m.type.bits

instance (m : IntegerMember) : Decidable m.IsFullSigned := by
  unfold IsFullSigned
  infer_instance

/-
  The values a member is for: those of its custom range, or
  those of its type or width.
-/
def InRange
    (m : IntegerMember)
    (v : BitVec 64) : Prop :=
  match m.range with
  | some (base, cap) =>
      ∃ z : Int, base ≤ z ∧ z < cap ∧ v = BitVec.ofInt 64 z
  | none =>
      if m.IsFullSigned then
        v = (v.setWidth m.type.bits).signExtend 64
      else
        v.toNat < 2 ^ m.bitSize

/-
  A value in range is stored as a number that fits, or it is
  a sign-extended value of the type.
-/
theorem InRange.stored
    {m : IntegerMember}
    {v : BitVec 64}
    (hRange : m.InRange v) :
    (v - m.rangeBase).toNat < 2 ^ m.bitSize ∨
      m.IsFullSigned := by
  unfold InRange at hRange
  cases hCustom : m.range with
  | none =>
      rw [hCustom] at hRange
      simp only at hRange
      split at hRange
      · next hFull => exact Or.inr hFull
      · left
        simpa [rangeBase, hCustom] using hRange
  | some bounds =>
      rcases bounds with ⟨base, cap⟩
      rw [hCustom] at hRange
      rcases hRange with ⟨z, hBase, hCap, rfl⟩
      left
      have hSize := m.range_le base cap hCustom
      have hWide : (2 : Int) ^ m.bitSize ≤ 2 ^ 64 := by
        exact_mod_cast Nat.pow_le_pow_right (by decide)
          (m.bitSize_le.trans m.type.bits_le)
      have hSub : BitVec.ofInt 64 z - BitVec.ofInt 64 base =
          BitVec.ofInt 64 (z - base) := by
        rw [Int.sub_eq_add_neg, BitVec.ofInt_add,
          BitVec.ofInt_neg, BitVec.sub_eq_add_neg]
      have hCast : ((2 ^ m.bitSize : Nat) : Int) =
          2 ^ m.bitSize := Nat.cast_pow 2 m.bitSize
      have hMod : (z - base) % (2 ^ 64 : Nat) = z - base := by
        apply Int.emod_eq_of_lt (by omega)
        have hPow : ((2 ^ 64 : Nat) : Int) = 2 ^ 64 := by
          norm_cast
        omega
      simp only [rangeBase, hCustom]
      rw [hSub, BitVec.toNat_ofInt, hMod]
      omega

/- The smallest value of a range is stored as zero. -/
theorem inRange_rangeBase
    (m : IntegerMember) :
    m.InRange m.rangeBase := by
  unfold InRange rangeBase
  cases hCustom : m.range with
  | none =>
      simp only
      split
      · apply BitVec.eq_of_getLsbD_eq
        intro i hi
        simp [BitVec.getLsbD_signExtend, BitVec.msb]
      · exact Nat.two_pow_pos _
  | some bounds =>
      rcases bounds with ⟨base, cap⟩
      exact ⟨base, le_refl base,
        m.range_lt base cap hCustom, rfl⟩

/-
  The offsets at which a member keeps its values. A member
  that does not start at a byte boundary starts within the
  first 64 bits, its own bits are the ones that
  `set_bits_lower` clears, and it has no negative values
  unless its type is the widest one.
-/
def CanEncode
    (m : IntegerMember)
    (offset : Nat) : Prop :=
  m.ClearsOwn offset ∧
    (offset % 8 = 0 ∨ ¬ (m.IsFullSigned ∧ m.type.bits < 64))

instance (m : IntegerMember) (offset : Nat) :
    Decidable (m.CanEncode offset) := by
  unfold CanEncode
  infer_instance

/- Values in range spill into no other member. -/
theorem InRange.highClear
    {m : IntegerMember}
    {offset : Nat}
    {v : BitVec 64}
    (hRange : m.InRange v)
    (hEncode : m.CanEncode offset) :
    m.HighClear offset (v - m.rangeBase) := by
  intro i hLe hType
  rcases hRange.stored with hSmall | hFull
  · exact Nat.testBit_lt_two_pow (hSmall.trans_le
      (Nat.pow_le_pow_right (by decide) hLe))
  · have hSize := hFull.2.2
    rcases hEncode.2 with hAligned | hNot
    · have hLt := hType hAligned
      omega
    · have hWide : 64 ≤ m.type.bits :=
        not_lt.mp (fun hLt => hNot ⟨hFull, hLt⟩)
      exact BitVec.getLsbD_of_ge _ _ (by omega)

theorem setInteger_eq
    (m : IntegerMember)
    (offset : Nat)
    (mem : Memory)
    (v : BitVec 64) :
    m.setInteger offset mem v =
      m.setBits offset mem (v - m.rangeBase) := by
  unfold setInteger
  by_cases hBase : m.rangeBase = 0
  · rw [hBase]
    simp
  · rw [if_pos hBase]

/- Setting a value writes its bits, and no other ones. -/
theorem setInteger_spec
    {m : IntegerMember}
    {offset : Nat}
    (mem : Memory)
    {v : BitVec 64}
    (hEncode : m.CanEncode offset)
    (hRange : m.InRange v) :
    ∃ mem', m.setInteger offset mem v = .ok mem' ∧
      ∀ k, bit mem' k =
        if offset ≤ k ∧ k < offset + m.bitSize then
          (v - m.rangeBase).getLsbD (k - offset)
        else
          bit mem k := by
  rw [setInteger_eq]
  exact setBits_spec mem hEncode.1 (hRange.highClear hEncode)

/- The value set is the value read, in the member's type. -/
theorem getInteger_setInteger
    {m : IntegerMember}
    {offset : Nat}
    {mem mem' : Memory}
    {v : BitVec 64}
    (hEncode : m.CanEncode offset)
    (hRange : m.InRange v)
    (hSet : m.setInteger offset mem v = .ok mem') :
    ∃ x, m.getInteger offset mem' = .ok x ∧
      x.setWidth m.type.bits = v.setWidth m.type.bits := by
  rcases setInteger_spec mem hEncode hRange with
    ⟨mem₁, hSet₁, hBits⟩
  cases hSet.symm.trans hSet₁
  rcases m.getBits_spec offset mem' with ⟨x, hX, hXBits⟩
  refine ⟨x + m.rangeBase, getInteger_eq hX, ?_⟩
  have hStored : x.setWidth m.type.bits =
      (v - m.rangeBase).setWidth m.type.bits := by
    apply BitVec.eq_of_getLsbD_eq
    intro i hi
    have hWide := m.type.bits_le
    rw [BitVec.getLsbD_setWidth, BitVec.getLsbD_setWidth,
      hXBits i (by omega)]
    split
    · have hIn : offset ≤ offset + i ∧
          offset + i < offset + m.bitSize := by omega
      rw [hBits, if_pos hIn]
      simp
    · next hOut =>
        have hNarrow : m.bitSize ≠ m.type.bits := by omega
        have hSmall : (v - m.rangeBase).toNat <
            2 ^ m.bitSize := by
          rcases hRange.stored with hSmall | hFull
          · exact hSmall
          · exact absurd hFull.2.2 hNarrow
        have hZero : (v - m.rangeBase).getLsbD i = false :=
          Nat.testBit_lt_two_pow (hSmall.trans_le
            (Nat.pow_le_pow_right (by decide)
              (not_lt.mp hOut)))
        simp [hZero, signExtends, hNarrow]
  rw [BitVec.setWidth_add _ _ m.type.bits_le, hStored,
    ← BitVec.setWidth_add _ _ m.type.bits_le,
    BitVec.sub_add_cancel]

------------------------------------------------------------
-- Offsets That Lose Values
------------------------------------------------------------

/- The value set is read back, and no other bit changes. -/
def RoundTrips
    (m : IntegerMember)
    (offset : Nat) : Prop :=
  ∀ mem v, m.InRange v →
    ∃ mem', m.setInteger offset mem v = .ok mem' ∧
      (∃ x, m.getInteger offset mem' = .ok x ∧
        x.setWidth m.type.bits = v.setWidth m.type.bits) ∧
      ∀ k, k < offset ∨ offset + m.bitSize ≤ k →
        bit mem' k = bit mem k

/- A member off the byte boundary is set in two parts. -/
theorem setBits_unaligned
    {m : IntegerMember}
    {offset : Nat}
    {mem mem' : Memory}
    {val : BitVec 64}
    (hAligned : offset % 8 ≠ 0)
    (hSet : m.setBits offset mem val = .ok mem') :
    offset < 64 ∧
      ∃ mask mem₁,
        (∀ i, mask.getLsbD i =
          decide (i < m.lowerBits offset)) ∧
        setBitsLower mem offset
          (offset + m.lowerBits offset)
          ((val &&& mask).setWidth 8) = .ok mem₁ ∧
        (m.lowerBits offset = m.bitSize ∧ mem' = mem₁ ∨
          (offset + m.lowerBits offset) % 8 = 0 ∧
          m.lowerBits offset < m.bitSize ∧
          setBitsUpper m.type mem₁
            (offset + m.lowerBits offset)
            (offset + m.lowerBits offset +
              (m.bitSize - m.lowerBits offset))
            (val >>> m.lowerBits offset) = .ok mem') := by
  have hLb : m.lowerBits offset =
      min (8 - offset % 8) m.bitSize := rfl
  rcases getValueMask_spec (m.lowerBits offset) (by omega)
    with ⟨mask, hMask, hMaskBits⟩
  unfold setBits at hSet
  rw [if_pos hAligned] at hSet
  simp only [hMask, ok_bind] at hSet
  rcases bind_eq_ok_iff.mp hSet with ⟨mem₁, hLower, hUpper⟩
  have hShift : offset < 64 := by
    by_contra hWide
    unfold setBitsLower getValueMask at hLower
    rw [if_neg (by omega)] at hLower
    simp [hWide] at hLower
  refine ⟨hShift, mask, mem₁, hMaskBits, hLower, ?_⟩
  split at hUpper
  · next hMore =>
      right
      have hEnd : offset + m.bitSize =
          offset + m.lowerBits offset +
            (m.bitSize - m.lowerBits offset) := by omega
      rw [hEnd] at hUpper
      exact ⟨by omega, by omega, hUpper⟩
  · left
    cases hUpper
    exact ⟨by omega, rfl⟩

/-
  The lower part is cleared as far as the slip in
  `set_bits_lower` says, even if that is not what belongs to
  the member.
-/
theorem clearsOwn_of_roundTrips
    {m : IntegerMember}
    {offset : Nat}
    (hTrips : m.RoundTrips offset) :
    m.ClearsOwn offset := by
  by_cases hAligned : offset % 8 = 0
  · exact Or.inl hAligned
  -- all bits are set, and then the smallest value is written
  let ones : Memory := fun _ => BitVec.allOnes 8
  have hOnes : ∀ k, bit ones k = true := by
    intro k
    have hLow : k % 8 < 8 := Nat.mod_lt _ (by decide)
    rw [bit, BitVec.getLsbD_allOnes, decide_eq_true hLow]
  rcases hTrips ones m.rangeBase m.inRange_rangeBase with
    ⟨mem', hSet, ⟨value, hGet, hValue⟩, hFrame⟩
  rw [setInteger_eq, BitVec.sub_self] at hSet
  rcases setBits_unaligned hAligned hSet with
    ⟨hShift, mask, mem₁, -, hLower, hUpper⟩
  rcases setBitsLower_spec ones offset (m.lowerBits offset)
      (((0 : BitVec 64) &&& mask).setWidth 8)
      (by unfold lowerBits; omega) hShift with
    ⟨mem₂, hLower₂, hBits₂⟩
  cases hLower.symm.trans hLower₂
  have hLb : m.lowerBits offset =
      min (8 - offset % 8) m.bitSize := rfl
  have hCleared : clearedBits offset =
      min 8 (offset % 8 + min offset 8) := rfl
  -- what the byte of the offset holds in the end
  have hByte : ∀ k, k / 8 = offset / 8 →
      bit mem' k =
        !(decide (offset % 8 ≤ k % 8 ∧
          k % 8 < clearedBits offset)) := by
    intro k hSame
    have hFirst := hBits₂ k
    rw [if_pos hSame, hOnes] at hFirst
    rcases hUpper with ⟨-, rfl⟩ | ⟨hEdge, hMore, hUpper⟩
    · rw [hFirst]
      simp
    · rcases setBitsUpper_spec m.type mem₁
          _ (m.bitSize - m.lowerBits offset)
          ((0 : BitVec 64) >>> m.lowerBits offset) hEdge
          ((Nat.sub_le _ _).trans m.bitSize_le) with
        ⟨mem₃, hUpper₃, hBits₃⟩
      cases hUpper.symm.trans hUpper₃
      rw [hBits₃ k, if_neg (by omega), hFirst]
      simp
  right
  refine ⟨hShift, ?_⟩
  rcases Nat.lt_trichotomy (clearedBits offset)
      (offset % 8 + m.lowerBits offset) with
    hFew | hSame | hMany
  · -- a bit of the member is left set
    exfalso
    have hBit := hByte (offset + (clearedBits offset -
      offset % 8)) (by omega)
    have hAt : (offset + (clearedBits offset -
        offset % 8)) % 8 = clearedBits offset := by omega
    rw [hAt] at hBit
    rcases m.getBits_spec offset mem' with ⟨x, hX, hXBits⟩
    cases (getInteger_eq hX).symm.trans hGet
    have hWide := m.type.bits_le
    have hZero : x.setWidth m.type.bits = 0 := by
      rw [BitVec.setWidth_add _ _ hWide] at hValue
      simpa using hValue
    have hXBit := hXBits (clearedBits offset - offset % 8)
      (by omega)
    rw [if_pos (by omega), hBit] at hXBit
    have hSize := m.bitSize_le
    have hZeroBit := congrArg (fun y => y.getLsbD
      (clearedBits offset - offset % 8)) hZero
    simp only [BitVec.getLsbD_setWidth, hXBit] at hZeroBit
    have hIn : clearedBits offset - offset % 8 <
        m.type.bits := by omega
    simp [hIn] at hZeroBit
  · exact hSame
  · -- a bit behind the member is cleared
    exfalso
    have hBit := hByte (offset + m.lowerBits offset)
      (by omega)
    rw [hFrame _ (Or.inr (by omega)), hOnes] at hBit
    have hIn : offset % 8 ≤
          (offset + m.lowerBits offset) % 8 ∧
        (offset + m.lowerBits offset) % 8 <
          clearedBits offset := by omega
    simp [hIn] at hBit

/- Minus one spills out of a member off the boundary. -/
theorem not_fullSigned_of_roundTrips
    {m : IntegerMember}
    {offset : Nat}
    (hTrips : m.RoundTrips offset)
    (hAligned : offset % 8 ≠ 0) :
    ¬ (m.IsFullSigned ∧ m.type.bits < 64) := by
  rintro ⟨hFull, hNarrow⟩
  have hBase : m.rangeBase = 0#64 := by
    simp [rangeBase, hFull.1]
  have hRange : m.InRange (BitVec.allOnes 64) := by
    simp only [InRange, hFull.1, if_pos hFull]
    apply BitVec.eq_of_getLsbD_eq
    intro i hi
    have hPos := m.type.bits_pos
    have hLe := m.type.bits_le
    have hOnes : ∀ k, k < m.type.bits →
        ((BitVec.allOnes 64).setWidth m.type.bits).getLsbD k =
          true := by
      intro k hk
      rw [BitVec.getLsbD_setWidth, BitVec.getLsbD_allOnes,
        decide_eq_true hk,
        decide_eq_true (show k < 64 by omega)]
      rfl
    rw [BitVec.getLsbD_signExtend, BitVec.getLsbD_allOnes,
      decide_eq_true hi, BitVec.msb_eq_getLsbD_last,
      hOnes (m.type.bits - 1) (by omega)]
    split
    · next hIn => rw [hOnes i hIn]; rfl
    · rfl
  let zeros : Memory := fun _ => 0
  rcases hTrips zeros _ hRange with
    ⟨mem', hSet, -, hFrame⟩
  rw [setInteger_eq, hBase, BitVec.sub_zero] at hSet
  rcases setBits_unaligned hAligned hSet with
    ⟨hShift, mask, mem₁, -, hLower, hUpper⟩
  have hLb : m.lowerBits offset =
      min (8 - offset % 8) m.bitSize := rfl
  have hSize := hFull.2.2
  have hByte : 8 ≤ m.type.bits := by
    unfold IntType.bits IntType.bytes
    have hPos := Nat.two_pow_pos m.type.logBytes.val
    omega
  rcases hUpper with ⟨hAll, -⟩ | ⟨hEdge, hMore, hUpper⟩
  · omega
  · rcases setBitsUpper_spec m.type mem₁
        _ (m.bitSize - m.lowerBits offset)
        (BitVec.allOnes 64 >>> m.lowerBits offset)
        hEdge ((Nat.sub_le _ _).trans m.bitSize_le) with
      ⟨mem₃, hUpper₃, hBits₃⟩
    cases hUpper.symm.trans hUpper₃
    have hSpill := hBits₃ (offset + m.bitSize)
    rw [if_pos (by omega),
      hFrame _ (Or.inr (Nat.le_refl _)),
      BitVec.getLsbD_ushiftRight] at hSpill
    have hIndex : m.lowerBits offset +
        (offset + m.bitSize -
          (offset + m.lowerBits offset)) = m.bitSize := by
      omega
    have hZero : ∀ k, bit zeros k = false :=
      fun k => BitVec.getLsbD_zero
    rw [hIndex, hZero, BitVec.getLsbD_allOnes,
      decide_eq_true (show m.bitSize < 64 by omega)]
      at hSpill
    simp at hSpill

/- The offsets at which a member keeps its values. -/
theorem roundTrips_iff
    (m : IntegerMember)
    (offset : Nat) :
    m.RoundTrips offset ↔ m.CanEncode offset := by
  constructor
  · intro hTrips
    refine ⟨clearsOwn_of_roundTrips hTrips, ?_⟩
    by_cases hAligned : offset % 8 = 0
    · exact Or.inl hAligned
    · exact Or.inr
        (not_fullSigned_of_roundTrips hTrips hAligned)
  · intro hEncode mem v hRange
    rcases setInteger_spec mem hEncode hRange with
      ⟨mem', hSet, hBits⟩
    refine ⟨mem', hSet,
      getInteger_setInteger hEncode hRange hSet, ?_⟩
    intro k hOutside
    rw [hBits k, if_neg (by omega)]

end IntegerMember

end NetBlocks
