import NetBlocks.Core.Packet
import NetBlocks.Lib.ByteMemory
import Mathlib.Tactic.Positivity
import Mathlib.Algebra.Order.Ring.Int

/-
  A header member that holds an integer, at any bit offset
  of a packet buffer.

  Main declarations:
    * `IntType` and `IntegerMember`
    * `IntegerMember.setCustomRange`
    * `IntegerMember.getInteger`
    * `IntegerMember.setInteger`
-/

namespace NetBlocks

open ByteMemory

------------------------------------------------------------
-- Members
------------------------------------------------------------

/- The C type `T` of a member: 1, 2, 4, or 8 bytes. -/
structure IntType where
  logBytes : Fin 4
  signed : Bool
deriving DecidableEq, Repr

namespace IntType

/- The types that members are declared with. -/
def char : IntType := ⟨0, true⟩
def unsignedChar : IntType := ⟨0, false⟩
def unsignedShort : IntType := ⟨1, false⟩
def int : IntType := ⟨2, true⟩
def unsignedInt : IntType := ⟨2, false⟩
def unsignedLongLong : IntType := ⟨3, false⟩

/- `sizeof(T)` -/
def bytes
    (ty : IntType) : Nat :=
  2 ^ ty.logBytes.val

/- `sizeof(T) * byte_size` -/
def bits
    (ty : IntType) : Nat :=
  8 * ty.bytes

/- The integers the type holds. -/
def Holds
    (ty : IntType)
    (z : Int) : Prop :=
  if ty.signed then
    -(2 ^ (ty.bits - 1) : Int) ≤ z ∧ z < 2 ^ (ty.bits - 1)
  else
    0 ≤ z ∧ z < 2 ^ ty.bits

instance (ty : IntType) (z : Int) :
    Decidable (ty.Holds z) := by
  unfold Holds
  infer_instance

/- Conversion to the type. -/
def wrap
    (ty : IntType)
    (z : Int) : Int :=
  if ty.signed then
    (BitVec.ofInt ty.bits z).toInt
  else
    (BitVec.ofInt ty.bits z).toNat

end IntType

/-
  `generic_integer_member<T, BITS>`. The custom range is the
  base and the cap given to `set_custom_range`, of which the
  code keeps the base, as `m_range_base`.
-/
structure IntegerMember where
  type : IntType
  aligned : Bool
  bitSize : Nat
  range : Option (Int × Int)
  bitSize_le : bitSize ≤ type.bits
  range_lt : ∀ base cap, range = some (base, cap) →
    base < cap
  range_le : ∀ base cap, range = some (base, cap) →
    cap - base ≤ 2 ^ bitSize
  range_narrow : ∀ base cap, range = some (base, cap) →
    type.signed = true → bitSize < type.bits

namespace IntegerMember

/- The constructor, for `BITS` at most the width of `T`. -/
def ofBits
    (ty : IntType)
    (bits : Nat)
    (hBits : bits ≤ ty.bits)
    (aligned : Bool) : IntegerMember where
  type := ty
  aligned := aligned
  bitSize := bits
  range := none
  bitSize_le := hBits
  range_lt := by simp
  range_le := by simp
  range_narrow := by simp

/- The loop of `set_custom_range` that counts bits. -/
def countBits : Nat → Nat → Nat
| 0, _ => 0
| fuel + 1, r =>
    if r = 0 then 0 else countBits fuel (r / 2) + 1

theorem lt_two_pow_countBits
    {fuel r : Nat}
    (hFuel : r < 2 ^ fuel) :
    r < 2 ^ countBits fuel r := by
  induction fuel generalizing r with
  | zero => simpa [countBits] using hFuel
  | succ fuel ih =>
      rw [countBits]
      split
      · next hZero => simp [hZero]
      · have hHalf : r / 2 < 2 ^ fuel := by
          rw [Nat.pow_succ] at hFuel
          omega
        have hRest := ih hHalf
        rw [Nat.pow_succ]
        omega

theorem countBits_le
    {fuel r bits : Nat}
    (hBound : r < 2 ^ bits) :
    countBits fuel r ≤ bits := by
  induction fuel generalizing r bits with
  | zero => simp [countBits]
  | succ fuel ih =>
      rw [countBits]
      split
      · omega
      · next hNe =>
          cases bits with
          | zero => simp at hBound; exact absurd hBound hNe
          | succ bits =>
              have hHalf : r / 2 < 2 ^ bits := by
                rw [Nat.pow_succ] at hBound
                omega
              have hRest : countBits fuel (r / 2) ≤ bits :=
                ih hHalf
              omega

/-
  The size of a range of values of `T`, unless its
  computation in `T` overflows.
-/
theorem wrap_rangeSize
    {ty : IntType}
    {base cap : Int}
    (hLt : base < cap)
    (hBase : ty.Holds base)
    (hCap : ty.Holds cap)
    (hNonneg : 0 ≤ ty.wrap (cap - base)) :
    ty.wrap (cap - base) = cap - base := by
  have hBits : 0 < ty.bits := by
    unfold IntType.bits IntType.bytes
    positivity
  have hPow : (2 : Int) ^ ty.bits = 2 * 2 ^ (ty.bits - 1) := by
    conv_lhs => rw [← Nat.succ_pred_eq_of_pos hBits]
    rw [Int.pow_succ]
    exact Int.mul_comm _ _
  cases hSigned : ty.signed with
  | true =>
      simp only [IntType.Holds, IntType.wrap, hSigned,
        if_true] at hBase hCap hNonneg ⊢
      have hMod : (cap - base) % (2 : Int) ^ ty.bits =
          cap - base := by
        apply Int.emod_eq_of_lt <;> omega
      rw [BitVec.toInt_ofInt, Int.bmod, Nat.cast_pow,
        Nat.cast_ofNat, hMod] at hNonneg ⊢
      split at hNonneg
      · rw [if_pos (by assumption)]
      · omega
  | false =>
      simp only [IntType.Holds, IntType.wrap, hSigned,
        Bool.false_eq_true, if_false] at hBase hCap ⊢
      have hMod : (cap - base) % (2 : Int) ^ ty.bits =
          cap - base := by
        apply Int.emod_eq_of_lt <;> omega
      rw [BitVec.toNat_ofInt, Nat.cast_pow, Nat.cast_ofNat,
        hMod]
      omega

/- A value of `T` keeps to the width of `T`. -/
theorem wrap_lt
    (ty : IntType)
    (z : Int) :
    ty.wrap z < 2 ^ ty.bits ∧
      (ty.signed = true → ty.wrap z < 2 ^ (ty.bits - 1)) := by
  have hPow : (2 : Int) ^ (ty.bits - 1) ≤ 2 ^ ty.bits := by
    exact_mod_cast Nat.pow_le_pow_right (by decide)
      (Nat.sub_le _ _)
  cases hSigned : ty.signed with
  | true =>
      have hInt := (BitVec.ofInt ty.bits z).toInt_lt
      simp only [IntType.wrap, hSigned, if_true]
      exact ⟨by omega, fun _ => hInt⟩
  | false =>
      have hLt := (BitVec.ofInt ty.bits z).isLt
      simp only [IntType.wrap, hSigned, Bool.false_eq_true,
        if_false, false_implies, and_true]
      exact_mod_cast hLt

/-
  The number of bits `set_custom_range` counts is enough for
  the range, and at most the width of the type.
-/
theorem countBits_range
    (ty : IntType)
    (z : Int)
    (hNonneg : 0 < ty.wrap z) :
    ty.wrap z ≤ 2 ^ countBits 64 (ty.wrap z - 1).toNat ∧
      countBits 64 (ty.wrap z - 1).toNat ≤ ty.bits ∧
      (ty.signed = true →
        countBits 64 (ty.wrap z - 1).toNat < ty.bits) := by
  have hWide : ty.bits ≤ 64 := by
    unfold IntType.bits IntType.bytes
    have hLog : ty.logBytes.val ≤ 3 := by omega
    have hPow := Nat.pow_le_pow_right (n := 2) (by decide) hLog
    omega
  have hBits : 0 < ty.bits := by
    unfold IntType.bits IntType.bytes
    positivity
  rcases wrap_lt ty z with ⟨hLt, hSigned⟩
  have hNat : ∀ bits : Nat, ty.wrap z < 2 ^ bits →
      (ty.wrap z - 1).toNat < 2 ^ bits := by
    intro bits hBound
    have hCast : ((2 ^ bits : Nat) : Int) = 2 ^ bits :=
      Nat.cast_pow 2 bits
    omega
  have hFuel : (ty.wrap z - 1).toNat < 2 ^ 64 :=
    (hNat _ hLt).trans_le
      (Nat.pow_le_pow_right (by decide) hWide)
  refine ⟨?_, countBits_le (hNat _ hLt), ?_⟩
  · have hCount := lt_two_pow_countBits hFuel
    have hCast := Nat.cast_pow (α := Int) 2
      (countBits 64 (ty.wrap z - 1).toNat)
    rw [Nat.cast_ofNat] at hCast
    omega
  · intro hIs
    have hCount :
        countBits 64 (ty.wrap z - 1).toNat ≤ ty.bits - 1 :=
      countBits_le (hNat _ (hSigned hIs))
    omega

/-
  `set_custom_range`, for a base below the cap. The size of
  the range is computed in `T`; when it wraps to a negative
  number, shifting it never gets to zero.
-/
def setCustomRange
    (m : IntegerMember)
    (base cap : Int)
    (hLt : base < cap)
    (hBase : m.type.Holds base)
    (hCap : m.type.Holds cap) : Except Fault IntegerMember :=
  let rangeSize := m.type.wrap (cap - base)
  if hZero : rangeSize = 0 then
    .error (.assertion "Range should be non zero size")
  else if hNegative : rangeSize < 0 then
    .error .diverges
  else
    have hSize := countBits_range m.type (cap - base)
      (by omega)
    have hExact := wrap_rangeSize hLt hBase hCap (by omega)
    .ok
      { type := m.type
        aligned := m.aligned
        bitSize := countBits 64 (rangeSize - 1).toNat
        range := some (base, cap)
        bitSize_le := hSize.2.1
        range_lt := by
          rintro base' cap' ⟨⟩
          exact hLt
        range_le := by
          rintro base' cap' ⟨⟩
          exact hExact ▸ hSize.1
        range_narrow := by
          rintro base' cap' -
          exact hSize.2.2 }

------------------------------------------------------------
-- Bit Ranges
------------------------------------------------------------

/- `m_range_base`, converted to `unsigned long long` -/
def rangeBase
    (m : IntegerMember) : BitVec 64 :=
  match m.range with
  | none => 0
  | some (base, _) => BitVec.ofInt 64 base

/- `get_value_mask`; C leaves larger shifts undefined. -/
def getValueMask
    (nBits : Nat) : Except Fault (BitVec 64) :=
  if nBits < 64 then
    .ok ((1 : BitVec 64) <<< nBits - 1)
  else
    .error .undefinedShift

/- Read through a `T*`, converted to `unsigned long long`. -/
def readType
    (ty : IntType)
    (mem : Memory)
    (addr : Nat) : BitVec 64 :=
  let w := BitVec.ofNat ty.bits (load mem addr ty.bytes)
  if ty.signed then w.signExtend 64 else w.setWidth 64

/- Write through a `T*`, which truncates. -/
def writeType
    (ty : IntType)
    (mem : Memory)
    (addr : Nat)
    (value : BitVec 64) : Memory :=
  store mem addr ty.bytes value.toNat

/- `extract_bits_lower` -/
def extractBitsLower
    (mem : Memory)
    (bitStart bitEnd : Nat) : Except Fault (BitVec 8) := do
  if ¬ bitEnd - bitStart ≤ 8 then
    throw (.assertion
      "Extract bits lower can extract atmost a single byte")
  let byteOffset := bitStart / 8
  let numBits := bitEnd - bitStart
  let bitShift := bitStart % 8
  let value := mem byteOffset >>> bitShift
  if bitShift + numBits ≠ 8 then
    let mask ← getValueMask numBits
    return value &&& mask.setWidth 8
  else
    return value

/- `extract_bits_upper` -/
def extractBitsUpper
    (ty : IntType)
    (mem : Memory)
    (bitStart bitEnd : Nat) : Except Fault (BitVec 64) := do
  if ¬ bitStart % 8 = 0 then
    throw (.assertion
      "Extract bits upper can only extract aligned bits")
  let numBits := bitEnd - bitStart
  let byteOffset := bitStart / 8
  if numBits = ty.bits then
    return readType ty mem byteOffset
  else
    let mask ← getValueMask numBits
    return readType ty mem byteOffset &&& mask

/-
  `set_bits_lower`. Its `int num_bits = bit_end = bit_start`
  takes the offset of the bits for their number.
-/
def setBitsLower
    (mem : Memory)
    (bitStart bitEnd : Nat)
    (val : BitVec 8) : Except Fault Memory := do
  if ¬ bitEnd - bitStart ≤ 8 then
    throw (.assertion
      "Set bits lower can set atmost a single byte")
  let byteOffset := bitStart / 8
  let numBits := bitStart
  let bitShift := bitStart % 8
  let mask ← getValueMask numBits
  let cleared :=
    ~~~(mask.setWidth 8 <<< bitShift) &&& mem byteOffset
  return Function.update mem byteOffset
    (cleared ||| val <<< bitShift)

/- `set_bits_upper` -/
def setBitsUpper
    (ty : IntType)
    (mem : Memory)
    (bitStart bitEnd : Nat)
    (val : BitVec 64) : Except Fault Memory := do
  if ¬ bitStart % 8 = 0 then
    throw (.assertion
      "Set bits upper can only set aligned bits")
  let byteOffset := bitStart / 8
  let numBits := bitEnd - bitStart
  if numBits = ty.bits then
    return writeType ty mem byteOffset val
  else
    let mask ← getValueMask numBits
    return writeType ty mem byteOffset
      (readType ty mem byteOffset &&& ~~~mask ||| val)

------------------------------------------------------------
-- Reading and Writing a Member
------------------------------------------------------------

/- The bits of a member in the byte its offset is in. -/
def lowerBits
    (m : IntegerMember)
    (offset : Nat) : Nat :=
  min (8 - offset % 8) m.bitSize

/- The bits `get_integer` collects, before the range base. -/
def getBits
    (m : IntegerMember)
    (offset : Nat)
    (mem : Memory) : Except Fault (BitVec 64) :=
  let bitEnd := offset + m.bitSize
  if offset % 8 ≠ 0 then do
    let lb := m.lowerBits offset
    let lbe := offset + lb
    let lower ← extractBitsLower mem offset lbe
    if bitEnd - lbe ≠ 0 then
      let upper ← extractBitsUpper m.type mem lbe bitEnd
      return lower.setWidth 64 ||| upper <<< lb
    else
      return lower.setWidth 64
  else
    extractBitsUpper m.type mem offset bitEnd

/- `get_integer`, for a member at a bit offset -/
def getInteger
    (m : IntegerMember)
    (offset : Nat)
    (mem : Memory) : Except Fault (BitVec 64) := do
  let value ← m.getBits offset mem
  if m.rangeBase ≠ 0 then
    return value + m.rangeBase
  else
    return value

/- The bits `set_integer` spreads, after the range base. -/
def setBits
    (m : IntegerMember)
    (offset : Nat)
    (mem : Memory)
    (val : BitVec 64) : Except Fault Memory :=
  let bitEnd := offset + m.bitSize
  if offset % 8 ≠ 0 then do
    let lb := m.lowerBits offset
    let lbe := offset + lb
    let mask ← getValueMask lb
    let mem ← setBitsLower mem offset lbe
      ((val &&& mask).setWidth 8)
    if bitEnd - lbe ≠ 0 then
      setBitsUpper m.type mem lbe bitEnd (val >>> lb)
    else
      return mem
  else
    setBitsUpper m.type mem offset bitEnd val

/- `set_integer`, for a member at a bit offset -/
def setInteger
    (m : IntegerMember)
    (offset : Nat)
    (mem : Memory)
    (val : BitVec 64) : Except Fault Memory :=
  let val := if m.rangeBase ≠ 0 then val - m.rangeBase else val
  m.setBits offset mem val

end IntegerMember

end NetBlocks
