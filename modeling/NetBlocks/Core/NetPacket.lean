import NetBlocks.Core.Layout

/-
  The packet layout of the NO_COMPAT stack with every option
  enabled, as the modules register it, and what its members
  read and write.

  Main declarations:
    * `netPacket` and `Field.start`
    * `readField` and `writeField`
    * `readField_bits` and `writeField_bits`
-/

namespace NetBlocks

open ByteMemory Except

------------------------------------------------------------
-- Members
------------------------------------------------------------

/- The names the members are registered under. -/
inductive MemberName where
| header (f : Field)
| payload
deriving DecidableEq, Repr

namespace Field

/- The C type of a member. -/
def type : Field → IntType
| computedTotalLen => .int
| isSignaling => .int
| flowIdentifier => .unsignedLongLong
| redeliveryTimer => .unsignedLongLong
| dstHostId => .unsignedLongLong
| srcHostId => .unsignedLongLong
| dstGlobalId => .unsignedInt
| srcGlobalId => .unsignedInt
| dstAppId => .unsignedShort
| srcAppId => .unsignedShort
| totalLen => .int
| sequenceNumber => .unsignedInt
| ackSequenceNumber => .unsignedInt
| checksum => .unsignedShort

theorem bits_le
    (f : Field) :
    f.bits ≤ f.type.bits := by
  cases f <;> decide

/- The members registered with `member_flags::aligned`. -/
def aligned : Field → Bool
| dstAppId => false
| srcAppId => false
| checksum => false
| _ => true

/- The `generic_integer_member` of a field. -/
def member
    (f : Field) : IntegerMember :=
  .ofBits f.type f.bits f.bits_le f.aligned

/- Where the layout puts a member, in bits. -/
def start : Field → Nat
| computedTotalLen => 0
| isSignaling => 32
| redeliveryTimer => 64
| flowIdentifier => 128
| dstHostId => 192
| srcHostId => 240
| dstGlobalId => 288
| srcGlobalId => 320
| dstAppId => 352
| srcAppId => 368
| totalLen => 384
| sequenceNumber => 416
| ackSequenceNumber => 448
| checksum => 480

end Field

/- The payload member, of which only the address is used. -/
def payloadMember : IntegerMember :=
  .ofBits .char 8 (by decide) true

/- The calls of `add_member`, in order of initialization. -/
def memberCalls :
    List (MemberName × DynamicMember × Nat) :=
  [(.header .computedTotalLen,
      .integer (Field.member .computedTotalLen), 0),
    (.payload, .integer payloadMember, 5),
    (.header .totalLen, .integer (Field.member .totalLen), 4),
    (.header .isSignaling,
      .integer (Field.member .isSignaling), 0),
    (.header .sequenceNumber,
      .integer (Field.member .sequenceNumber), 4),
    (.header .ackSequenceNumber,
      .integer (Field.member .ackSequenceNumber), 4),
    (.header .redeliveryTimer,
      .integer (Field.member .redeliveryTimer), 0),
    (.header .flowIdentifier,
      .integer (Field.member .flowIdentifier), 0),
    (.header .dstHostId,
      .integer (Field.member .dstHostId), 1),
    (.header .srcHostId,
      .integer (Field.member .srcHostId), 1),
    (.header .dstAppId,
      .integer (Field.member .dstAppId), 3),
    (.header .srcAppId,
      .integer (Field.member .srcAppId), 3),
    (.header .dstGlobalId,
      .integer (Field.member .dstGlobalId), 2),
    (.header .srcGlobalId,
      .integer (Field.member .srcGlobalId), 2),
    (.header .checksum,
      .integer (Field.member .checksum), 4)]

/- `net_packet`, once its layout is fixed -/
def netPacket : DynamicLayout MemberName :=
  (memberCalls.foldl
    (fun (layout : DynamicLayout MemberName)
      (name, m, group) => layout.addMember name m group)
    DynamicLayout.empty).fixLayout

theorem netPacket_built : netPacket.Built :=
  ⟨memberCalls, by decide, rfl⟩

theorem netPacket_member
    (f : Field) :
    netPacket.membersMap (.header f) =
      some (.integer f.member) := by
  cases f <;> rfl

theorem netPacket_offset
    (f : Field) :
    netPacket.offset (.header f) = .ok f.start := by
  cases f <;> decide

/- The payload follows the headers, of 62 bytes. -/
theorem netPacket_payload :
    netPacket.offset .payload = .ok (62 * 8) := by
  decide

theorem netPacket_totalSize :
    netPacket.getTotalSize = .ok 63 := by
  decide

------------------------------------------------------------
-- Reading and Writing Members
------------------------------------------------------------

/- Read a member of the layout. -/
def readField
    (f : Field)
    (mem : Memory) : Except Fault (BitVec 64) :=
  netPacket.getInteger (.header f) mem

/- Write a member of the layout. -/
def writeField
    (f : Field)
    (v : BitVec 64)
    (mem : Memory) : Except Fault Memory :=
  netPacket.setInteger (.header f) v mem

namespace Field

@[simp] theorem member_bitSize
    (f : Field) :
    f.member.bitSize = f.bits :=
  rfl

@[simp] theorem member_type
    (f : Field) :
    f.member.type = f.type :=
  rfl

@[simp] theorem member_rangeBase
    (f : Field) :
    f.member.rangeBase = 0 :=
  rfl

/- Every member starts at a byte. -/
theorem start_mod
    (f : Field) :
    f.start % 8 = 0 := by
  cases f <;> rfl

theorem bits_pos
    (f : Field) :
    0 < f.bits := by
  cases f <;> decide

/- The headers end before the payload. -/
theorem start_add_bits_le
    (f : Field) :
    f.start + f.bits ≤ 62 * 8 := by
  cases f <;> decide

theorem signed_eq
    (f : Field) :
    f.member.signExtends f.start = f.signed := by
  cases f <;> decide

theorem type_bits_of_signed
    {f : Field}
    (hSigned : f.signed = true) :
    f.type.bits = f.bits := by
  cases f <;> simp [signed] at hSigned <;> rfl

theorem bits_le_64
    (f : Field) :
    f.bits ≤ 64 := by
  cases f <;> decide

/- Different members are apart. -/
theorem apart
    {f g : Field}
    (hNe : g ≠ f) :
    g.start + g.bits ≤ f.start ∨
      f.start + f.bits ≤ g.start := by
  have hLayout := netPacket_built.wellFormed
  have hMem : ∀ f : Field, MemberName.header f ∈
      netPacket.order := by
    intro f
    rw [hLayout.mapped, netPacket_member]
    simp
  have hSize : ∀ f : Field,
      netPacket.sizeOf (.header f) = f.bits := by
    intro f
    simp [DynamicLayout.sizeOf, netPacket_member,
      DynamicMember.size]
  have hApart := hLayout.offsets_apart (hMem f) (hMem g)
    (by simpa using hNe) (netPacket_offset f)
    (netPacket_offset g)
  rwa [hSize, hSize] at hApart

/- The bits of a value as a member returns it. -/
theorem getLsbD_canon
    (f : Field)
    (v : BitVec 64)
    {i : Nat}
    (hi : i < 64) :
    (f.canon v).getLsbD i =
      if i < f.bits then
        v.getLsbD i
      else
        f.signed && v.getLsbD (f.bits - 1) := by
  have hPos := f.bits_pos
  have hLast : f.bits - 1 < f.bits := by omega
  unfold canon
  cases hSigned : f.signed with
  | true =>
      rw [if_pos rfl, BitVec.getLsbD_signExtend,
        BitVec.msb_eq_getLsbD_last]
      simp only [BitVec.getLsbD_setWidth, hi, hLast,
        decide_true, Bool.true_and]
      split
      · next hIn => simp [hIn]
      · rfl
  | false =>
      simp only [Bool.false_eq_true, if_false,
        BitVec.getLsbD_setWidth, hi, decide_true,
        Bool.true_and, Bool.false_and]
      split
      · next hIn => simp [hIn]
      · next hOut => simp [hOut]

/- A value that fits keeps to the member's bits. -/
theorem Fits.highClear
    {f : Field}
    {v : BitVec 64}
    (hFits : f.Fits v) :
    f.member.HighClear f.start v := by
  intro i hLe hType
  have hType := hType f.start_mod
  rw [member_bitSize] at hLe
  rw [member_type] at hType
  by_cases hHost : f = .dstHostId ∨ f = .srcHostId
  · have hLt := hFits hHost
    have hBits : f.bits = 48 := by
      rcases hHost with rfl | rfl <;> rfl
    apply Nat.testBit_lt_two_pow
    rw [← hBits] at hLt
    exact hLt.trans_le
      (Nat.pow_le_pow_right (by decide) hLe)
  · have hFull : f.type.bits = f.bits := by
      cases f <;> first
        | rfl
        | exact absurd (Or.inl rfl) hHost
        | exact absurd (Or.inr rfl) hHost
    omega

end Field

/- Reading a member collects its bits. -/
theorem readField_bits
    (f : Field)
    (mem : Memory) :
    ∃ x, readField f mem = .ok x ∧
      ∀ i, i < 64 → x.getLsbD i =
        if i < f.bits then
          bit mem (f.start + i)
        else
          f.signed && bit mem (f.start + (f.bits - 1)) := by
  rcases f.member.getBits_spec f.start mem with
    ⟨x, hX, hBits⟩
  have hRead := (DynamicLayout.access_eq (netPacket_member f)
    (netPacket_offset f)).2 mem
  refine ⟨x, ?_, ?_⟩
  · rw [readField, hRead, IntegerMember.getInteger_eq hX,
      Field.member_rangeBase]
    simp
  · intro i hi
    rw [hBits i hi, f.signed_eq]
    cases hSigned : f.signed with
    | true =>
        have hType := Field.type_bits_of_signed hSigned
        simp only [Field.member_type, hType,
          Field.member_bitSize]
    | false => simp

/- Writing a value that fits writes the member's bits. -/
theorem writeField_bits
    {f : Field}
    {v : BitVec 64}
    (hFits : f.Fits v)
    (mem : Memory) :
    ∃ mem', writeField f v mem = .ok mem' ∧
      ∀ k, bit mem' k =
        if f.start ≤ k ∧ k < f.start + f.bits then
          v.getLsbD (k - f.start)
        else
          bit mem k := by
  have hWrite := (DynamicLayout.access_eq (netPacket_member f)
    (netPacket_offset f)).1 v mem
  rcases IntegerMember.setBits_spec mem
      (Or.inl f.start_mod) hFits.highClear with
    ⟨mem', hSet, hBits⟩
  refine ⟨mem', ?_, hBits⟩
  rw [writeField, hWrite, IntegerMember.setInteger_eq,
    Field.member_rangeBase]
  simpa using hSet

end NetBlocks
