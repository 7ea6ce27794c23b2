import NetBlocks.Stack.Checksum

/-
  What computing a checksum leaves of a packet: its padding
  can hit the first byte of the payload, and nothing else on
  the wire is lost.

  Main declarations:
    * `PacketStack.SparesPacket`
    * `PacketStack.PadsOutside`
    * `sparesPacket_iff`
-/

namespace NetBlocks

open ByteMemory Except

namespace PacketStack

variable {stack : PacketStack}

------------------------------------------------------------
-- Sparing a Packet
------------------------------------------------------------

/-
  `compute_checksum` changes no bit on the wire but those of
  the checksum, and `hook_ingress` changes none at all.
-/
structure SparesPacket
    (stack : PacketStack)
    (len : Nat)
    (mem : Memory) : Prop where
  computes : ∃ r, stack.computeChecksum mem = .ok r ∧
    ∀ k, stack.OnWire len (k / 8) →
      ¬ stack.HasBit (.header .checksum) k →
        bit r.1 k = bit mem k
  restores : ∃ r, stack.checksumIngress mem = .ok r ∧
    ∀ a, stack.OnWire len a → r.2 a = mem a

/-
  The byte that pads the packet is not on the wire, or it is
  zero anyway.
-/
def PadsOutside
    (stack : PacketStack)
    (len : Nat)
    (mem : Memory) : Prop :=
  stack.options.checksumType = .fullPacket ∨
    stack.headerLen % 2 = 0 ∨ len = 0 ∨
    mem (stack.totalSize - 1) = 0

------------------------------------------------------------
-- Padding
------------------------------------------------------------

/- Every byte on the wire but the checksum's is kept. -/
theorem cleared_onWire
    {c len a : Nat}
    {mem : Memory}
    (hPads : stack.PadsOutside len mem)
    (hWire : stack.OnWire len a)
    (hOutside : a < c ∨ c + 2 ≤ a) :
    stack.cleared c len mem a = mem a := by
  by_cases hEnd : a = stack.endOf len
  · have hSize := stack.headroom_add
    subst hEnd
    unfold cleared
    split
    · next hOdd =>
        rw [Function.update_self]
        unfold OnWire endOf at hWire
        unfold PacketStack.Pads endOf at hOdd
        unfold endOf
        rcases hPads with hFull | hEven | hEmpty | hZero
        · simp only [hFull] at hWire
          omega
        · cases hType : stack.options.checksumType with
          | fullPacket =>
              simp only [hType] at hWire
              omega
          | headerOnly =>
              simp only [hType] at hOdd
              omega
        · cases hType : stack.options.checksumType with
          | fullPacket =>
              simp only [hType] at hWire
              omega
          | headerOnly =>
              simp only [hType] at hWire
              omega
        · cases hType : stack.options.checksumType with
          | fullPacket =>
              simp only [hType] at hWire
              omega
          | headerOnly =>
              have hFirst : stack.headroom + stack.headerLen =
                  stack.totalSize - 1 := by omega
              simp only [hFirst, hZero]
    · exact storeShort_of_outside _ _ hOutside
  · exact cleared_of_ne hOutside hEnd

section Padding

variable
    {c len : Nat}
    {mem : Memory}
    (hEnabled : stack.options.checksumEnabled = true)
    (hPlace : stack.netPacket.offset (.header .checksum) =
      .ok (8 * c))

include hEnabled hPlace

/- The checksum is before the byte that pads the packet. -/
theorem checksum_before_end
    (len : Nat) :
    c + 2 ≤ stack.endOf len := by
  have hBetween := checksum_between hEnabled hPlace
  have hLe := stack.le_endOf len
  have hSize := stack.headroom_add
  omega

/- A first byte that is padded is lost unless it is zero. -/
theorem padsOutside_of_cleared
    (hKept : ∀ a, stack.OnWire len a → c + 2 ≤ a →
      stack.cleared c len mem a = mem a) :
    stack.PadsOutside len mem := by
  have hSize := stack.headroom_add
  have hBehind := checksum_before_end hEnabled hPlace len
  unfold PadsOutside
  by_contra hNot
  simp only [not_or] at hNot
  rcases hNot with ⟨hType, hOdd, hNonempty, hFirst⟩
  have hHeader : stack.options.checksumType = .headerOnly := by
    cases hEq : stack.options.checksumType with
    | fullPacket => exact absurd hEq hType
    | headerOnly => rfl
  have hEnd : stack.endOf len = stack.totalSize - 1 := by
    simp only [endOf, hHeader]
    omega
  have hPads : stack.Pads len := by
    unfold Pads
    omega
  have hWire : stack.OnWire len (stack.endOf len) := by
    unfold OnWire
    omega
  have hSame := hKept _ hWire hBehind
  rw [cleared, if_pos hPads, Function.update_self, hEnd]
    at hSame
  exact hFirst hSame.symm

end Padding

end PacketStack

------------------------------------------------------------
-- The Condition
------------------------------------------------------------

section Spares

variable
    {stack : PacketStack}
    {len : Nat}
    {mem : Memory}
    (hEnabled : stack.options.checksumEnabled = true)
    (hFits : stack.totalSize - 1 + len < 2 ^ 31)
    (hLen : stack.LenIs len mem)

include hEnabled hFits hLen

/- What is spared has its checksum and padding in place. -/
theorem PacketStack.SparesPacket.place_and_pads
    (hSpares : stack.SparesPacket len mem) :
    (∃ c, stack.netPacket.offset (.header .checksum) =
      .ok (8 * c)) ∧ stack.PadsOutside len mem := by
  have hMem : .header .checksum ∈ stack.netPacket.order :=
    StackOptions.mem_order_of_wire
      (PacketStack.checksum_mem hEnabled)
  rcases stack.wellFormed.placed hMem with ⟨o, hOffset⟩
  rcases hSpares.computes with ⟨r, hCompute, hBits⟩
  have hMod : o % 8 = 0 := by
    rcases bind_eq_ok_iff.mp hCompute with ⟨mem₁, hSet, -⟩
    exact PacketStack.setInteger_mod
      (PacketStack.checksum_mem hEnabled) hOffset hSet
  rcases Nat.dvd_of_mod_eq_zero hMod with ⟨c, rfl⟩
  refine ⟨⟨c, hOffset⟩,
    PacketStack.padsOutside_of_cleared hEnabled hOffset ?_⟩
  intro a hWire hBehind
  rw [PacketStack.computeChecksum_eq hEnabled hOffset hFits
    (fun _ => hLen)] at hCompute
  cases hCompute
  apply byte_eq_of_bit_eq
  intro i hi
  have hDiv : (8 * a + i) / 8 = a := by omega
  apply hBits
  · rw [hDiv]
    exact hWire
  · rintro ⟨o', hOffset', -, hTo⟩
    cases hOffset.symm.trans hOffset'
    have hSize : (stack.ranged.get
        (.header .checksum)).bitSize = 16 := rfl
    omega

/-
  Computing and checking a checksum spares the packet if and
  only if the checksum is at a byte boundary and the packet
  is padded outside of what is sent.
-/
theorem sparesPacket_iff :
    stack.SparesPacket len mem ↔
      (∃ c, stack.netPacket.offset (.header .checksum) =
        .ok (8 * c)) ∧ stack.PadsOutside len mem := by
  constructor
  · intro hSpares
    exact hSpares.place_and_pads hEnabled hFits hLen
  · rintro ⟨⟨c, hPlace⟩, hPads⟩
    refine ⟨⟨_, PacketStack.computeChecksum_eq hEnabled hPlace
        hFits (fun _ => hLen), ?_⟩,
      ⟨_, PacketStack.checksumIngress_eq hEnabled hPlace hFits
        (fun _ => hLen), ?_⟩⟩
    · intro k hWire hNot
      have hOutside : k / 8 < c ∨ c + 2 ≤ k / 8 := by
        by_contra hIn
        have hSize : (stack.ranged.get
            (.header .checksum)).bitSize = 16 := rfl
        exact hNot ⟨8 * c, hPlace, by omega, by omega⟩
      have hByte := PacketStack.cleared_onWire hPads hWire
        hOutside
      dsimp only
      rw [bit, bit, hByte]
    · intro a hWire
      by_cases hOwn : c ≤ a ∧ a < c + 2
      · exact PacketStack.storeShort_loadShort hOwn.1 hOwn.2
      · have hOutside : a < c ∨ c + 2 ≤ a := by omega
        exact (PacketStack.storeShort_of_outside _ _
          hOutside).trans
            (PacketStack.cleared_onWire hPads hWire hOutside)

end Spares

------------------------------------------------------------
-- A Header of 35 Bytes
------------------------------------------------------------

theorem byteLen_lt : 256 < 2 ^ 31 := by decide

/- Lengths below 256, which take one byte. -/
def byteLenOptions : StackOptions :=
  { StackOptions.plain StackOptions.simpleConfig .noCompat
      .headerOnly with
    maxPacketLen := 256
    maxPacketLen_lt := byteLen_lt }

def byteLenMember : IntegerMember where
  type := .int
  aligned := true
  bitSize := 8
  range := some (0, 256)
  bitSize_le := by decide
  range_lt := by rintro base cap ⟨⟩; decide
  range_le := by rintro base cap ⟨⟩; decide
  range_narrow := by rintro base cap ⟨⟩ -; decide

/- The stack whose packets have lengths of one byte. -/
def byteLenStack : PacketStack where
  options := byteLenOptions
  ranged := { StackOptions.plainMembers with
    totalLen := byteLenMember }
  ranged_eq := by rfl
  totalSize := 60
  totalSize_eq := by decide

/- A packet of this stack with one byte of payload. -/
def shortPacket : Memory :=
  IntegerMember.writeType .int
    (Function.update (fun _ => 0) 59 1) 0 36

theorem shortPacket_len :
    byteLenStack.LenIs 1 shortPacket := by
  refine ⟨_,
    (byteLenStack.computedTotalLen_access shortPacket).2, ?_⟩
  exact IntegerMember.readType_writeType .int _ 0 36

/- Its payload is cleared to pad the header. -/
theorem not_forall_sparesPacket :
    ¬ ∀ (stack : PacketStack) len mem,
      stack.options.compatLevel = .noCompat →
      stack.options.checksumEnabled = true →
      stack.totalSize - 1 + len < 2 ^ 31 →
      stack.LenIs len mem → stack.SparesPacket len mem := by
  intro hAll
  have hFits : byteLenStack.totalSize - 1 + 1 < 2 ^ 31 := by
    decide
  have hSpares := hAll byteLenStack 1 shortPacket rfl rfl hFits
    shortPacket_len
  have hPads := (hSpares.place_and_pads rfl hFits
    shortPacket_len).2
  rcases hPads with hFull | hEven | hEmpty | hZero
  · cases hFull
  · exact absurd hEven (by decide)
  · cases hEmpty
  · exact absurd hZero (by decide)

theorem sparesPacket_iff_short :
    byteLenStack.SparesPacket 1 shortPacket ↔
      (∃ c, byteLenStack.netPacket.offset
        (.header .checksum) = .ok (8 * c)) ∧
        byteLenStack.PadsOutside 1 shortPacket :=
  sparesPacket_iff rfl (by decide) shortPacket_len

end NetBlocks
