import NetBlocks.Core.Layout

/-
  Reading a header: a member is the range base plus the bits
  that the layout gives it, whatever is around them.

  Main declarations:
    * `IntegerMember.getInteger_slice`
    * `DynamicLayout.decodes_slice`
-/

namespace NetBlocks

open ByteMemory

/-
  At any offset, `get_integer` adds the bits of the member to
  its base, as far as its type shows.
-/
theorem IntegerMember.getInteger_slice
    (m : IntegerMember)
    (offset : Nat)
    (mem : Memory) :
    ∃ x, m.getInteger offset mem = .ok x ∧
      x.setWidth m.type.bits =
        m.rangeBase.setWidth m.type.bits +
          BitVec.ofNat m.type.bits
            (slice mem offset m.bitSize) := by
  rcases m.getBits_spec offset mem with ⟨x, hX, hBits⟩
  refine ⟨x + m.rangeBase, getInteger_eq hX, ?_⟩
  have hWide := m.type.bits_le
  have hSlice : x.setWidth m.type.bits =
      BitVec.ofNat m.type.bits
        (slice mem offset m.bitSize) := by
    apply BitVec.eq_of_getLsbD_eq
    intro i hi
    rw [BitVec.getLsbD_setWidth, BitVec.getLsbD_ofNat,
      testBit_slice, hBits i (by omega)]
    by_cases hIn : i < m.bitSize
    · simp [hIn]
    · -- a bit above the member is a sign only if there is none
      have hNarrow : m.bitSize ≠ m.type.bits := by omega
      simp [hIn, signExtends, hNarrow]
  rw [BitVec.setWidth_add _ _ hWide, hSlice, BitVec.add_comm]

namespace DynamicLayout

variable {ν : Type} [DecidableEq ν]

/- A member of a built layout is its base plus its bits. -/
theorem decodes_slice
    {layout : DynamicLayout ν}
    {name : ν}
    {m : IntegerMember}
    (hBuilt : layout.Built)
    (hMember : layout.membersMap name = some (.integer m)) :
    ∃ o, layout.offset name = .ok o ∧
      ∀ mem, ∃ x, layout.getInteger name mem = .ok x ∧
        x.setWidth m.type.bits =
          m.rangeBase.setWidth m.type.bits +
            BitVec.ofNat m.type.bits
              (slice mem o m.bitSize) := by
  have hLayout := hBuilt.wellFormed
  have hMem := (hLayout.mapped name).mpr (by simp [hMember])
  rcases List.append_of_mem hMem with ⟨xs, ys, hOrder⟩
  have hOffset := hLayout.offset_eq hOrder
  refine ⟨_, hOffset, ?_⟩
  intro mem
  rw [(access_eq hMember hOffset).2]
  exact m.getInteger_slice _ mem

/- The last of three members in a byte is its upper bits. -/
theorem decodes_slice_sharedByte :
    let m := bitsMember 2 (by decide)
    ∃ o, sharedByte.offset 2 = .ok o ∧
      ∀ mem, ∃ x, sharedByte.getInteger 2 mem = .ok x ∧
        x.setWidth m.type.bits =
          m.rangeBase.setWidth m.type.bits +
            BitVec.ofNat m.type.bits
              (slice mem o m.bitSize) :=
  decodes_slice (m := bitsMember 2 (by decide))
    sharedByte_built rfl

end DynamicLayout

end NetBlocks
