import NetBlocks.Stack.Access

/-
  The IP header of a packet that is sent: where its members
  are, and that its words add up to the largest number.

  Main declarations:
    * `PacketStack.ipHeader_places`
    * `PacketStack.IpHeaderVerifies`
    * `ipChecksum_verifies`
-/

namespace NetBlocks

open ByteMemory Except

------------------------------------------------------------
-- Places of the Header
------------------------------------------------------------

namespace PacketStack

section IpHeader

variable
    {stack : PacketStack}
    (hIP : stack.isIPCompat = true)
    (hRouting : stack.options.routingEnabled = true)

include hIP hRouting

theorem networkGroup_eq :
    stack.options.networkGroup =
      [.compat .ipVIDE, .compat .ipTotalLen, .compat .ipIFF,
        .compat .ipTtl, .compat .ipProtocol,
        .compat .ipHeaderChecksum, .header .dstGlobalId,
        .header .srcGlobalId] := by
  have hCompat : stack.options.compatLevel.isIPCompat = true :=
    hIP
  simp [StackOptions.networkGroup, hCompat, hRouting]

theorem mem_order_of_network
    {name : StackMember}
    (hMem : name ∈ [StackMember.compat .ipVIDE,
      .compat .ipTotalLen, .compat .ipIFF, .compat .ipTtl,
      .compat .ipProtocol, .compat .ipHeaderChecksum,
      .header .dstGlobalId, .header .srcGlobalId]) :
    name ∈ stack.netPacket.order := by
  rw [← networkGroup_eq hIP hRouting] at hMem
  apply StackOptions.mem_order_of_wire
  rw [StackOptions.wireMembers]
  exact List.mem_append_left _ (List.mem_append_left _
    (List.mem_append_right _ hMem))

/- The checksum is ten bytes into the header. -/
theorem ipHeader_places :
    ∃ addr, stack.netPacket.offset (.compat .ipVIDE) =
        .ok (8 * addr) ∧
      stack.netPacket.offset (.compat .ipHeaderChecksum) =
        .ok (8 * (addr + 10)) := by
  have hOrder : stack.netPacket.order =
      stack.options.localGroup ++ (stack.options.linkGroup ++
        stack.options.networkGroup ++
        stack.options.transportGroup ++
        stack.options.protocolGroup ++ [.payload]) :=
    stack.options.order_eq stack.ranged
  rw [networkGroup_eq hIP hRouting] at hOrder
  let rest : List StackMember :=
    [.header .dstGlobalId, .header .srcGlobalId] ++
      stack.options.transportGroup ++
      stack.options.protocolGroup ++ [.payload]
  have hFirst : stack.netPacket.order =
      (stack.options.localGroup ++ stack.options.linkGroup) ++
        .compat .ipVIDE :: ([.compat .ipTotalLen,
          .compat .ipIFF, .compat .ipTtl, .compat .ipProtocol,
          .compat .ipHeaderChecksum] ++ rest) := by
    rw [hOrder]
    simp [rest]
  have hLater : stack.netPacket.order =
      ((stack.options.localGroup ++ stack.options.linkGroup) ++
        [.compat .ipVIDE, .compat .ipTotalLen,
          .compat .ipIFF, .compat .ipTtl,
          .compat .ipProtocol]) ++
        .compat .ipHeaderChecksum :: rest := by
    rw [hOrder]
    simp [rest]
  have hLayout := stack.wellFormed
  have hOffset := hLayout.offset_eq hFirst
  have hOffset' := hLayout.offset_eq hLater
  have hMem : StackMember.compat .ipVIDE ∈
      stack.netPacket.order :=
    mem_order_of_network hIP hRouting (by simp)
  have hMod := hLayout.aligned hMem
    (StackOptions.alignedOf_eq hMem) hOffset
  let between : List StackMember :=
    [.compat .ipProtocol, .compat .ipTtl, .compat .ipIFF,
      .compat .ipTotalLen]
  have hSize : ∀ name ∈ .compat .ipVIDE :: between,
      stack.netPacket.sizeOf name =
        (stack.ranged.get name).bitSize := by
    intro name hIn
    apply StackOptions.sizeOf_eq
    apply mem_order_of_network hIP hRouting
    simp only [between, List.mem_cons, List.not_mem_nil,
      or_false] at hIn
    rcases hIn with rfl | rfl | rfl | rfl | rfl <;> simp
  have hBytes : ∀ name ∈ .compat .ipVIDE :: between,
      8 ∣ stack.netPacket.sizeOf name := by
    intro name hIn
    rw [hSize name hIn]
    simp only [between, List.mem_cons, List.not_mem_nil,
      or_false] at hIn
    rcases hIn with rfl | rfl | rfl | rfl | rfl <;>
      exact Dvd.intro _ rfl
  have hSum : ((.compat .ipVIDE :: between).map
      stack.netPacket.sizeOf).sum = 80 := by
    rw [List.map_congr_left hSize]
    rfl
  have hBehind := DynamicLayout.offsetAfter_append
    stack.netPacket between hMod hBytes
      (.compat .ipHeaderChecksum)
  rw [hSum] at hBehind
  have hReverse : (stack.options.localGroup ++
      stack.options.linkGroup ++ [StackMember.compat .ipVIDE,
        .compat .ipTotalLen, .compat .ipIFF, .compat .ipTtl,
        .compat .ipProtocol]).reverse =
      between ++ .compat .ipVIDE ::
        (stack.options.localGroup ++
          stack.options.linkGroup).reverse := by
    simp [between]
  rw [hReverse, hBehind] at hOffset'
  rcases Nat.dvd_of_mod_eq_zero hMod with ⟨addr, hAddr⟩
  rw [hAddr] at hOffset hOffset'
  exact ⟨addr, hOffset, hOffset'⟩

------------------------------------------------------------
-- The Words of the Header
------------------------------------------------------------

/- The members that are set fit, whatever they are set to. -/
theorem network_fit
    {name : StackMember}
    {v : BitVec 64}
    (hMem : name ∈ [StackMember.compat .ipVIDE,
      .compat .ipTotalLen, .compat .ipIFF, .compat .ipTtl,
      .compat .ipProtocol, .compat .ipHeaderChecksum,
      .header .dstGlobalId, .header .srcGlobalId])
    (hLt : v.toNat <
      2 ^ (stack.ranged.get name).bitSize) :
    name ∈ stack.netPacket.order ∧ stack.EncodesMember name ∧
      (stack.ranged.get name).InRange v := by
  have hIn := mem_order_of_network hIP hRouting hMem
  simp only [List.mem_cons, List.not_mem_nil, or_false] at hMem
  refine ⟨hIn, encodesMember_of_aligned hIn ?_,
    IntegerMember.inRange_of_lt ?_ ?_ hLt⟩ <;>
    · rcases hMem with rfl | rfl | rfl | rfl | rfl | rfl | rfl |
        rfl <;> rfl

/- The global ids fill their members. -/
theorem globalIds_fit
    (values : SendValues) :
    stack.CallsFit (globalIds values) := by
  have hWord : ∀ w : BitVec 32,
      (w.setWidth 64).toNat < 2 ^ 32 := by
    intro w
    rw [BitVec.toNat_setWidth_of_le (by decide)]
    exact w.isLt
  intro call hMem
  simp only [globalIds, List.mem_cons, List.not_mem_nil,
    or_false] at hMem
  rcases hMem with rfl | rfl
  · exact network_fit hIP hRouting (by simp) (hWord _)
  · exact network_fit hIP hRouting (by simp) (hWord _)

theorem ipHeader_fit
    (len : Nat) :
    stack.CallsFit (ipHeader len) := by
  have hShort : ((ipLen len).setWidth 64).toNat < 2 ^ 16 := by
    rw [BitVec.toNat_setWidth_of_le (by decide)]
    exact (ipLen len).isLt
  intro call hMem
  simp only [ipHeader, List.mem_cons, List.not_mem_nil,
    or_false] at hMem
  rcases hMem with rfl | rfl | rfl | rfl | rfl | rfl
  · exact network_fit hIP hRouting (by simp)
      (by decide : (0x0045 : BitVec 64).toNat < 2 ^ 16)
  · exact network_fit hIP hRouting (by simp)
      (by decide : (0x0040724a : BitVec 64).toNat < 2 ^ 32)
  · exact network_fit hIP hRouting (by simp)
      (by decide : (0x40 : BitVec 64).toNat < 2 ^ 8)
  · exact network_fit hIP hRouting (by simp)
      (by decide : (0x11 : BitVec 64).toNat < 2 ^ 8)
  · exact network_fit hIP hRouting (by simp)
      (by decide : (0 : BitVec 64).toNat < 2 ^ 16)
  · exact network_fit hIP hRouting (by simp) hShort

/- The words of the header that is sent add up. -/
theorem routingSend_verifies
    (values : SendValues)
    (len : Nat)
    (mem : Memory) :
    ∃ addr mem',
      stack.netPacket.getAddr (.compat .ipVIDE) = .ok addr ∧
      stack.routingSend values len mem = .ok mem' ∧
      OnesComplement.sum 0xffff
        (bigEndianWords mem' addr 10) = 0xffff := by
  rcases ipHeader_places hIP hRouting with
    ⟨addr, hHeader, hChecksum⟩
  rcases setIntegers_spec (globalIds_fit hIP hRouting values)
    (by simp [globalIds]) mem with ⟨mem₁, hIds, -⟩
  rcases setIntegers_spec (ipHeader_fit hIP hRouting len)
    (by simp [ipHeader]) mem₁ with ⟨mem₂, hSet, -, hValues⟩
  rcases short_access hChecksum
    (mem_order_of_network hIP hRouting (by simp))
    rfl rfl rfl mem₂ with ⟨hStore, hLoad⟩
  have hAddr := DynamicLayout.getAddr_eq hHeader
  -- the checksum is still zero when it is computed
  have hZero : bigEndianWord mem₂ (addr + 10) = 0 := by
    rcases hValues (.compat .ipHeaderChecksum, 0)
      (by simp [ipHeader]) with ⟨x, hX, hSame⟩
    cases hX.symm.trans hLoad
    have hShort : loadShort mem₂ (addr + 10) = 0 := by
      have hSame : ((loadShort mem₂ (addr + 10)).setWidth
          64).setWidth 16 = (0 : BitVec 64).setWidth 16 := hSame
      simpa using hSame
    rw [← toNat_ntohs_loadShort, hShort]
    rfl
  have hVerifies := (doIpChecksum_verifies
    (show 20 ≤ 2 * 65537 by decide)
    (show 5 < 20 / 2 by decide) hZero).verifies
  refine ⟨addr, _, hAddr, ?_, hVerifies⟩
  simp only [routingSend, hIds, ok_bind, hIP, if_true, hSet,
    hAddr, hStore]

end IpHeader

end PacketStack

------------------------------------------------------------
-- The Checksum Verifies
------------------------------------------------------------

/-
  The checksum of every buffer verifies once it is stored,
  and so does that of every IP header that is sent.
-/
theorem ipChecksum_verifies :
    (∀ mem p len k, len % 2 = 0 → len ≤ 2 * 65537 →
      k < len / 2 → bigEndianWord mem (p + 2 * k) = 0 →
        ChecksumVerifies mem p len k) ∧
      ∀ stack : PacketStack, stack.isIPCompat = true →
        stack.options.routingEnabled = true →
          ∀ values len mem, ∃ addr mem',
            stack.netPacket.getAddr (.compat .ipVIDE) =
              .ok addr ∧
            stack.routingSend values len mem = .ok mem' ∧
            OnesComplement.sum 0xffff
              (bigEndianWords mem' addr 10) = 0xffff :=
  ⟨fun _ _ _ _ _ hLe hWord hZero =>
      doIpChecksum_verifies hLe hWord hZero,
    fun _ hIP hRouting values len mem =>
      PacketStack.routingSend_verifies hIP hRouting values
        len mem⟩

/- A stack that is compatible with UDP, without numbers. -/
def udpStack : PacketStack where
  options := .plain
    { flowIdentifier := .srcDstIdentifier
      inorderStrategy := .noInorder
      reliableEnabled := false
      signalingEnabled := true
      routingEnabled := true
      checksumEnabled := false }
    .udpCompat .fullPacket
  ranged := StackOptions.plainMembers
  ranged_eq := StackOptions.plain_rangedMembers _ _ _
  totalSize := 59
  totalSize_eq := by decide

theorem ipChecksum_verifies_udp :
    ChecksumVerifies (fun _ => 0) 0 20 5 ∧
      ∃ addr mem',
        udpStack.netPacket.getAddr (.compat .ipVIDE) =
          .ok addr ∧
        udpStack.routingSend PacketStack.simpleValues 100
          (fun _ => 0) = .ok mem' ∧
        OnesComplement.sum 0xffff
          (bigEndianWords mem' addr 10) = 0xffff :=
  ⟨ipChecksum_verifies.1 _ 0 20 5 rfl (by decide) (by decide)
      rfl,
    ipChecksum_verifies.2 udpStack rfl rfl _ 100 _⟩

end NetBlocks
