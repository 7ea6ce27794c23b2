import NetBlocks.Stack.Checksum

/-
  What a packet holds once it is sent, if the layout puts its
  members at byte boundaries and they are given values they
  are for: its length, in both members, and its checksum.

  Main declarations:
    * `PacketStack.ByteAligned` and `PacketStack.ValuesFit`
    * `PacketStack.SentLen`
    * `PacketStack.runSendPath_spec`
-/

namespace NetBlocks

open ByteMemory Except

------------------------------------------------------------
-- Members With Custom Ranges
------------------------------------------------------------

namespace IntegerMember

/- A custom range changes neither type nor alignment. -/
theorem setCustomRange_ok
    {m m' : IntegerMember}
    {base cap : Int}
    {hLt : base < cap}
    {hBase : m.type.Holds base}
    {hCap : m.type.Holds cap}
    (hSet : m.setCustomRange base cap hLt hBase hCap =
      .ok m') :
    m'.type = m.type ∧ m'.aligned = m.aligned := by
  unfold setCustomRange at hSet
  dsimp only at hSet
  split at hSet
  · cases hSet
  · split at hSet
    · cases hSet
    · cases hSet
      exact ⟨rfl, rfl⟩

end IntegerMember

namespace StackOptions

theorem totalLenMember_ok
    {options : StackOptions}
    {m : IntegerMember}
    (hMember : options.totalLenMember = .ok m) :
    m.type = .int ∧ m.aligned = true := by
  unfold totalLenMember at hMember
  dsimp only at hMember
  split at hMember
  · exact IntegerMember.setCustomRange_ok hMember
  · cases hMember
    exact ⟨rfl, rfl⟩

theorem hostIdMember_ok
    {options : StackOptions}
    {m : IntegerMember}
    (hMember : options.hostIdMember = .ok m) :
    m.type = .unsignedLongLong := by
  unfold hostIdMember at hMember
  dsimp only at hMember
  split at hMember
  · rcases bind_eq_ok_iff.mp hMember with ⟨m', hRange, hEq⟩
    cases hEq
    exact (IntegerMember.setCustomRange_ok hRange).1
  · cases hMember
    rfl

theorem rangedMembers_ok
    {options : StackOptions}
    {ranged : RangedMembers}
    (hRanged : options.rangedMembers = .ok ranged) :
    options.totalLenMember = .ok ranged.totalLen ∧
      options.hostIdMember = .ok ranged.hostId ∧
      options.appIdMember = .ok ranged.appId := by
  rcases bind_eq_ok_iff.mp hRanged with
    ⟨totalLen, hTotalLen, hRest⟩
  rcases bind_eq_ok_iff.mp hRest with ⟨hostId, hHostId, hRest⟩
  rcases bind_eq_ok_iff.mp hRest with ⟨appId, hAppId, hRest⟩
  cases hRest
  exact ⟨hTotalLen, hHostId, hAppId⟩

end StackOptions

namespace PacketStack

variable {stack : PacketStack}

theorem totalLen_type
    (stack : PacketStack) :
    stack.ranged.totalLen.type = .int :=
  (StackOptions.totalLenMember_ok
    (StackOptions.rangedMembers_ok stack.ranged_eq).1).1

------------------------------------------------------------
-- Byte-Aligned Layouts
------------------------------------------------------------

/- Every member starts at a byte. -/
def ByteAligned
    (stack : PacketStack) : Prop :=
  ∀ name ∈ stack.netPacket.order, ∀ o,
    stack.netPacket.offset name = .ok o → o % 8 = 0

theorem ByteAligned.encodes
    {name : StackMember}
    (hAligned : stack.ByteAligned)
    (hMem : name ∈ stack.netPacket.order) :
    stack.EncodesMember name := by
  intro o hOffset
  have hMod := hAligned name hMem o hOffset
  exact ⟨Or.inl hMod, Or.inl hMod⟩

/-
  The ids are in the ranges of their members. The values of
  the other members fill their types.
-/
structure ValuesFit
    (stack : PacketStack)
    (values : SendValues) : Prop where
  remoteHostId : stack.ranged.hostId.InRange values.remoteHostId
  remoteAppId : stack.ranged.appId.InRange
    (values.remoteAppId.setWidth 64)
  myLocalHostId : stack.ranged.hostId.InRange
    values.myLocalHostId
  localAppId : stack.ranged.appId.InRange
    (values.localAppId.setWidth 64)

/- Small ids are in range where no range is set. -/
theorem valuesFit_plain
    (hRanged : stack.ranged = StackOptions.plainMembers) :
    stack.ValuesFit simpleValues := by
  constructor <;> rw [hRanged] <;>
    exact IntegerMember.inRange_of_lt rfl rfl (by decide)

/- The values that a list of members is set to are in range. -/
def CallsInRange
    (stack : PacketStack)
    (calls : List (StackMember × BitVec 64)) : Prop :=
  ∀ call ∈ calls, (stack.ranged.get call.1).InRange call.2

/- What has been set was in the layout. -/
theorem mem_order_of_setIntegers
    {calls : List (StackMember × BitVec 64)}
    {mem mem' : Memory}
    (hSet : stack.netPacket.setIntegers calls mem =
      .ok mem') :
    ∀ call ∈ calls, call.1 ∈ stack.netPacket.order := by
  induction calls generalizing mem with
  | nil =>
      intro call hMem
      cases hMem
  | cons call calls ih =>
      rw [DynamicLayout.setIntegers, List.foldlM_cons] at hSet
      rcases bind_eq_ok_iff.mp hSet with ⟨mem₁, hFirst, hRest⟩
      intro other hMem
      rcases List.mem_cons.mp hMem with rfl | hMem
      · exact mem_order_of_setInteger hFirst
      · exact ih hRest other hMem

/- A run that sets members in range writes only these. -/
theorem setIntegers_ok
    {calls : List (StackMember × BitVec 64)}
    {mem mem' : Memory}
    (hAligned : stack.ByteAligned)
    (hRange : stack.CallsInRange calls)
    (hNodup : (calls.map Prod.fst).Nodup)
    (hSet : stack.netPacket.setIntegers calls mem =
      .ok mem') :
    stack.WritesOnly (calls.map Prod.fst) mem mem' ∧
      (∀ name ∈ calls.map Prod.fst,
        name ∈ stack.netPacket.order) ∧
      ∀ call ∈ calls,
        ∃ x, stack.netPacket.getInteger call.1 mem' = .ok x ∧
          stack.SameValue call.1 x call.2 := by
  have hIn := mem_order_of_setIntegers hSet
  have hFit : stack.CallsFit calls := fun call hMem =>
    ⟨hIn call hMem, hAligned.encodes (hIn call hMem),
      hRange call hMem⟩
  rcases setIntegers_spec hFit hNodup mem with
    ⟨mem₁, hSet₁, hWrites, hValues⟩
  cases hSet.symm.trans hSet₁
  refine ⟨hWrites, ?_, hValues⟩
  intro name hMem
  rcases List.mem_map.mp hMem with ⟨call, hCall, rfl⟩
  exact hIn call hCall

------------------------------------------------------------
-- Values of the Hooks
------------------------------------------------------------

theorem inRange_word
    {name : StackMember}
    (hRange : (stack.ranged.get name).range = none)
    (hType : (stack.ranged.get name).type = .unsignedInt)
    (hBits : (stack.ranged.get name).bitSize = 32)
    (w : BitVec 32) :
    (stack.ranged.get name).InRange (w.setWidth 64) := by
  apply IntegerMember.inRange_of_lt hRange (by rw [hType]; rfl)
  rw [hBits, BitVec.toNat_setWidth_of_le (by decide)]
  exact w.isLt

theorem inorderSend_inRange
    (stack : PacketStack)
    (values : SendValues) :
    stack.CallsInRange (stack.inorderSend values) := by
  intro call hMem
  unfold inorderSend at hMem
  split at hMem
  · rw [List.mem_singleton.mp hMem]
    exact inRange_word rfl rfl rfl _
  · cases hMem

theorem reliableSend_inRange
    (stack : PacketStack)
    (values : SendValues) :
    stack.CallsInRange (reliableSend values) := by
  intro call hMem
  simp only [reliableSend, List.mem_cons, List.not_mem_nil,
    or_false] at hMem
  rcases hMem with rfl | rfl
  · exact IntegerMember.inRange_of_lt rfl rfl
      values.redeliveryTimer.isLt
  · exact inRange_word rfl rfl rfl 0

theorem globalIds_inRange
    (stack : PacketStack)
    (values : SendValues) :
    stack.CallsInRange (globalIds values) := by
  intro call hMem
  simp only [globalIds, List.mem_cons, List.not_mem_nil,
    or_false] at hMem
  rcases hMem with rfl | rfl
  · exact inRange_word rfl rfl rfl _
  · exact inRange_word rfl rfl rfl _

theorem identifierSend_inRange
    {values : SendValues}
    (hValues : stack.ValuesFit values) :
    stack.CallsInRange (stack.identifierSend values) := by
  intro call hMem
  rcases List.mem_append.mp hMem with hMem | hMem
  · simp only [List.mem_cons, List.not_mem_nil,
      or_false] at hMem
    rcases hMem with rfl | rfl | rfl | rfl
    · exact hValues.remoteHostId
    · exact hValues.remoteAppId
    · exact hValues.myLocalHostId
    · exact hValues.localAppId
  · split at hMem
    · rw [List.mem_singleton.mp hMem]
      exact IntegerMember.inRange_of_lt rfl rfl
        (by decide : (0x0008 : BitVec 64).toNat < 2 ^ 16)
    · cases hMem

theorem ipHeader_inRange
    (stack : PacketStack)
    (len : Nat) :
    stack.CallsInRange (ipHeader len) := by
  have hShort : ((ipLen len).setWidth 64).toNat < 2 ^ 16 := by
    rw [BitVec.toNat_setWidth_of_le (by decide)]
    exact (ipLen len).isLt
  intro call hMem
  simp only [ipHeader, List.mem_cons, List.not_mem_nil,
    or_false] at hMem
  rcases hMem with rfl | rfl | rfl | rfl | rfl | rfl
  · exact IntegerMember.inRange_of_lt rfl rfl
      (by decide : (0x0045 : BitVec 64).toNat < 2 ^ 16)
  · exact IntegerMember.inRange_of_lt rfl rfl
      (by decide : (0x0040724a : BitVec 64).toNat < 2 ^ 32)
  · exact IntegerMember.inRange_of_lt rfl rfl
      (by decide : (0x40 : BitVec 64).toNat < 2 ^ 8)
  · exact IntegerMember.inRange_of_lt rfl rfl
      (by decide : (0x11 : BitVec 64).toNat < 2 ^ 8)
  · exact IntegerMember.inRange_of_lt rfl rfl
      (by decide : (0 : BitVec 64).toNat < 2 ^ 16)
  · exact IntegerMember.inRange_of_lt rfl rfl hShort

theorem ipHeaderChecksum_inRange
    (stack : PacketStack)
    (checksum : BitVec 16) :
    stack.CallsInRange
      [(.compat .ipHeaderChecksum, checksum.setWidth 64)] := by
  intro call hMem
  rw [List.mem_singleton.mp hMem]
  have hLt : (checksum.setWidth 64).toNat < 2 ^ 16 := by
    rw [BitVec.toNat_setWidth_of_le (by decide)]
    exact checksum.isLt
  exact IntegerMember.inRange_of_lt rfl rfl hLt

------------------------------------------------------------
-- The Length of a Packet
------------------------------------------------------------

/-
  Headers and payload have a length that is an `int`, and one
  that `total_len` is for, if the packet has this member.
-/
structure LengthFits
    (stack : PacketStack)
    (len : Nat) : Prop where
  isInt : stack.totalSize - 1 + len < 2 ^ 31
  inRange : stack.isIPCompat = false →
    stack.ranged.totalLen.InRange
      ((stack.packetLen len).setWidth 64)

/- `total_len` says how long the packet is. -/
def TotalIs
    (stack : PacketStack)
    (len : Nat)
    (mem : Memory) : Prop :=
  ∃ x, stack.netPacket.getInteger (.header .totalLen) mem =
      .ok x ∧
    x.setWidth 32 = stack.packetLen len

theorem LengthFits.toNat_packetLen
    {len : Nat}
    (hFits : stack.LengthFits len) :
    (stack.packetLen len).toNat = stack.headerLen + len := by
  have hSize := stack.headroom_add
  have hInt := hFits.isInt
  simp only [packetLen, BitVec.toNat_add, BitVec.toNat_ofNat]
  omega

/- A number that is an `int` is in range of such a member. -/
theorem inRange_int
    {v : BitVec 32}
    (hLt : v.toNat < 2 ^ 31) :
    Field.computedTotalLen.member.InRange (v.setWidth 64) := by
  have hFull : Field.computedTotalLen.member.IsFullSigned :=
    ⟨rfl, rfl, rfl⟩
  have hMsb : v.msb = false :=
    BitVec.msb_eq_false_iff_two_mul_lt.mpr (by omega)
  have hRange : Field.computedTotalLen.member.range = none :=
    rfl
  have hBack : (v.setWidth 64).setWidth 32 = v := by simp
  unfold IntegerMember.InRange
  rw [hRange]
  simp only [hFull, if_true]
  change v.setWidth 64 =
    ((v.setWidth 64).setWidth 32).signExtend 64
  rw [hBack, BitVec.signExtend_eq_setWidth_of_msb_false hMsb]

theorem lengthSend_inRange
    {len : Nat}
    (hFits : stack.LengthFits len) :
    stack.CallsInRange (stack.lengthSend
      ((stack.packetLen len).setWidth 64)) := by
  have hSize := stack.headroom_add
  have hInt := hFits.isInt
  have hLt : (stack.packetLen len).toNat < 2 ^ 31 := by
    rw [hFits.toNat_packetLen]
    omega
  intro call hMem
  unfold lengthSend at hMem
  split at hMem
  · rw [List.mem_singleton.mp hMem]
    exact inRange_int hLt
  · next hIP =>
      simp only [List.cons_append, List.nil_append,
        List.mem_cons, List.not_mem_nil, or_false] at hMem
      rcases hMem with rfl | rfl
      · exact hFits.inRange (Bool.eq_false_iff.mpr hIP)
      · exact inRange_int hLt

/- The members sent are before the payload. -/
theorem wire_bits
    {name : StackMember}
    {k : Nat}
    (hMem : name ∈ stack.options.wireMembers)
    (hBit : stack.HasBit name k) :
    stack.headroom ≤ k / 8 ∧ k / 8 < stack.totalSize - 1 := by
  rcases StackOptions.wire_place stack.totalSize_eq hMem with
    ⟨o, hOffset, hFrom, hTo⟩
  rcases hBit with ⟨o', hOffset', hLe, hLt⟩
  cases hOffset.symm.trans hOffset'
  unfold headroom
  omega

/- They are read without the payload. -/
theorem getInteger_of_headers
    {name : StackMember}
    {mem mem' : Memory}
    (hMem : name ∈ stack.options.wireMembers)
    (hBytes : ∀ a, a < stack.totalSize - 1 →
      mem' a = mem a) :
    stack.netPacket.getInteger name mem' =
      stack.netPacket.getInteger name mem := by
  apply getInteger_of_bits (StackOptions.mem_order_of_wire hMem)
  intro k hBit
  have hLt := (wire_bits hMem hBit).2
  rw [bit, bit, hBytes (k / 8) hLt]

theorem totalLen_mem
    (hIP : stack.isIPCompat = false) :
    .header .totalLen ∈ stack.options.wireMembers := by
  have hCompat : stack.options.compatLevel.isIPCompat =
    false := hIP
  simp [StackOptions.wireMembers, StackOptions.protocolGroup,
    hCompat]

theorem lengthSend_nodup
    (v : BitVec 64) :
    ((stack.lengthSend v).map Prod.fst).Nodup := by
  unfold lengthSend
  split <;> simp

/- `payload_module::hook_send` says how long the packet is. -/
theorem payloadSend_spec
    {buff : List Byte}
    {mem mem' : Memory}
    (hAligned : stack.ByteAligned)
    (hFits : stack.LengthFits buff.length)
    (hIP : stack.isIPCompat = false)
    (hSend : stack.payloadSend buff mem = .ok mem') :
    stack.TotalIs buff.length mem' := by
  rcases bind_eq_ok_iff.mp hSend with ⟨mem₁, hSet, hRest⟩
  rcases bind_eq_ok_iff.mp hRest with ⟨addr, hAddr, hCopy⟩
  have hPlace := DynamicLayout.getAddr_eq
    (StackOptions.payload_place stack.totalSize_eq).1
  cases hAddr.symm.trans hPlace
  cases hCopy
  rcases setIntegers_ok hAligned (lengthSend_inRange hFits)
    (lengthSend_nodup _) hSet with ⟨-, -, hValues⟩
  rcases hValues (.header .totalLen, _) (by
      simp only [lengthSend, hIP]
      exact List.mem_cons_self ..) with ⟨x, hX, hValue⟩
  refine ⟨x, ?_, ?_⟩
  · rw [← hX]
    apply getInteger_of_headers (totalLen_mem hIP)
    intro a hLt
    rw [writeBytes, if_pos hLt]
  · have hType : (stack.ranged.get (.header .totalLen)).type =
      .int := stack.totalLen_type
    unfold SameValue at hValue
    rw [hType] at hValue
    have hBits : IntType.int.bits = 32 := rfl
    rw [hBits] at hValue
    rw [hValue]
    simp

------------------------------------------------------------
-- Members of the Hooks
------------------------------------------------------------

/- The members that a hook sets, but for the lengths. -/
def hookNames
    (stack : PacketStack) : Module → List StackMember
| .inorder =>
    if stack.options.isNumbered then
      [.header .sequenceNumber]
    else
      []
| .reliable =>
    [.header .redeliveryTimer, .header .ackSequenceNumber]
| .identifier =>
    [.header .dstHostId, .header .dstAppId,
      .header .srcHostId, .header .srcAppId] ++
    if stack.options.compatLevel.isEthCompat then
      [.compat .protocolIdentifier]
    else
      []
| .routing =>
    [.header .dstGlobalId, .header .srcGlobalId] ++
    if stack.isIPCompat then
      [.compat .ipVIDE, .compat .ipIFF, .compat .ipTtl,
        .compat .ipProtocol, .compat .ipHeaderChecksum,
        .compat .ipTotalLen]
    else
      []
| _ => []

/- Only these members of the layout change. -/
def SetsOnly
    (stack : PacketStack)
    (names : List StackMember)
    (mem mem' : Memory) : Prop :=
  stack.WritesOnly names mem mem' ∧
    ∀ name ∈ names, name ∈ stack.netPacket.order

theorem SetsOnly.refl
    (mem : Memory) :
    stack.SetsOnly [] mem mem :=
  ⟨WritesOnly.refl mem, fun _ hMem => by cases hMem⟩

theorem SetsOnly.trans
    {names names' : List StackMember}
    {mem mem₁ mem₂ : Memory}
    (hFirst : stack.SetsOnly names mem mem₁)
    (hSecond : stack.SetsOnly names' mem₁ mem₂) :
    stack.SetsOnly (names ++ names') mem mem₂ := by
  refine ⟨hFirst.1.trans hSecond.1, ?_⟩
  intro name hMem
  rcases List.mem_append.mp hMem with hMem | hMem
  · exact hFirst.2 name hMem
  · exact hSecond.2 name hMem

theorem SetsOnly.mono
    {names names' : List StackMember}
    {mem mem' : Memory}
    (hSets : stack.SetsOnly names mem mem')
    (hSubset : names ⊆ names')
    (hSuperset : names' ⊆ names) :
    stack.SetsOnly names' mem mem' :=
  ⟨hSets.1.mono hSubset,
    fun name hMem => hSets.2 name (hSuperset hMem)⟩

/- The other members are read as before. -/
theorem SetsOnly.getInteger_eq
    {names : List StackMember}
    {name : StackMember}
    {mem mem' : Memory}
    (hSets : stack.SetsOnly names mem mem')
    (hMem : name ∈ stack.netPacket.order)
    (hNot : name ∉ names) :
    stack.netPacket.getInteger name mem' =
      stack.netPacket.getInteger name mem :=
  hSets.1.getInteger_eq hSets.2 hMem hNot

theorem setIntegers_setsOnly
    {calls : List (StackMember × BitVec 64)}
    {mem mem' : Memory}
    (hAligned : stack.ByteAligned)
    (hRange : stack.CallsInRange calls)
    (hNodup : (calls.map Prod.fst).Nodup)
    (hSet : stack.netPacket.setIntegers calls mem =
      .ok mem') :
    stack.SetsOnly (calls.map Prod.fst) mem mem' := by
  rcases setIntegers_ok hAligned hRange hNodup hSet with
    ⟨hWrites, hIn, -⟩
  exact ⟨hWrites, hIn⟩

/-
  `routing_module::hook_send` sets its members, and leaves
  the length in the IP header.
-/
theorem routingSend_spec
    {values : SendValues}
    {len : Nat}
    {mem mem' : Memory}
    (hAligned : stack.ByteAligned)
    (hSend : stack.routingSend values len mem = .ok mem') :
    stack.SetsOnly (stack.hookNames .routing) mem mem' ∧
      (stack.isIPCompat = true →
        ∃ x, stack.netPacket.getInteger (.compat .ipTotalLen)
            mem' = .ok x ∧
          x.setWidth 16 = ipLen len) := by
  rcases bind_eq_ok_iff.mp hSend with ⟨mem₁, hSet, hRest⟩
  have hIds := setIntegers_setsOnly hAligned
    (stack.globalIds_inRange values) (by simp [globalIds])
    hSet
  unfold hookNames
  split at hRest
  · next hIP =>
      rcases bind_eq_ok_iff.mp hRest with
        ⟨mem₂, hHeader, hRest⟩
      rcases bind_eq_ok_iff.mp hRest with ⟨addr, -, hLast⟩
      rw [← DynamicLayout.setIntegers_singleton] at hLast
      rcases setIntegers_ok hAligned (stack.ipHeader_inRange _)
        (by simp [ipHeader]) hHeader with
        ⟨hWrites, hIn, hValues⟩
      have hSum := setIntegers_setsOnly hAligned
        (stack.ipHeaderChecksum_inRange
          (doIpChecksum mem₂ addr 20)) (by simp) hLast
      refine ⟨?_, fun _ => ?_⟩
      · rw [if_pos hIP]
        have hAll : stack.SetsOnly
            ((globalIds values).map Prod.fst ++
              ((ipHeader len).map Prod.fst ++
                [.compat .ipHeaderChecksum])) mem mem' :=
          hIds.trans (SetsOnly.trans ⟨hWrites, hIn⟩ hSum)
        exact hAll.mono
          (by simp [globalIds, ipHeader])
          (by simp [globalIds, ipHeader])
      · rcases hValues
          (.compat .ipTotalLen, (ipLen len).setWidth 64)
          (by simp [ipHeader]) with ⟨x, hX, hValue⟩
        have hMem : .compat .ipTotalLen ∈
            stack.netPacket.order := hIn _ (by simp [ipHeader])
        refine ⟨x, (hSum.getInteger_eq hMem (by simp)).trans hX,
          ?_⟩
        have hSame : x.setWidth 16 =
          ((ipLen len).setWidth 64).setWidth 16 := hValue
        simpa using hSame
  · next hIP =>
      cases hRest
      refine ⟨?_, fun hNot => absurd hNot hIP⟩
      rw [if_neg hIP, List.append_nil]
      exact hIds

/- The hooks in between set their members. -/
theorem hookSend_setsOnly
    {values : SendValues}
    {buff : List Byte}
    {m : Module}
    {mem mem' : Memory}
    (hAligned : stack.ByteAligned)
    (hValues : stack.ValuesFit values)
    (hPayload : m ≠ .payload)
    (hChecksum : m ≠ .checksum)
    (hSend : stack.hookSend values buff m mem = .ok mem') :
    stack.SetsOnly (stack.hookNames m) mem mem' := by
  cases m with
  | payload => exact absurd rfl hPayload
  | signaling =>
      cases hSend
      exact SetsOnly.refl _
  | inorder =>
      have hNames : (stack.inorderSend values).map Prod.fst =
          stack.hookNames .inorder := by
        unfold inorderSend hookNames
        split <;> rfl
      rw [← hNames]
      refine setIntegers_setsOnly hAligned
        (stack.inorderSend_inRange values) ?_ hSend
      unfold inorderSend
      split <;> simp
  | reliable =>
      exact setIntegers_setsOnly hAligned
        (stack.reliableSend_inRange values)
        (by simp [reliableSend]) hSend
  | identifier =>
      have hNames : (stack.identifierSend values).map Prod.fst =
          stack.hookNames .identifier := by
        unfold identifierSend hookNames
        split <;> rfl
      rw [← hNames]
      refine setIntegers_setsOnly hAligned
        (identifierSend_inRange hValues) ?_ hSend
      unfold identifierSend
      split <;> simp
  | signalingAfter =>
      cases hSend
      exact SetsOnly.refl _
  | routing => exact (routingSend_spec hAligned hSend).1
  | checksum => exact absurd rfl hChecksum
  | network =>
      cases hSend
      exact SetsOnly.refl _

/- `reliable_module::hook_send` sends no acknowledgement. -/
theorem reliableSend_spec
    {values : SendValues}
    {mem mem' : Memory}
    (hAligned : stack.ByteAligned)
    (hSend : stack.netPacket.setIntegers (reliableSend values)
      mem = .ok mem') :
    ∃ x, stack.netPacket.getInteger
        (.header .ackSequenceNumber) mem' = .ok x ∧
      x.setWidth 32 = 0 := by
  rcases setIntegers_ok hAligned
    (stack.reliableSend_inRange values)
    (by simp [reliableSend]) hSend with ⟨-, -, hValues⟩
  exact hValues (.header .ackSequenceNumber, 0)
    (by simp [reliableSend])

------------------------------------------------------------
-- The Send Path
------------------------------------------------------------

/- The modules whose hooks come before the checksum's. -/
def beforeChecksum
    (cfg : Config) : List Module :=
  [.signaling, .inorder] ++
    (if cfg.reliableEnabled then [.reliable] else []) ++
    [.identifier, .signalingAfter] ++
    (if cfg.routingEnabled then [.routing] else [])

theorem registeredModules_eq
    (cfg : Config) :
    registeredModules cfg =
      .payload :: (beforeChecksum cfg ++
        ((if cfg.checksumEnabled then [.checksum] else []) ++
          [.network])) := by
  simp [registeredModules, beforeChecksum]

theorem notMem_beforeChecksum
    (cfg : Config) :
    .payload ∉ beforeChecksum cfg ∧
      .checksum ∉ beforeChecksum cfg := by
  unfold beforeChecksum
  split_ifs <;> decide

theorem hooks_setsOnly
    {values : SendValues}
    {buff : List Byte}
    {modules : List Module}
    {mem mem' : Memory}
    (hAligned : stack.ByteAligned)
    (hValues : stack.ValuesFit values)
    (hNot : .payload ∉ modules ∧ .checksum ∉ modules)
    (hSend : modules.foldlM (fun mem m =>
      stack.hookSend values buff m mem) mem = .ok mem') :
    stack.SetsOnly (modules.flatMap stack.hookNames) mem
      mem' := by
  induction modules generalizing mem with
  | nil =>
      cases hSend
      exact SetsOnly.refl _
  | cons m modules ih =>
      simp only [List.mem_cons, not_or] at hNot
      rw [List.foldlM_cons] at hSend
      rcases bind_eq_ok_iff.mp hSend with ⟨mem₁, hHook, hRest⟩
      exact (hookSend_setsOnly hAligned hValues
        (Ne.symm hNot.1.1) (Ne.symm hNot.2.1) hHook).trans
          (ih ⟨hNot.1.2, hNot.2.2⟩ hRest)

/- What a hook leaves stays if no later hook sets it. -/
theorem hooks_keep
    {values : SendValues}
    {buff : List Byte}
    {first second : List Module}
    {m : Module}
    {mem mem' : Memory}
    (hAligned : stack.ByteAligned)
    (hValues : stack.ValuesFit values)
    (hNot : .payload ∉ second ∧ .checksum ∉ second)
    (hSend : (first ++ m :: second).foldlM (fun mem m =>
      stack.hookSend values buff m mem) mem = .ok mem') :
    ∃ mem₁ mem₂, stack.hookSend values buff m mem₁ =
        .ok mem₂ ∧
      ∀ name ∈ stack.netPacket.order,
        name ∉ second.flatMap stack.hookNames →
          stack.netPacket.getInteger name mem' =
            stack.netPacket.getInteger name mem₂ := by
  rw [List.foldlM_append] at hSend
  rcases bind_eq_ok_iff.mp hSend with ⟨mem₁, -, hRest⟩
  rw [List.foldlM_cons] at hRest
  rcases bind_eq_ok_iff.mp hRest with ⟨mem₂, hHook, hAfter⟩
  have hSets := hooks_setsOnly hAligned hValues hNot hAfter
  exact ⟨mem₁, mem₂, hHook,
    fun name hMem hOut => hSets.getInteger_eq hMem hOut⟩

------------------------------------------------------------
-- What Is Sent
------------------------------------------------------------

/-
  What the members on the wire say about a packet: its length,
  and that it is no acknowledgement.
-/
structure SentHeader
    (stack : PacketStack)
    (len : Nat)
    (mem : Memory) : Prop where
  total : stack.isIPCompat = false → stack.TotalIs len mem
  ack : stack.options.reliableEnabled = true →
    stack.HoldsValue (.header .ackSequenceNumber)
      (0 : BitVec 32) mem
  ipLen : stack.isIPCompat = true →
    stack.options.routingEnabled = true →
      stack.HoldsValue (.compat .ipTotalLen) (ipLen len) mem

theorem ackNumber_mem
    (hReliable : stack.options.reliableEnabled = true) :
    .header .ackSequenceNumber ∈
      stack.options.wireMembers := by
  simp [StackOptions.wireMembers, StackOptions.protocolGroup,
    hReliable]

theorem ipTotalLen_mem
    (hIP : stack.isIPCompat = true)
    (hRouting : stack.options.routingEnabled = true) :
    .compat .ipTotalLen ∈ stack.options.wireMembers := by
  have hCompat : stack.options.compatLevel.isIPCompat =
    true := hIP
  simp [StackOptions.wireMembers, StackOptions.networkGroup,
    hCompat, hRouting]

/- It is about the members sent other than the checksum. -/
theorem SentHeader.congr
    {len : Nat}
    {mem mem' : Memory}
    (hHeader : stack.SentHeader len mem)
    (hSame : ∀ name ∈ stack.options.wireMembers,
      name ≠ .header .checksum →
        stack.netPacket.getInteger name mem' =
          stack.netPacket.getInteger name mem) :
    stack.SentHeader len mem' where
  total := fun hIP =>
    HoldsValue.congr (hSame _ (totalLen_mem hIP) (by decide))
      (hHeader.total hIP)
  ack := fun hReliable =>
    (hHeader.ack hReliable).congr
      (hSame _ (ackNumber_mem hReliable) (by decide))
  ipLen := fun hIP hRouting =>
    (hHeader.ipLen hIP hRouting).congr
      (hSame _ (ipTotalLen_mem hIP hRouting) (by decide))

section Sent

variable
    {values : SendValues}
    {buff : List Byte}
    {mem mem' : Memory}
    (hAligned : stack.ByteAligned)
    (hValues : stack.ValuesFit values)

include hAligned hValues

/- The hooks before the checksum's leave the lengths. -/
theorem beforeChecksum_lengths
    {len : Nat}
    (hLen : stack.LenIs len mem)
    (hTotal : stack.isIPCompat = false →
      stack.TotalIs len mem)
    (hSend : (beforeChecksum stack.options.toConfig).foldlM
      (fun mem m => stack.hookSend values buff m mem) mem =
        .ok mem') :
    stack.LenIs len mem' ∧
      (stack.isIPCompat = false → stack.TotalIs len mem') := by
  have hSets := hooks_setsOnly hAligned hValues
    (notMem_beforeChecksum _) hSend
  have hNames : ∀ m, .header .computedTotalLen ∉
      stack.hookNames m ∧
        .header .totalLen ∉ stack.hookNames m := by
    intro m
    cases m <;> simp only [hookNames] <;> try split
    all_goals simp
  have hNot : ∀ ms : List Module,
      .header .computedTotalLen ∉ ms.flatMap stack.hookNames ∧
        .header .totalLen ∉ ms.flatMap stack.hookNames := by
    intro ms
    simp only [List.mem_flatMap, not_exists, not_and]
    exact ⟨fun m _ => (hNames m).1, fun m _ => (hNames m).2⟩
  refine ⟨?_, fun hIP => ?_⟩
  · exact HoldsValue.congr (hSets.getInteger_eq
      stack.computedTotalLen_mem (hNot _).1) hLen
  · exact HoldsValue.congr (hSets.getInteger_eq
      (StackOptions.mem_order_of_wire (totalLen_mem hIP))
      (hNot _).2) (hTotal hIP)

/- They leave that the packet is no acknowledgement. -/
theorem beforeChecksum_ack
    (hReliable : stack.options.reliableEnabled = true)
    (hSend : (beforeChecksum stack.options.toConfig).foldlM
      (fun mem m => stack.hookSend values buff m mem) mem =
        .ok mem') :
    stack.HoldsValue (.header .ackSequenceNumber)
      (0 : BitVec 32) mem' := by
  have hSplit : beforeChecksum stack.options.toConfig =
      [.signaling, .inorder] ++ .reliable ::
        ([.identifier, .signalingAfter] ++
          if stack.options.routingEnabled then
            [.routing]
          else
            []) := by
    simp [beforeChecksum, hReliable]
  rw [hSplit] at hSend
  rcases hooks_keep hAligned hValues (by
      split <;> decide) hSend with ⟨mem₁, mem₂, hHook, hKeep⟩
  have hAck := reliableSend_spec hAligned hHook
  refine HoldsValue.congr (hKeep _
    (StackOptions.mem_order_of_wire (ackNumber_mem hReliable))
    ?_) hAck
  split <;> simp only [List.flatMap_append, List.flatMap_cons,
    List.flatMap_nil, hookNames]
  all_goals
    split <;> try split
    all_goals simp

/- The routing module leaves the length of the IP header. -/
theorem beforeChecksum_ipLen
    (hIP : stack.isIPCompat = true)
    (hRouting : stack.options.routingEnabled = true)
    (hSend : (beforeChecksum stack.options.toConfig).foldlM
      (fun mem m => stack.hookSend values buff m mem) mem =
        .ok mem') :
    stack.HoldsValue (.compat .ipTotalLen)
      (ipLen buff.length) mem' := by
  have hSplit : beforeChecksum stack.options.toConfig =
      ([.signaling, .inorder] ++
        (if stack.options.reliableEnabled then
          [.reliable]
        else
          []) ++
        [.identifier, .signalingAfter]) ++
          .routing :: [] := by
    simp [beforeChecksum, hRouting]
  rw [hSplit] at hSend
  rcases hooks_keep hAligned hValues (by decide) hSend with
    ⟨mem₁, mem₂, hHook, hKeep⟩
  have hIpLen := (routingSend_spec hAligned hHook).2 hIP
  exact HoldsValue.congr (hKeep _
    (StackOptions.mem_order_of_wire
      (ipTotalLen_mem hIP hRouting)) (by simp)) hIpLen

/-
  A packet that is sent says how long it is, and the checksum
  is what was put into it last.
-/
theorem runSendPath_spec
    (hFits : stack.LengthFits buff.length)
    (hSend : stack.runSendPath values buff mem = .ok mem') :
    ∃ before, stack.LenIs buff.length before ∧
      stack.SentHeader buff.length before ∧
      if stack.options.checksumEnabled then
        stack.checksumSend before = .ok mem'
      else
        mem' = before := by
  unfold runSendPath at hSend
  rw [registeredModules_eq, List.foldlM_cons] at hSend
  rcases bind_eq_ok_iff.mp hSend with ⟨mem₁, hPayload, hRest⟩
  rw [List.foldlM_append] at hRest
  rcases bind_eq_ok_iff.mp hRest with ⟨before, hHooks, hRest⟩
  have hLen := (payloadSend_changesOnly values hPayload).2
  have hKept := beforeChecksum_lengths hAligned hValues hLen
    (fun hIP => payloadSend_spec hAligned hFits hIP hPayload)
    hHooks
  refine ⟨before, hKept.1, ⟨hKept.2, ?_, ?_⟩, ?_⟩
  · intro hReliable
    exact beforeChecksum_ack hAligned hValues hReliable hHooks
  · intro hIP hRouting
    exact beforeChecksum_ipLen hAligned hValues hIP hRouting
      hHooks
  · split at hRest
    · next hEnabled =>
        rw [List.cons_append, List.nil_append,
          List.foldlM_cons] at hRest
        rw [if_pos hEnabled]
        rcases bind_eq_ok_iff.mp hRest with
          ⟨mem₂, hChecksum, hNetwork⟩
        cases hNetwork
        exact hChecksum
    · next hDisabled =>
        rw [if_neg hDisabled]
        cases hRest
        rfl

end Sent

end PacketStack

end NetBlocks
