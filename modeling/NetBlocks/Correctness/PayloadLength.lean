import NetBlocks.Stack.Ingress

/-
  The length of a payload survives the wire: always without
  an IP header, and with one only if the headers have the
  length that the routing module takes for granted.

  Main declarations:
    * `PacketStack.runFrontHooks_total`
    * `PacketStack.runFrontHooks_ip`
    * `PacketStack.KeepsPayloadLen`
    * `payloadLen_survives_iff`
-/

namespace NetBlocks

open ByteMemory Except

namespace PacketStack

variable {stack : PacketStack}

------------------------------------------------------------
-- Running the Hooks
------------------------------------------------------------

theorem runIngressHooks_continue
    {flow : Option (BitVec 64)}
    {m : Module}
    {modules : List Module}
    {mem mem' : Memory}
    (hHook : stack.hookIngress flow m mem =
      .ok (.hookContinue, mem')) :
    stack.runIngressHooks flow (m :: modules) mem =
      stack.runIngressHooks flow modules mem' := by
  rw [runIngressHooks, hHook, ok_bind]

theorem runIngressHooks_append
    {flow : Option (BitVec 64)}
    {first second : List Module}
    {mem mem' : Memory}
    (hFirst : stack.runIngressHooks flow first mem =
      .ok (.hookContinue, mem')) :
    stack.runIngressHooks flow (first ++ second) mem =
      stack.runIngressHooks flow second mem' := by
  induction first generalizing mem with
  | nil =>
      cases hFirst
      rfl
  | cons m first ih =>
      rw [runIngressHooks] at hFirst
      rcases bind_eq_ok_iff.mp hFirst with
        ⟨⟨status, mem₁⟩, hHook, hRest⟩
      cases status with
      | hookDrop => cases hRest
      | hookContinue =>
          rw [List.cons_append, runIngressHooks_continue hHook]
          exact ih hRest

------------------------------------------------------------
-- The Checksum
------------------------------------------------------------

/-
  A packet with its checksum passes, and its headers stay as
  they are.
-/
theorem checksumIngress_continue
    {c len : Nat}
    {mem : Memory}
    (hEnabled : stack.options.checksumEnabled = true)
    (hPlace : stack.netPacket.offset (.header .checksum) =
      .ok (8 * c))
    (hFits : stack.totalSize - 1 + len < 2 ^ 31)
    (hLen : stack.options.checksumType = .fullPacket →
      stack.LenIs len mem)
    (hSum : stack.wordSum c len mem = loadShort mem c) :
    ∃ mem', stack.checksumIngress mem =
        .ok (.hookContinue, mem') ∧
      ∀ a, a < stack.totalSize - 1 → mem' a = mem a := by
  refine ⟨storeShort (stack.cleared c len mem) c
    (loadShort mem c), ?_, ?_⟩
  · rw [checksumIngress_eq hEnabled hPlace hFits hLen,
      if_pos hSum]
  · intro a hLt
    have hSize := stack.headroom_add
    have hLe := stack.le_endOf len
    by_cases hOwn : c ≤ a ∧ a < c + 2
    · exact storeShort_loadShort hOwn.1 hOwn.2
    · have hOutside : a < c ∨ c + 2 ≤ a := by omega
      rw [storeShort_of_outside _ _ hOutside,
        cleared_of_ne hOutside (by omega)]

/- Members before the payload are read as before. -/
theorem getInteger_of_front
    {name : StackMember}
    {mem mem' : Memory}
    (hMem : name = .header .computedTotalLen ∨
      name ∈ stack.options.wireMembers)
    (hBytes : ∀ a, a < stack.totalSize - 1 →
      mem' a = mem a) :
    stack.netPacket.getInteger name mem' =
      stack.netPacket.getInteger name mem := by
  rcases hMem with rfl | hMem
  · have hSize := stack.headroom_add
    have hHeadroom := stack.le_headroom
    exact getInteger_computed (fun a hLt =>
      hBytes a (by omega))
  · exact getInteger_of_headers hMem hBytes

------------------------------------------------------------
-- The Front of the Path
------------------------------------------------------------

/-
  `computed_total_len` behind the routing module, which takes
  it from an IP header, with 14 bytes for the link header.
-/
def routedLen
    (stack : PacketStack)
    (len : Nat)
    (v : BitVec 32) : BitVec 32 :=
  if stack.isIPCompat ∧ stack.options.routingEnabled then
    (ntohs (ipLen len) + 14 : BitVec 16).setWidth 32
  else
    v

section Front

variable
    (flow : Option (BitVec 64))
    {len : Nat}
    {v : BitVec 32}
    {sent mem : Memory}

/- A copy has the sum that was sent. -/
theorem SameWire.checked
    {c : Nat}
    (hSame : stack.SameWire len sent mem)
    (hEnabled : stack.options.checksumEnabled = true)
    (hPlace : stack.netPacket.offset (.header .checksum) =
      .ok (8 * c))
    (hSum : stack.wordSum c len sent = loadShort sent c) :
    stack.wordSum c len mem = loadShort mem c := by
  have hBetween := checksum_between hEnabled hPlace
  have hSize := stack.headroom_add
  have hLoad : loadShort mem c = loadShort sent c := by
    unfold loadShort
    rw [load_congr (fun a hFrom hTo => hSame a (by
      unfold OnWire
      omega))]
  rw [hLoad, ← hSum]
  apply wordSum_congr
  intro a hFrom hTo _
  apply hSame
  unfold endOf at hTo
  unfold OnWire
  split at hTo <;> omega

/- The hook of the checksum, if it is enabled. -/
theorem runChecksum_spec
    (hSent : stack.SentPacket len sent)
    (hSame : stack.SameWire len sent mem)
    (hFits : stack.totalSize - 1 + len < 2 ^ 31)
    (hLen : stack.options.checksumEnabled = true →
      stack.options.checksumType = .fullPacket →
        stack.LenIs len mem)
    (hComputed : stack.HoldsValue (.header .computedTotalLen)
      v mem) :
    ∃ mem', stack.runIngressHooks flow
        (if stack.options.checksumEnabled then
          [.checksum]
        else
          []) mem = .ok (.hookContinue, mem') ∧
      stack.SentHeader len mem' ∧
      stack.HoldsValue (.header .computedTotalLen) v mem' := by
  have hHeader := hSame.sentHeader hSent.header
  split
  · next hEnabled =>
      rcases hSent.checked hEnabled with ⟨c, hPlace, hSum⟩
      rcases checksumIngress_continue hEnabled hPlace hFits
        (hLen hEnabled)
        (hSame.checked hEnabled hPlace hSum) with
        ⟨mem', hHook, hBytes⟩
      refine ⟨mem', runIngressHooks_continue hHook, ?_, ?_⟩
      · exact hHeader.congr (fun name hMem _ =>
          getInteger_of_front (Or.inr hMem) hBytes)
      · exact hComputed.congr
          (getInteger_of_front (Or.inl rfl) hBytes)
  · exact ⟨mem, rfl, hHeader, hComputed⟩

/- The hook of the routing module, if it is enabled. -/
theorem runRouting_spec
    (hHeader : stack.SentHeader len mem)
    (hComputed : stack.HoldsValue (.header .computedTotalLen)
      v mem) :
    ∃ mem', stack.runIngressHooks flow
        (if stack.options.routingEnabled then
          [.routing]
        else
          []) mem = .ok (.hookContinue, mem') ∧
      stack.SentHeader len mem' ∧
      stack.HoldsValue (.header .computedTotalLen)
        (stack.routedLen len v) mem' := by
  unfold routedLen
  split
  · next hRouting =>
      by_cases hIP : stack.isIPCompat = true
      · rw [if_pos ⟨hIP, hRouting⟩]
        rcases hHeader.ipLen hIP hRouting with ⟨x, hX, hValue⟩
        have hHook : stack.hookIngress flow .routing mem =
            .ok (.hookContinue, IntegerMember.writeType .int
              mem 0 ((ntohs (ipLen len) + 14 : BitVec
                16).setWidth 64)) := by
          simp only [hookIngress, routingIngress, hIP, if_true,
            hX, ok_bind, hValue,
            (stack.computedTotalLen_access mem).1]
          rfl
        refine ⟨_, runIngressHooks_continue hHook, ?_, ?_⟩
        · refine hHeader.congr (fun name hMem _ => ?_)
          apply getInteger_of_bits
            (StackOptions.mem_order_of_wire hMem)
          intro k hBit
          have hIn := (wire_bits hMem hBit).1
          have hHeadroom := stack.le_headroom
          have hByte : IntegerMember.writeType .int mem 0
              ((ntohs (ipLen len) + 14 : BitVec
                16).setWidth 64) (k / 8) = mem (k / 8) :=
            store_of_outside _ _ (Or.inr (by
              change 0 + 4 ≤ k / 8
              omega))
          rw [bit, bit, hByte]
        · refine ⟨_, (stack.computedTotalLen_access _).2, ?_⟩
          refine (IntegerMember.readType_writeType .int mem 0
            _).trans ?_
          exact BitVec.setWidth_setWidth_of_le _ (by decide)
      · have hHook : stack.hookIngress flow .routing mem =
            .ok (.hookContinue, mem) := by
          simp only [hookIngress, routingIngress,
            if_neg hIP]
          rfl
        rw [if_neg (fun hBoth => hIP hBoth.1)]
        exact ⟨mem, runIngressHooks_continue hHook, hHeader,
          hComputed⟩
  · next hRouting =>
      rw [if_neg (fun hBoth => hRouting hBoth.2)]
      exact ⟨mem, rfl, hHeader, hComputed⟩

/- The connection is set in a member that is not sent. -/
theorem runIdentifier_spec
    (c : BitVec 64)
    (hHeader : stack.SentHeader len mem)
    (hComputed : stack.HoldsValue (.header .computedTotalLen)
      v mem) :
    ∃ mem', stack.runIngressHooks (some c)
        [.signalingAfter, .identifier] mem =
          .ok (.hookContinue, mem') ∧
      stack.SentHeader len mem' ∧
      stack.HoldsValue (.header .computedTotalLen) v mem' := by
  have hMem : .header .flowIdentifier ∈
      stack.netPacket.order :=
    StackOptions.mem_order_of_local
      (by simp [StackOptions.localGroup])
  have hEncodes := encodesMember_of_aligned hMem rfl
  have hRange : (stack.ranged.get
      (.header .flowIdentifier)).InRange c :=
    IntegerMember.inRange_of_lt rfl rfl c.isLt
  rcases setInteger_spec hMem hEncodes hRange mem with
    ⟨mem', hSet, hWrites, -⟩
  have hOthers : ∀ name ∈ stack.netPacket.order,
      name ≠ .header .flowIdentifier →
        stack.netPacket.getInteger name mem' =
          stack.netPacket.getInteger name mem := by
    intro name hIn hNe
    refine hWrites.getInteger_eq ?_ hIn (by simpa using hNe)
    intro other hOther
    rw [List.mem_singleton.mp hOther]
    exact hMem
  refine ⟨mem', ?_, ?_, ?_⟩
  · simp only [runIngressHooks, hookIngress, ok_bind,
      identifierIngress, hSet]
    rfl
  · refine hHeader.congr (fun name hWire _ =>
      hOthers name (StackOptions.mem_order_of_wire hWire) ?_)
    rintro rfl
    simp [StackOptions.wireMembers, StackOptions.linkGroup,
      StackOptions.networkGroup, StackOptions.transportGroup,
      StackOptions.protocolGroup] at hWire
  · exact hComputed.congr (hOthers _
      stack.computedTotalLen_mem (by decide))

/- Data goes on behind the reliable module. -/
theorem runReliable_spec
    (hHeader : stack.SentHeader len mem) :
    stack.runIngressHooks flow
        (if stack.options.reliableEnabled then
          [.reliable]
        else
          []) mem = .ok (.hookContinue, mem) := by
  split
  · next hReliable =>
      rcases hHeader.ack hReliable with ⟨x, hX, hValue⟩
      have hHook : stack.hookIngress flow .reliable mem =
          .ok (.hookContinue, mem) := by
        simp only [hookIngress, reliableIngress, hX, ok_bind,
          hValue]
        rfl
      rw [runIngressHooks_continue hHook]
      rfl
  · rfl

/-
  Behind the network module's hook, a copy of a packet gets to
  the inorder module.
-/
theorem runFrontHooks_spec
    (c : BitVec 64)
    {copy : Memory}
    (hNetwork : stack.networkIngress copy = .ok mem)
    (hSent : stack.SentPacket len sent)
    (hSame : stack.SameWire len sent mem)
    (hFits : stack.totalSize - 1 + len < 2 ^ 31)
    (hLen : stack.options.checksumEnabled = true →
      stack.options.checksumType = .fullPacket →
        stack.LenIs len mem)
    (hComputed : stack.HoldsValue (.header .computedTotalLen)
      v mem) :
    ∃ mem', stack.runFrontHooks (some c) copy =
        .ok (.hookContinue, mem') ∧
      stack.SentHeader len mem' ∧
      stack.HoldsValue (.header .computedTotalLen)
        (stack.routedLen len v) mem' := by
  have hFirst : stack.hookIngress (some c) .network copy =
      .ok (.hookContinue, mem) := by
    simp only [hookIngress, hNetwork]
    rfl
  rcases runChecksum_spec (some c) hSent hSame hFits
    hLen hComputed with ⟨mem₁, hChecksum, hHeader₁, hLen₁⟩
  rcases runRouting_spec (some c) hHeader₁ hLen₁ with
    ⟨mem₂, hRouting, hHeader₂, hLen₂⟩
  rcases runIdentifier_spec c hHeader₂ hLen₂ with
    ⟨mem₃, hIdentifier, hHeader₃, hLen₃⟩
  refine ⟨mem₃, ?_, hHeader₃, hLen₃⟩
  rw [runFrontHooks, frontModules, NetBlocks.frontModules,
    List.append_assoc, List.append_assoc, List.append_assoc,
    List.singleton_append, runIngressHooks_continue hFirst,
    runIngressHooks_append hChecksum,
    runIngressHooks_append hRouting,
    runIngressHooks_append hIdentifier]
  exact runReliable_spec (some c) hHeader₃

end Front

------------------------------------------------------------
-- The Length That Is Computed
------------------------------------------------------------

theorem payloadLen_eq
    {v : BitVec 32}
    {mem : Memory}
    (hComputed : stack.HoldsValue (.header .computedTotalLen)
      v mem) :
    stack.payloadLen mem =
      .ok (v - BitVec.ofNat 32 stack.headerLen).toInt := by
  rcases hComputed with ⟨x, hX, hValue⟩
  have hWidth : (x - BitVec.ofNat 64 stack.headerLen).setWidth
      32 = v - BitVec.ofNat 32 stack.headerLen := by
    rw [← hValue]
    apply BitVec.eq_of_toNat_eq
    simp only [BitVec.toNat_setWidth, BitVec.toNat_sub,
      BitVec.toNat_ofNat]
    omega
  rw [payloadLen, hX, ok_bind, hWidth]
  rfl

/- It is the length sent for exactly one value. -/
theorem toInt_eq_iff
    {len : Nat}
    (v : BitVec 32)
    (hLen : len < 2 ^ 31) :
    (v - BitVec.ofNat 32 stack.headerLen).toInt = len ↔
      v = stack.packetLen len := by
  have hInt : (BitVec.ofNat 32 len).toInt = len := by
    rw [BitVec.toInt_eq_toNat_cond, BitVec.toNat_ofNat]
    split <;> omega
  rw [← hInt, BitVec.toInt_inj, packetLen]
  constructor
  · intro hSub
    rw [← hSub, BitVec.add_comm, BitVec.sub_add_cancel]
  · intro hAdd
    rw [hAdd, BitVec.add_comm, BitVec.add_sub_cancel]

/- The modules that name `total_len` have it in the layout. -/
def Generates
    (stack : PacketStack) : Prop :=
  stack.isIPCompat = true →
    stack.options.inorderStrategy ≠ .holdForever ∧
      stack.options.reliableEnabled = false

section Received

variable
    {len : Nat}
    {sent copy : Memory}
    (hSent : stack.SentPacket len sent)
    (hSame : stack.SameWire len sent copy)
    (hFits : stack.totalSize - 1 + len < 2 ^ 31)
    (c : BitVec 64)

include hSent hSame hFits

/- Without an IP header, the length that was sent. -/
theorem receivedLen_total
    (hIP : stack.isIPCompat = false) :
    stack.receivedLen (some c) copy = .ok (some len) := by
  rcases networkIngress_len hIP
    (hSame.sentHeader hSent.header |>.total hIP) with
    ⟨mem, hNetwork, hLen, hRest⟩
  have hHeadroom := stack.le_headroom
  have hSame' : stack.SameWire len sent mem := by
    intro a hWire
    have hFrom := hWire.1
    rw [hRest a (by omega), hSame a hWire]
  rcases runFrontHooks_spec c hNetwork hSent hSame' hFits
    (fun _ _ => hLen) hLen with ⟨mem', hRun, hHeader, hKept⟩
  have hRouted : stack.routedLen len (stack.packetLen len) =
      stack.packetLen len := by
    rw [routedLen, if_neg]
    rintro ⟨hNot, -⟩
    rw [hIP] at hNot
    cases hNot
  rw [hRouted] at hKept
  have hInorder : ∃ mem'', stack.inorderIngress mem' =
      .ok mem'' ∧ stack.LenIs len mem'' := by
    unfold inorderIngress
    split
    · rcases restoreTotalLen_len (hHeader.total hIP) with
        ⟨mem'', hRestore, hRestored, -⟩
      exact ⟨mem'', hRestore, hRestored⟩
    · exact ⟨mem', rfl, hKept⟩
  rcases hInorder with ⟨mem'', hInorder, hFinal⟩
  have hInt := (toInt_eq_iff (stack.packetLen len)
    (by omega)).mpr rfl
  rw [receivedLen, hRun, ok_bind]
  simp only [hInorder, ok_bind, payloadLen_eq hFinal, hInt]
  rfl

/-
  With an IP header, it is computed from what that header
  says, or what the buffer holds.
-/
theorem receivedLen_ip
    {v : BitVec 32}
    (hGenerates : stack.Generates)
    (hIP : stack.isIPCompat = true)
    (hChecksum : stack.options.checksumEnabled = true →
      stack.options.checksumType = .headerOnly)
    (hComputed : stack.HoldsValue (.header .computedTotalLen)
      v copy) :
    stack.receivedLen (some c) copy =
      .ok (some (stack.routedLen len v -
        BitVec.ofNat 32 stack.headerLen).toInt) := by
  have hNetwork : stack.networkIngress copy = .ok copy := by
    rw [networkIngress, if_pos hIP]
  rcases runFrontHooks_spec c hNetwork hSent hSame hFits
    (fun hEnabled hFull => by
      rw [hChecksum hEnabled] at hFull
      cases hFull) hComputed with ⟨mem', hRun, -, hKept⟩
  have hInorder : stack.inorderIngress mem' = .ok mem' := by
    unfold inorderIngress
    split
    · next hHold => exact absurd hHold (hGenerates hIP).1
    · rfl
  rw [receivedLen, hRun, ok_bind]
  simp only [hInorder, ok_bind, payloadLen_eq hKept]
  rfl

end Received

/- Every buffer says some length. -/
theorem exists_computed
    (stack : PacketStack)
    (mem : Memory) :
    ∃ v : BitVec 32,
      stack.HoldsValue (.header .computedTotalLen) v mem :=
  ⟨_, _, (stack.computedTotalLen_access mem).2, rfl⟩

/- A copy in a buffer that says some length. -/
theorem exists_copy
    (stack : PacketStack)
    (len : Nat)
    (sent : Memory)
    (v : BitVec 32) :
    ∃ copy, stack.SameWire len sent copy ∧
      stack.HoldsValue (.header .computedTotalLen) v copy := by
  refine ⟨IntegerMember.writeType .int sent 0
    (v.setWidth 64), ?_, ?_⟩
  · intro a hWire
    have hFrom := hWire.1
    have hHeadroom := stack.le_headroom
    exact store_of_outside _ _ (Or.inr (by
      change 0 + 4 ≤ a
      omega))
  · refine ⟨_, (stack.computedTotalLen_access _).2, ?_⟩
    refine (IntegerMember.readType_writeType .int sent 0
      _).trans ?_
    exact BitVec.setWidth_setWidth_of_le v (by decide)

/-
  The checksum over the whole packet is computed before the
  routing module's hook. It takes the length from the buffer,
  which can say that the packet ends before its start.
-/
theorem exists_outOfBounds
    {len : Nat}
    {sent : Memory}
    (hSent : stack.SentPacket len sent)
    (hIP : stack.isIPCompat = true)
    (hEnabled : stack.options.checksumEnabled = true)
    (hFull : stack.options.checksumType = .fullPacket)
    (c : BitVec 64) :
    ∃ copy, stack.SameWire len sent copy ∧
      stack.receivedLen (some c) copy = .error .outOfBounds := by
  rcases hSent.checked hEnabled with ⟨a, hPlace, -⟩
  rcases stack.exists_copy len sent
    (-1 - BitVec.ofNat 32 stack.headroom) with
    ⟨copy, hSame, hComputed⟩
  refine ⟨copy, hSame, ?_⟩
  have hHeadroom := stack.le_headroom
  have hBetween := checksum_between hEnabled hPlace
  have hAccess := checksum_access hEnabled hPlace copy
  have hZero : stack.netPacket.setInteger (.header .checksum) 0
      copy = .ok (storeShort copy a 0) := hAccess.1 0
  have hEnd : stack.checksumEnd (storeShort copy a 0) =
      .ok (-1) := by
    have hKept : stack.HoldsValue (.header .computedTotalLen)
        (-1 - BitVec.ofNat 32 stack.headroom)
        (storeShort copy a 0) :=
      hComputed.congr (getInteger_computed (fun b hLt =>
        storeShort_of_outside _ _ (Or.inl (by omega))))
    rcases hKept with ⟨x, hX, hValue⟩
    unfold checksumEnd
    rw [hFull]
    simp only [hX, ok_bind, hValue, BitVec.sub_add_cancel]
    rfl
  have hOdd : ((-1 : Int) - stack.headroom) % 2 ≠ 0 := by
    unfold headroom StackOptions.headroom
    split <;> decide
  have hCompute : stack.computeChecksum copy =
      .error .outOfBounds := by
    unfold computeChecksum
    simp only [hZero, ok_bind, hEnd, if_pos hOdd, pad]
    rfl
  have hNetwork : stack.hookIngress (some c) .network copy =
      .ok (.hookContinue, copy) := by
    simp only [hookIngress, networkIngress, hIP, if_true]
    rfl
  have hChecksum : stack.hookIngress (some c) .checksum copy =
      .error .outOfBounds := by
    simp only [hookIngress, checksumIngress, hAccess.2,
      ok_bind, hCompute]
    rfl
  rw [receivedLen, runFrontHooks, frontModules,
    NetBlocks.frontModules, if_pos hEnabled, List.append_assoc,
    List.append_assoc, List.append_assoc, List.singleton_append,
    runIngressHooks_continue hNetwork, List.singleton_append,
    runIngressHooks, hChecksum]
  rfl

/-
  The IP header says the length of the payload with the 42
  bytes of an Ethernet, an IP, and a UDP header. These have to
  be the headers, and the checksum must not depend on what
  the buffer says before the header is looked at.
-/
def KeepsPayloadLen
    (stack : PacketStack)
    (len : Nat) : Prop :=
  stack.isIPCompat = false ∨
    stack.options.routingEnabled = true ∧
      stack.headerLen = 42 ∧ len + 42 < 2 ^ 16 ∧
      (stack.options.checksumEnabled = true →
        stack.options.checksumType = .headerOnly)

/- The length in the IP header, on both sides. -/
theorem routedLen_eq_iff
    {len : Nat}
    {v : BitVec 32}
    (hIP : stack.isIPCompat = true)
    (hRouting : stack.options.routingEnabled = true)
    (hFits : stack.headerLen + len < 2 ^ 31) :
    stack.routedLen len v = stack.packetLen len ↔
      stack.headerLen = 42 ∧ len + 42 < 2 ^ 16 := by
  have hLink : (14 : BitVec 16).toNat = 14 := rfl
  have hSwap : ntohs (ipLen len) =
      BitVec.ofNat 16 (len + 28) := by
    apply BitVec.eq_of_toNat_eq
    rw [ipLen, htons, toNat_ntohs, toNat_ntohs]
    omega
  rw [routedLen, if_pos ⟨hIP, hRouting⟩, hSwap]
  constructor
  · intro hEq
    have hNat := congrArg BitVec.toNat hEq
    simp only [packetLen, BitVec.toNat_setWidth,
      BitVec.toNat_add, BitVec.toNat_ofNat, hLink] at hNat
    omega
  · rintro ⟨hHeader, hShort⟩
    apply BitVec.eq_of_toNat_eq
    simp only [packetLen, BitVec.toNat_setWidth,
      BitVec.toNat_add, BitVec.toNat_ofNat, hLink]
    omega

end PacketStack

------------------------------------------------------------
-- The Condition
------------------------------------------------------------

/-
  The payload length that a receiver computes for a packet is
  the one it was sent with, whatever the rest of the buffer
  holds, if and only if there is no IP header, or it is about
  headers of 42 bytes.
-/
theorem payloadLen_survives_iff
    {stack : PacketStack}
    {values : PacketStack.SendValues}
    {buff : List Byte}
    {mem sent : Memory}
    (hGenerates : stack.Generates)
    (hValues : stack.ValuesFit values)
    (hFits : stack.LengthFits buff.length)
    (hSend : stack.runSendPath values buff mem = .ok sent) :
    (∀ copy c, stack.SameWire buff.length sent copy →
      stack.receivedLen (some c) copy =
        .ok (some buff.length)) ↔
      stack.KeepsPayloadLen buff.length := by
  have hSent := PacketStack.sentPacket_of_run hValues hFits
    hSend
  have hSize := stack.headroom_add
  have hInt := hFits.isInt
  constructor
  · intro hAll
    unfold PacketStack.KeepsPayloadLen
    cases hIP : stack.isIPCompat with
    | false => exact Or.inl rfl
    | true =>
        right
        have hChecksum :
            stack.options.checksumEnabled = true →
              stack.options.checksumType = .headerOnly := by
          intro hEnabled
          cases hFull : stack.options.checksumType with
          | headerOnly => rfl
          | fullPacket =>
              rcases PacketStack.exists_outOfBounds hSent hIP
                hEnabled hFull 0 with ⟨copy, hSame, hError⟩
              rw [hAll copy 0 hSame] at hError
              cases hError
        have hRouted : ∀ v, stack.routedLen buff.length v =
            stack.packetLen buff.length := by
          intro v
          rcases stack.exists_copy buff.length sent v with
            ⟨copy, hSame, hComputed⟩
          have hLen := PacketStack.receivedLen_ip hSent hSame
            hInt 0 hGenerates hIP hChecksum hComputed
          rw [hAll copy 0 hSame] at hLen
          have hEq := Option.some.inj (Except.ok.inj hLen)
          exact (PacketStack.toInt_eq_iff _
            (by omega)).mp hEq.symm
        have hRouting :
            stack.options.routingEnabled = true := by
          by_contra hNot
          have hFree : ∀ v,
              stack.routedLen buff.length v = v := by
            intro v
            rw [PacketStack.routedLen, if_neg]
            exact fun hBoth => hNot hBoth.2
          -- without the hook, any length of the buffer counts
          have hZero := (hFree 0).symm.trans (hRouted 0)
          have hOne := (hFree 1).symm.trans (hRouted 1)
          exact absurd (hZero.trans hOne.symm) (by decide)
        have hBoth := (PacketStack.routedLen_eq_iff hIP
          hRouting (by omega)).mp (hRouted 0)
        exact ⟨hRouting, hBoth.1, hBoth.2, hChecksum⟩
  · rintro (hIP | ⟨hRouting, hHeader, hShort, hChecksum⟩)
      copy c hSame
    · exact PacketStack.receivedLen_total hSent hSame hInt c
        hIP
    · cases hIP : stack.isIPCompat with
      | false =>
          exact PacketStack.receivedLen_total hSent hSame hInt
            c hIP
      | true =>
          rcases stack.exists_computed copy with ⟨v, hComputed⟩
          have hRouted : stack.routedLen buff.length v =
              stack.packetLen buff.length :=
            (PacketStack.routedLen_eq_iff hIP hRouting
              (by omega)).mpr ⟨hHeader, hShort⟩
          rw [PacketStack.receivedLen_ip hSent hSame hInt c
            hGenerates hIP hChecksum hComputed,
            (PacketStack.toInt_eq_iff _ (by omega)).mpr
              hRouted]

------------------------------------------------------------
-- Numbers Behind a UDP Header
------------------------------------------------------------

/- A stack compatible with UDP that numbers its packets. -/
def numberedUdpStack : PacketStack where
  options := .plain
    { flowIdentifier := .srcDstIdentifier
      inorderStrategy := .dropOutOfOrder
      reliableEnabled := false
      signalingEnabled := true
      routingEnabled := true
      checksumEnabled := false }
    .udpCompat .fullPacket
  ranged := StackOptions.plainMembers
  ranged_eq := StackOptions.plain_rangedMembers _ _ _
  totalSize := 63
  totalSize_eq := by decide

/- Its headers have 46 bytes, 4 more than is allowed for. -/
theorem not_forall_payloadLen_survives :
    ¬ ∀ (stack : PacketStack) values buff mem sent,
      stack.Generates → stack.ValuesFit values →
      stack.LengthFits buff.length →
      stack.runSendPath values buff mem = .ok sent →
      ∀ copy c, stack.SameWire buff.length sent copy →
        stack.receivedLen (some c) copy =
          .ok (some buff.length) := by
  intro hAll
  have hGenerates : numberedUdpStack.Generates :=
    fun _ => ⟨by decide, rfl⟩
  have hValues := PacketStack.valuesFit_plain
    (rfl : numberedUdpStack.ranged = _)
  have hFits : numberedUdpStack.LengthFits
      ([1] : List Byte).length :=
    ⟨by decide, fun hNot => by cases hNot⟩
  have hOk : (numberedUdpStack.runSendPath
      PacketStack.simpleValues [1] (fun _ => 0)).isOk =
        true := by rfl
  cases hSend : numberedUdpStack.runSendPath
      PacketStack.simpleValues [1] (fun _ => 0) with
  | error fault =>
      rw [hSend] at hOk
      cases hOk
  | ok sent =>
      have hSame : numberedUdpStack.SameWire 1 sent sent :=
        fun _ _ => rfl
      have hSent := PacketStack.sentPacket_of_run hValues hFits
        hSend
      rcases numberedUdpStack.exists_computed sent with
        ⟨v, hComputed⟩
      have hLen := PacketStack.receivedLen_ip hSent hSame
        (by decide) 0 hGenerates rfl
        (fun hEnabled => by cases hEnabled) hComputed
      rw [hAll _ _ _ _ _ hGenerates hValues hFits hSend sent 0
        hSame] at hLen
      have hEq := Option.some.inj (Except.ok.inj hLen)
      have hRouted := (PacketStack.toInt_eq_iff _
        (by decide)).mp hEq.symm
      have hHeader := ((PacketStack.routedLen_eq_iff rfl rfl
        (by decide)).mp hRouted).1
      exact absurd hHeader (by decide)

theorem payloadLen_survives_iff_simple :
    ∃ sent,
      simpleStack.runSendPath PacketStack.simpleValues
        [1, 2, 3] (fun _ => 0) = .ok sent ∧
      ((∀ copy c, simpleStack.SameWire 3 sent copy →
        simpleStack.receivedLen (some c) copy =
          .ok (some 3)) ↔
        simpleStack.KeepsPayloadLen 3) := by
  have hOk : (simpleStack.runSendPath PacketStack.simpleValues
      [1, 2, 3] (fun _ => 0)).isOk = true := by rfl
  cases hSend : simpleStack.runSendPath
      PacketStack.simpleValues [1, 2, 3] (fun _ => 0) with
  | error fault =>
      rw [hSend] at hOk
      cases hOk
  | ok sent =>
      have hFits : simpleStack.LengthFits
          ([1, 2, 3] : List Byte).length :=
        ⟨by decide,
          fun _ => PacketStack.inRange_int (by decide)⟩
      exact ⟨sent, rfl, payloadLen_survives_iff
        (fun hIP => by cases hIP)
        (PacketStack.valuesFit_plain rfl) hFits hSend⟩

end NetBlocks
