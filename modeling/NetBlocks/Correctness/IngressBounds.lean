import NetBlocks.Lib.Footprint
import NetBlocks.Runtime.IpcTransport
import NetBlocks.Correctness.PayloadLength
import NetBlocks.Stack.Reception

/-
  The ingress path stays in the buffer of a packet exactly
  when the bytes that are added up for its checksum do.

  The end of these bytes is computed from the length that the
  packet itself announces. All other hooks keep to members,
  which the buffer has room for, whatever the packet says.

  Main declarations:
    * `PacketStack.hookReceive_actsOn`
    * `PacketStack.EndsInside`
    * `ingressInside_iff`
-/

namespace NetBlocks

open ByteMemory Except Footprint

namespace PacketStack

variable {stack : PacketStack}

------------------------------------------------------------
-- The Buffer
------------------------------------------------------------

/- The size of the buffer that `nb__poll_packet` returns. -/
def pollSize
    (stack : PacketStack) : Nat :=
  ipcMtu + stack.headroom

/- The bytes of the buffer. -/
abbrev buffer
    (stack : PacketStack) : Set Nat :=
  Set.Iio stack.pollSize

theorem pollSize_bounds
    (stack : PacketStack) :
    stack.totalSize ≤ stack.pollSize ∧
      16 ≤ stack.headroom ∧ stack.headroom % 2 = 0 ∧
      stack.pollSize = 1024 + stack.headroom := by
  have hSize := stack.headroom_add.2
  have hRoom : stack.pollSize = 1024 + stack.headroom := rfl
  refine ⟨by omega, stack.le_headroom, ?_, hRoom⟩
  unfold headroom StackOptions.headroom
  split <;> decide

/- The bits of members are in the buffer. -/
theorem hasBit_inside
    {name : StackMember}
    {k : Nat}
    (hMem : name ∈ stack.netPacket.order)
    (hBit : stack.HasBit name k) :
    k / 8 < stack.totalSize := by
  rcases hBit with ⟨o, hOffset, hLe, hLt⟩
  rcases stack.wellFormed.total (List.ne_nil_of_mem hMem) with
    ⟨n, hTotal, hLeast⟩
  cases hTotal.symm.trans stack.totalSize_eq
  have hCovers := hLeast.1 name hMem o hOffset
  have hSize : stack.netPacket.sizeOf name =
      (stack.ranged.get name).bitSize :=
    StackOptions.sizeOf_eq hMem
  omega

/- Members are read in the buffer. -/
theorem reads_member
    {name : StackMember}
    (hMem : name ∈ stack.netPacket.order)
    (mem : Memory) :
    ∃ v, Reads stack.buffer (stack.netPacket.getInteger name)
      mem v := by
  rcases access hMem with ⟨o, hOffset, -, hGet⟩
  rcases (stack.ranged.get name).getBits_spec o mem with
    ⟨x, hX, -⟩
  refine ⟨x + (stack.ranged.get name).rangeBase, ?_⟩
  intro mem' hSame
  have hCongr : stack.netPacket.getInteger name mem' =
      stack.netPacket.getInteger name mem := by
    apply getInteger_of_bits hMem
    intro k hBit
    have hInside := hasBit_inside hMem hBit
    have hRoom := stack.pollSize_bounds.1
    rw [bit, bit, hSame (Set.mem_Iio.mpr (by omega))]
  rw [hCongr, hGet, IntegerMember.getInteger_eq hX]

/- Whole values are written in the buffer. -/
theorem writes_store
    {set : Memory → Except Fault Memory}
    (addr n v : Nat)
    (hSet : ∀ mem, set mem = .ok (store mem addr n v))
    (hInside : addr + n ≤ stack.pollSize)
    (mem : Memory) :
    Writes stack.buffer set mem (store mem addr n v) := by
  refine writes_of_congr hSet ?_ ?_
  · intro mem' hSame a hMem
    unfold store
    split
    · rfl
    · exact hSame hMem
  · intro mem' _ a hNot
    apply store_of_outside
    rw [Set.mem_Iio] at hNot
    omega

theorem writes_computed
    (v : BitVec 64)
    (mem : Memory) :
    Writes stack.buffer (stack.netPacket.setInteger
        (.header .computedTotalLen) v) mem
      (IntegerMember.writeType .int mem 0 v) := by
  have hRoom := stack.pollSize_bounds
  exact writes_store 0 4 v.toNat (fun mem =>
    (stack.computedTotalLen_access mem).1 v) (by omega) mem

theorem writes_flow
    (stack : PacketStack)
    (c : BitVec 64)
    (mem : Memory) :
    ∃ mem', Writes stack.buffer (stack.netPacket.setInteger
      (.header .flowIdentifier) c) mem mem' := by
  have hMem : .header .flowIdentifier ∈
      stack.netPacket.order :=
    StackOptions.mem_order_of_local
      (by simp [StackOptions.localGroup])
  rcases access hMem with ⟨o, hOffset, hSet, -⟩
  have hAligned : o % 8 = 0 :=
    stack.wellFormed.aligned hMem
      (StackOptions.alignedOf_eq hMem) hOffset
  have hBits : (stack.ranged.get
    (.header .flowIdentifier)).bitSize = 64 := rfl
  have hLast : stack.HasBit (.header .flowIdentifier)
      (o + 63) := ⟨o, hOffset, by omega, by omega⟩
  have hInside := hasBit_inside hMem hLast
  have hRoom := stack.pollSize_bounds.1
  refine ⟨_, writes_store (o / 8) 8 c.toNat (fun mem => ?_)
    (by omega) mem⟩
  rw [hSet, IntegerMember.setInteger_full hAligned rfl rfl]
  rfl

------------------------------------------------------------
-- Hooks
------------------------------------------------------------

theorem sequenceNumber_mem
    (hNumbered : stack.options.isNumbered = true) :
    .header .sequenceNumber ∈ stack.options.wireMembers := by
  simp [StackOptions.wireMembers, StackOptions.protocolGroup,
    hNumbered]

theorem flowIdentifier_mem
    (stack : PacketStack) :
    .header .flowIdentifier ∈ stack.netPacket.order :=
  StackOptions.mem_order_of_local
    (by simp [StackOptions.localGroup])

theorem reads_wire
    {name : StackMember}
    (hMem : name ∈ stack.options.wireMembers)
    (mem : Memory) :
    ∃ v, Reads stack.buffer (stack.netPacket.getInteger name)
      mem v :=
  reads_member (StackOptions.mem_order_of_wire hMem) mem

/- The ids of a packet are always sent. -/
theorem reads_id
    (stack : PacketStack)
    (f : Field)
    (hId : f = .dstHostId ∨ f = .dstAppId ∨ f = .srcAppId ∨
      f = .srcHostId)
    (mem : Memory) :
    ∃ v, Reads stack.buffer (stack.get f) mem v := by
  apply reads_wire
  rcases hId with rfl | rfl | rfl | rfl <;>
    simp [StackOptions.wireMembers, StackOptions.linkGroup,
      StackOptions.transportGroup]

theorem reads_flow
    (stack : PacketStack)
    (mem : Memory) :
    ∃ c, Reads stack.buffer (stack.get .flowIdentifier) mem
      c :=
  reads_member stack.flowIdentifier_mem mem

/- `total_len` is read, and written to the first word. -/
theorem writes_total
    (hIP : stack.isIPCompat = false)
    (mem : Memory) :
    ∃ v, Reads stack.buffer (stack.netPacket.getInteger
        (.header .totalLen)) mem v ∧
      Writes stack.buffer stack.restoreTotalLen mem
        (IntegerMember.writeType .int mem 0 v) := by
  rcases reads_wire (totalLen_mem hIP) mem with ⟨v, hRead⟩
  exact ⟨v, hRead, Writes.read hRead (writes_computed v mem)⟩

section Hooks

variable (lookups : Lookups)

/- A change of bytes in the buffer, and nothing else. -/
theorem proceeds_confined
    {set : Memory → Except Fault Memory}
    {mem mem' : Memory}
    (hWrites : Writes stack.buffer set mem mem') :
    Confined stack.buffer (fun mem => proceeds (set mem))
      mem :=
  Confined.write hWrites (confined_pure mem' _)

theorem keeps_confined
    (mem : Memory) :
    Confined stack.buffer (fun mem => proceeds (.ok mem))
      mem :=
  confined_pure mem _

theorem routingIngress_confined
    (hRouting : stack.options.routingEnabled = true)
    (mem : Memory) :
    Confined stack.buffer
      (fun mem => proceeds (stack.routingIngress mem))
      mem := by
  unfold routingIngress
  cases hIP : stack.isIPCompat with
  | false => exact keeps_confined mem
  | true =>
      rcases reads_wire (ipTotalLen_mem hIP hRouting) mem with
        ⟨v, hRead⟩
      exact proceeds_confined
        (Writes.read hRead (writes_computed _ mem))

theorem identifierReceive_confined
    (mem : Memory) :
    Confined stack.buffer (stack.identifierReceive lookups)
      mem := by
  rcases reads_id stack .dstHostId (by simp) mem with
    ⟨dstHost, hDstHost⟩
  rcases reads_id stack .dstAppId (by simp) mem with
    ⟨dstApp, hDstApp⟩
  rcases reads_id stack .srcAppId (by simp) mem with
    ⟨srcApp, hSrcApp⟩
  rcases reads_id stack .srcHostId (by simp) mem with
    ⟨srcHost, hSrcHost⟩
  by_cases hForeign : dstHost ≠ lookups.myLocalHostId
  · refine Confined.read hDstHost ?_
    simp only [if_pos hForeign]
    exact confined_pure mem _
  · cases hLookup : lookups.retrieveConnection
        (dstApp.setWidth 32) (srcApp.setWidth 32) srcHost with
    | none =>
        refine Confined.read hDstHost ?_
        simp only [if_neg hForeign]
        refine Confined.read hDstApp (Confined.read hSrcApp
          (Confined.read hSrcHost ?_))
        simp only [hLookup]
        exact confined_pure mem _
    | some c =>
        rcases writes_flow stack c mem with
          ⟨mem', hFlow⟩
        refine Confined.read hDstHost ?_
        simp only [if_neg hForeign]
        refine Confined.read hDstApp (Confined.read hSrcApp
          (Confined.read hSrcHost ?_))
        simp only [hLookup]
        exact Confined.write hFlow (confined_pure mem' _)

theorem reliableReceive_confined
    (hReliable : stack.options.reliableEnabled = true)
    (mem : Memory) :
    Confined stack.buffer stack.reliableReceive mem := by
  have hNumbered : stack.options.isNumbered = true := by
    simp [StackOptions.isNumbered, hReliable]
  rcases reads_wire (ackNumber_mem hReliable) mem with
    ⟨ackSeq, hAck⟩
  rcases reads_wire (sequenceNumber_mem hNumbered) mem with
    ⟨seq, hSeq⟩
  rcases reads_flow stack mem with ⟨c, hFlow⟩
  by_cases hIsAck : ackSeq.setWidth 32 ≠ (0 : BitVec 32)
  · refine Confined.read hAck (Confined.read hFlow ?_)
    simp only [if_pos hIsAck]
    exact confined_pure mem _
  · refine Confined.read hAck (Confined.read hFlow ?_)
    simp only [if_neg hIsAck]
    exact Confined.read hSeq (confined_pure mem _)

theorem insertPayload_confined
    (stack : PacketStack)
    (c : ConnPtr)
    (mem : Memory) :
    Confined stack.buffer (stack.insertPayload c) mem := by
  rcases reads_member stack.computedTotalLen_mem mem with
    ⟨v, hRead⟩
  have hLen : Reads stack.buffer stack.payloadLen mem
      ((v - BitVec.ofNat 64 stack.headerLen).setWidth
        32).toInt := by
    intro mem' hSame
    rw [payloadLen, hRead mem' hSame]
    rfl
  exact Confined.read hLen (confined_pure mem _)

theorem inorderReceive_confined
    (hGenerates : stack.isIPCompat = true →
      stack.options.inorderStrategy ≠ .holdForever)
    (mem : Memory) :
    Confined stack.buffer (stack.inorderReceive lookups)
      mem := by
  rcases reads_flow stack mem with ⟨c, hFlow⟩
  have hInsert := insertPayload_confined stack c mem
  unfold inorderReceive
  cases hStrategy : stack.options.inorderStrategy with
  | noInorder =>
      exact Confined.read hFlow hInsert
  | dropOutOfOrder =>
      have hNumbered : stack.options.isNumbered = true := by
        simp [StackOptions.isNumbered, hStrategy]
      rcases reads_wire (sequenceNumber_mem hNumbered) mem with
        ⟨seq, hSeq⟩
      cases hOrder : lookups.inOrder c (seq.setWidth 32) with
      | true =>
          refine Confined.read hFlow
            (Confined.read hSeq ?_)
          simp only [hOrder, if_true]
          exact hInsert
      | false =>
          refine Confined.read hFlow
            (Confined.read hSeq ?_)
          simp only [hOrder, Bool.false_eq_true, if_false]
          exact confined_pure mem _
  | holdForever =>
      have hNumbered : stack.options.isNumbered = true := by
        simp [StackOptions.isNumbered, hStrategy]
      have hIP : stack.isIPCompat = false := by
        by_contra hNot
        exact hGenerates (by simpa using hNot) hStrategy
      rcases reads_wire (sequenceNumber_mem hNumbered) mem with
        ⟨seq, hSeq⟩
      rcases writes_total hIP mem with ⟨v, -, hTotal⟩
      have hInsert' := insertPayload_confined stack c
        (IntegerMember.writeType .int mem 0 v)
      cases hOrder : lookups.inOrder c (seq.setWidth 32) with
      | true =>
          refine Confined.read hFlow
            (Confined.read hSeq ?_)
          simp only [hOrder, if_true]
          exact Confined.write hTotal hInsert'
      | false =>
          refine Confined.read hFlow
            (Confined.read hSeq ?_)
          simp only [hOrder, Bool.false_eq_true, if_false]
          exact confined_pure mem _

/-
  All hooks but the checksum's keep to the buffer, whatever
  bytes the packet has.
-/
theorem hookReceive_confined
    {m : Module}
    (hGenerates : stack.Generates)
    (hRegistered :
      m ∈ registeredModules stack.options.toConfig)
    (hNe : m ≠ .checksum)
    (mem : Memory) :
    Confined stack.buffer (stack.hookReceive lookups m)
      mem := by
  cases m with
  | payload =>
      simp only [hookReceive, payloadIngress]
      cases hIP : stack.isIPCompat with
      | true => exact keeps_confined mem
      | false =>
          rcases writes_total hIP mem with ⟨v, -, hTotal⟩
          exact proceeds_confined hTotal
  | signaling =>
      rcases reads_flow stack mem with ⟨c, hFlow⟩
      exact Confined.read hFlow (confined_pure mem _)
  | inorder =>
      exact inorderReceive_confined lookups
        (fun hIP => (hGenerates hIP).1) mem
  | reliable =>
      apply reliableReceive_confined
      by_contra hNot
      simp [registeredModules, hNot] at hRegistered
  | identifier => exact identifierReceive_confined lookups mem
  | signalingAfter => exact keeps_confined mem
  | routing =>
      apply routingIngress_confined
      by_contra hNot
      simp [registeredModules, hNot] at hRegistered
  | checksum => exact absurd rfl hNe
  | network =>
      simp only [hookReceive, networkIngress]
      cases hIP : stack.isIPCompat with
      | true => exact keeps_confined mem
      | false =>
          rcases writes_total hIP mem with ⟨v, -, hTotal⟩
          exact proceeds_confined hTotal

/- A hook that is left out, or dropped before, does nothing. -/
theorem goOn_confined
    {rest : Memory → Except Fault (List Report × Memory)}
    {mem : Memory}
    (hRest : Confined stack.buffer rest mem)
    (r : Received) :
    Confined stack.buffer (goOn rest r) mem := by
  rcases r with ⟨status, reports⟩
  cases status with
  | hookDrop => exact confined_pure mem _
  | hookContinue =>
      rcases hRest with ⟨more, out, hActs⟩
      exact hActs.confined
        (fun more mem => pure (reports ++ more, mem))
        (confined_pure out _)

theorem receiveHooks_confined
    {modules : List Module}
    (hModules : ∀ m ∈ modules, ∀ mem,
      Confined stack.buffer (stack.hookReceive lookups m) mem)
    (mem : Memory) :
    Confined stack.buffer (stack.receiveHooks lookups modules)
      mem := by
  induction modules generalizing mem with
  | nil => exact confined_pure mem _
  | cons m modules ih =>
      rcases hModules m (List.mem_cons_self ..) mem with
        ⟨r, mem', hHook⟩
      have hRest := ih (fun other hMem =>
        hModules other (List.mem_cons_of_mem _ hMem)) mem'
      exact hHook.confined
        (goOn (stack.receiveHooks lookups modules))
        (goOn_confined hRest r)

end Hooks

------------------------------------------------------------
-- The Checksum
------------------------------------------------------------

/- `eo`, where the bytes that are added up end. -/
def endOfLen
    (stack : PacketStack)
    (len : BitVec 64) : Int :=
  (len.setWidth 32 + BitVec.ofNat 32 stack.headroom).toInt

/- It is in the buffer, and a padded byte is not before it. -/
def EndFits
    (stack : PacketStack)
    (eo : Int) : Prop :=
  eo ≤ stack.pollSize ∧ (eo < 0 → eo % 2 = 0)

/-
  The length that a packet announces, as it is known to the
  checksum module, ends in the buffer.
-/
def EndsInside
    (stack : PacketStack)
    (mem : Memory) : Prop :=
  stack.options.checksumEnabled = true →
    stack.options.checksumType = .fullPacket →
      ∃ len, stack.netPacket.getInteger
          (if stack.isIPCompat then
            .header .computedTotalLen
          else
            .header .totalLen) mem = .ok len ∧
        stack.EndFits (stack.endOfLen len)

/- The packet that is padded at its end. -/
def padded
    (stack : PacketStack)
    (eo : Int)
    (mem : Memory) : Memory :=
  if (eo - stack.headroom) % 2 ≠ 0 then
    Function.update mem eo.toNat 0
  else
    mem

/- The packet that is left by `hook_ingress`. -/
def checkedMemory
    (stack : PacketStack)
    (eo : Int)
    (c : Nat)
    (mem : Memory) : Memory :=
  storeShort (stack.padded eo (storeShort mem c 0)) c
    (loadShort mem c)

/- The sum of the words up to an end. -/
def sumTo
    (stack : PacketStack)
    (eo : Int)
    (c : Nat)
    (mem : Memory) : BitVec 16 :=
  PacketBuffer.sumWords
    (stack.padded eo (storeShort mem c 0)) stack.headroom
    ((eo + 1 - stack.headroom) / 2).toNat

/- Whether the packet has the sum that it says. -/
def passes
    (stack : PacketStack)
    (eo : Int)
    (c : Nat)
    (mem : Memory) : Bool :=
  stack.sumTo eo c mem = loadShort mem c

theorem padded_of_ne
    {eo : Int}
    {a : Nat}
    (mem : Memory)
    (hNe : a ≠ eo.toNat) :
    stack.padded eo mem a = mem a := by
  unfold padded
  split
  · exact Function.update_of_ne hNe _ _
  · rfl

theorem padded_congr
    {mem mem' : Memory}
    {a : Nat}
    (eo : Int)
    (hSame : mem' a = mem a) :
    stack.padded eo mem' a = stack.padded eo mem a := by
  unfold padded
  split
  · unfold Function.update
    split
    · rfl
    · exact hSame
  · exact hSame

/- The padded byte is in the buffer if the end is. -/
theorem padded_outside
    {eo : Int}
    {a : Nat}
    (mem : Memory)
    (hFits : stack.EndFits eo)
    (hOutside : stack.pollSize ≤ a) :
    stack.padded eo mem a = mem a := by
  have hRoom := stack.pollSize_bounds
  unfold padded
  split
  · next hOdd =>
      have hNonneg : 0 ≤ eo := by
        by_contra hNeg
        have hEven := hFits.2 (by omega)
        omega
      have hLe := hFits.1
      exact Function.update_of_ne (by omega) _ _
  · rfl

theorem checksumEnd_congr
    {mem mem' : Memory}
    (hBytes : ∀ a, a < 4 → mem' a = mem a) :
    stack.checksumEnd mem' = stack.checksumEnd mem := by
  unfold checksumEnd
  rw [getInteger_computed hBytes]

section Compute

variable
    {c : Nat}
    {eo : Int}
    {mem : Memory}
    (hEnabled : stack.options.checksumEnabled = true)
    (hPlace : stack.netPacket.offset (.header .checksum) =
      .ok (8 * c))
    (hEnd : stack.checksumEnd mem = .ok eo)

include hEnabled hPlace hEnd

/- The end is computed of a cleared packet. -/
theorem checksumEnd_cleared :
    stack.checksumEnd (storeShort mem c 0) = .ok eo := by
  have hBetween := checksum_between hEnabled hPlace
  have hRoom := stack.pollSize_bounds
  rw [← hEnd]
  apply checksumEnd_congr
  intro a hLt
  exact storeShort_of_outside _ _ (by omega)

/- `hook_ingress`, unless it pads a byte before the packet. -/
theorem checksumReceive_eq
    (hPad : eo < 0 → eo % 2 = 0) :
    stack.checksumReceive mem =
      .ok ((if stack.passes eo c mem then
            .hookContinue
          else
            .hookDrop,
          [.checked (stack.passes eo c mem)]),
        stack.checkedMemory eo c mem) := by
  have hGet := (checksum_access hEnabled hPlace mem).2
  have hZero : stack.netPacket.setInteger (.header .checksum) 0
      mem = .ok (storeShort mem c 0) :=
    (checksum_access hEnabled hPlace mem).1 0
  have hSaved : ((loadShort mem c).setWidth 64).setWidth 16 =
      loadShort mem c := by simp
  have hRoom := stack.pollSize_bounds
  have hCompute : stack.computeChecksum mem =
      .ok (stack.padded eo (storeShort mem c 0),
        stack.sumTo eo c mem) := by
    unfold computeChecksum sumTo padded
    simp only [hZero, ok_bind,
      checksumEnd_cleared hEnabled hPlace hEnd]
    by_cases hOdd : (eo - stack.headroom) % 2 ≠ 0
    · have hNonneg : 0 ≤ eo := by
        by_contra hNeg
        have hEven := hPad (by omega)
        omega
      rw [if_pos hOdd, if_pos hOdd, pad, if_pos hNonneg]
      rfl
    · have hWords : (eo - stack.headroom) / 2 =
          (eo + 1 - stack.headroom) / 2 := by omega
      rw [if_neg hOdd, if_neg hOdd, hWords]
      rfl
  have hSet := (checksum_access hEnabled hPlace
    (stack.padded eo (storeShort mem c 0))).1 (loadShort mem c)
  unfold checksumReceive checksumIngress checkedMemory passes
  simp only [hGet, ok_bind, hSaved, hCompute, hSet]
  by_cases hSum : stack.sumTo eo c mem = loadShort mem c
  · simp [hSum]
  · simp [hSum]

/- An odd end before the packet is padded outside of it. -/
theorem checksumReceive_before
    (hBefore : eo < 0)
    (hOdd : eo % 2 ≠ 0) :
    stack.checksumReceive mem = .error .outOfBounds := by
  have hGet := (checksum_access hEnabled hPlace mem).2
  have hZero : stack.netPacket.setInteger (.header .checksum) 0
      mem = .ok (storeShort mem c 0) :=
    (checksum_access hEnabled hPlace mem).1 0
  have hRoom := stack.pollSize_bounds
  have hPads : (eo - stack.headroom) % 2 ≠ 0 := by omega
  unfold checksumReceive checksumIngress computeChecksum
  simp only [hGet, ok_bind, hZero,
    checksumEnd_cleared hEnabled hPlace hEnd]
  rw [if_pos hPads, pad, if_neg (by omega)]
  rfl

/- Up to an end in the buffer, the rest has no part in it. -/
theorem checksumReceive_confined
    (hFits : stack.EndFits eo) :
    Confined stack.buffer stack.checksumReceive mem := by
  have hBetween := checksum_between hEnabled hPlace
  have hRoom := stack.pollSize_bounds
  have hSize := stack.headroom_add
  have hLe := hFits.1
  refine ⟨(if stack.passes eo c mem then
      .hookContinue
    else
      .hookDrop,
    [.checked (stack.passes eo c mem)]),
    stack.checkedMemory eo c mem, ?_⟩
  intro mem' hSame
  have hBytes : ∀ a, a < stack.pollSize → mem' a = mem a :=
    fun a hLt => hSame (Set.mem_Iio.mpr hLt)
  have hEnd' : stack.checksumEnd mem' = .ok eo := by
    rw [← hEnd]
    exact checksumEnd_congr (fun a hLt =>
      hBytes a (by omega))
  have hSaved : loadShort mem' c = loadShort mem c := by
    unfold loadShort
    rw [load_congr (fun a _ hLt => hBytes a (by omega))]
  have hPadded : ∀ a, a < stack.pollSize →
      stack.padded eo (storeShort mem' c 0) a =
        stack.padded eo (storeShort mem c 0) a := by
    intro a hLt
    apply padded_congr
    unfold storeShort store
    split
    · rfl
    · exact hBytes a hLt
  have hSum : stack.sumTo eo c mem' = stack.sumTo eo c mem := by
    apply PacketBuffer.sumWords_congr
    intro a hFrom hTo
    exact hPadded a (by omega)
  have hPasses : stack.passes eo c mem' =
      stack.passes eo c mem := by
    unfold passes
    rw [hSum, hSaved]
  have hMemory : stack.checkedMemory eo c mem' =
      stack.buffer.piecewise (stack.checkedMemory eo c mem)
        mem' := by
    funext a
    unfold checkedMemory
    by_cases hIn : a < stack.pollSize
    · rw [Set.piecewise_eq_of_mem _ _ _ (Set.mem_Iio.mpr hIn),
        hSaved]
      unfold storeShort store
      split
      · rfl
      · exact hPadded a hIn
    · have hOutside : c + 2 ≤ a := by omega
      rw [Set.piecewise_eq_of_notMem _ _ _
          (fun hMem => hIn (Set.mem_Iio.mp hMem)),
        storeShort_of_outside _ _ (Or.inr hOutside),
        padded_outside _ hFits (by omega),
        storeShort_of_outside _ _ (Or.inr hOutside)]
  rw [checksumReceive_eq hEnabled hPlace hEnd' hFits.2, hPasses,
    hMemory]

end Compute

------------------------------------------------------------
-- The Path
------------------------------------------------------------

section Path

variable (lookups : Lookups)

/- The modules behind the checksum, on ingress. -/
def restModules
    (stack : PacketStack) : List Module :=
  (if stack.options.routingEnabled then [.routing] else []) ++
    [.signalingAfter, .identifier] ++
    backModules stack.options.toConfig

theorem registered_reverse
    (stack : PacketStack) :
    (registeredModules stack.options.toConfig).reverse =
      .network :: ((if stack.options.checksumEnabled then
        [.checksum]
      else
        []) ++ stack.restModules) := by
  rw [registeredModules_reverse, NetBlocks.frontModules,
    restModules]
  simp only [List.append_assoc, List.cons_append,
    List.nil_append]

theorem receive_eq :
    stack.receive lookups =
      stack.receiveHooks lookups (.network ::
        ((if stack.options.checksumEnabled then
          [.checksum]
        else
          []) ++ stack.restModules)) := by
  funext mem
  rw [receive, registered_reverse]

theorem restModules_confined
    (hGenerates : stack.Generates)
    (mem : Memory) :
    Confined stack.buffer
      (stack.receiveHooks lookups stack.restModules) mem := by
  apply receiveHooks_confined
  intro m hMem mem
  apply hookReceive_confined lookups hGenerates
  · rw [← List.mem_reverse, registered_reverse]
    exact List.mem_cons_of_mem _
      (List.mem_append_right _ hMem)
  · rintro rfl
    unfold restModules backModules at hMem
    split at hMem <;> split at hMem <;> simp at hMem

/- Behind the network module's hook, the end is known. -/
theorem network_actsOn
    (stack : PacketStack)
    (mem : Memory) :
    ∃ mem' len,
      ActsOn stack.buffer (stack.hookReceive lookups .network)
        mem (.hookContinue, []) mem' ∧
      stack.netPacket.getInteger
          (if stack.isIPCompat then
            .header .computedTotalLen
          else
            .header .totalLen) mem = .ok len ∧
      (stack.options.checksumType = .fullPacket →
        stack.checksumEnd mem' = .ok (stack.endOfLen len)) := by
  cases hIP : stack.isIPCompat with
  | true =>
      have hHook : stack.hookReceive lookups .network =
          fun mem => pure ((.hookContinue, []), mem) := by
        funext mem
        simp [hookReceive, networkIngress, hIP, proceeds]
      refine ⟨mem, _, ?_,
        (stack.computedTotalLen_access mem).2, ?_⟩
      · rw [hHook]
        exact actsOn_pure mem _
      · intro hFull
        simp only [checksumEnd, hFull,
          (stack.computedTotalLen_access mem).2, ok_bind]
        rfl
  | false =>
      rcases writes_total hIP mem with ⟨len, hRead, hTotal⟩
      have hHook : stack.hookReceive lookups .network =
          fun mem => stack.restoreTotalLen mem >>=
            fun mem => pure ((.hookContinue, []), mem) := by
        funext mem
        simp only [hookReceive, networkIngress, hIP, proceeds]
        rfl
      refine ⟨IntegerMember.writeType .int mem 0 len, len, ?_,
        hRead mem (Set.eqOn_refl _ _), ?_⟩
      · rw [hHook]
        exact hTotal.actsOn _
      · intro hFull
        have hValue : ((IntegerMember.readType .int
            (IntegerMember.writeType .int mem 0 len)
              0).setWidth 32 : BitVec 32) =
            len.setWidth 32 :=
          IntegerMember.readType_writeType .int mem 0 len
        simp only [checksumEnd, hFull,
          (stack.computedTotalLen_access _).2, ok_bind]
        rw [hValue]
        rfl

theorem checksum_place
    (hAligned : stack.ByteAligned)
    (hEnabled : stack.options.checksumEnabled = true) :
    ∃ c, stack.netPacket.offset (.header .checksum) =
      .ok (8 * c) := by
  have hMem : .header .checksum ∈ stack.netPacket.order :=
    StackOptions.mem_order_of_wire (checksum_mem hEnabled)
  rcases stack.wellFormed.placed hMem with ⟨o, hOffset⟩
  rcases Nat.dvd_of_mod_eq_zero
    (hAligned _ hMem o hOffset) with ⟨c, rfl⟩
  exact ⟨c, hOffset⟩

/- If the end is in the buffer, all hooks keep to it. -/
theorem receive_confined
    {mem : Memory}
    (hAligned : stack.ByteAligned)
    (hGenerates : stack.Generates)
    (hInside : stack.EndsInside mem) :
    Confined stack.buffer (stack.receive lookups) mem := by
  have hRest := restModules_confined lookups hGenerates
  have hRoom := stack.pollSize_bounds
  have hSize := stack.headroom_add
  rcases network_actsOn lookups stack mem with
    ⟨mem', len, hNetwork, hLen, hEnd⟩
  rw [receive_eq]
  refine hNetwork.confined (goOn (stack.receiveHooks lookups
    _)) (goOn_confined ?_ _)
  cases hEnabled : stack.options.checksumEnabled with
  | false => exact hRest mem'
  | true =>
      rcases checksum_place hAligned hEnabled with ⟨c, hPlace⟩
      have hChecksum :
          Confined stack.buffer stack.checksumReceive mem' := by
        cases hType : stack.options.checksumType with
        | headerOnly =>
            have hHeader : stack.checksumEnd mem' =
                .ok (stack.totalSize - 1 : Int) := by
              simp only [checksumEnd, hType]
              rfl
            exact checksumReceive_confined hEnabled hPlace
              hHeader ⟨by omega, fun hNeg => by omega⟩
        | fullPacket =>
            rcases hInside hEnabled hType with
              ⟨len', hLen', hFits⟩
            cases hLen.symm.trans hLen'
            exact checksumReceive_confined hEnabled hPlace
              (hEnd hType) hFits
      rcases hChecksum with ⟨r, out, hActs⟩
      exact hActs.confined
        (goOn (stack.receiveHooks lookups stack.restModules))
        (goOn_confined (hRest out) r)

/- What is added up changes with a word in it. -/
theorem sumWords_storeShort
    (mem : Memory)
    (w : BitVec 16)
    {start j n : Nat}
    (hIn : j < n) :
    PacketBuffer.sumWords
        (storeShort mem (start + 2 * j) w) start n =
      PacketBuffer.sumWords
        (storeShort mem (start + 2 * j) 0) start n + w := by
  have hOther : ∀ a, (a < start + 2 * j ∨
      start + 2 * j + 2 ≤ a) →
      storeShort mem (start + 2 * j) w a =
        storeShort mem (start + 2 * j) 0 a := by
    intro a hOutside
    rw [storeShort_of_outside _ _ hOutside,
      storeShort_of_outside _ _ hOutside]
  induction n with
  | zero => omega
  | succ n ih =>
      rw [PacketBuffer.sumWords, PacketBuffer.sumWords]
      by_cases hLast : j = n
      · have hRest : PacketBuffer.sumWords
            (storeShort mem (start + 2 * j) w) start n =
              PacketBuffer.sumWords
                (storeShort mem (start + 2 * j) 0) start n :=
          PacketBuffer.sumWords_congr (fun a _ hTo =>
            hOther a (by omega))
        have hWord : BitVec.ofNat 16 (load (storeShort mem
            (start + 2 * j) w) (start + 2 * n) 2) = w := by
          rw [← hLast]
          exact loadShort_storeShort mem _ w
        have hZero : BitVec.ofNat 16 (load (storeShort mem
            (start + 2 * j) 0) (start + 2 * n) 2) = 0 := by
          rw [← hLast]
          exact loadShort_storeShort mem _ 0
        rw [hRest, hWord, hZero]
        simp
      · have hWord : load (storeShort mem
            (start + 2 * j) w) (start + 2 * n) 2 =
              load (storeShort mem (start + 2 * j) 0)
                (start + 2 * n) 2 :=
          load_congr (fun a hFrom hTo => hOther a (by omega))
        rw [ih (by omega), hWord, BitVec.add_assoc,
          BitVec.add_comm w, ← BitVec.add_assoc]

/- The report of a hook comes first. -/
theorem goOn_head
    {rest : Memory → Except Fault (List Report × Memory)}
    {status : HookStatus}
    {report : Report}
    {mem : Memory}
    {reports : List Report}
    {out : Memory}
    (hRun : goOn rest (status, [report]) mem =
      .ok (reports, out)) :
    reports.head? = some report := by
  cases status with
  | hookDrop =>
      cases hRun
      rfl
  | hookContinue =>
      rcases bind_eq_ok_iff.mp hRun with ⟨more, -, hEnd⟩
      cases hEnd
      rfl

/- Memory with a word behind the buffer. -/
def wordBehind
    (stack : PacketStack)
    (mem₁ mem : Memory)
    (w : BitVec 16) : Memory :=
  stack.buffer.piecewise mem₁ (storeShort mem stack.pollSize w)

section Behind

variable
    {mem₁ mem : Memory}
    {c : Nat}

theorem wordBehind_inside
    {a : Nat}
    (w : BitVec 16)
    (hIn : a < stack.pollSize) :
    stack.wordBehind mem₁ mem w a = mem₁ a :=
  Set.piecewise_eq_of_mem _ _ _ (Set.mem_Iio.mpr hIn)

theorem wordBehind_outside
    {a : Nat}
    (w : BitVec 16)
    (hOut : stack.pollSize ≤ a) :
    stack.wordBehind mem₁ mem w a =
      storeShort mem stack.pollSize w a :=
  Set.piecewise_eq_of_notMem _ _ _
    (fun hMem => absurd (Set.mem_Iio.mp hMem) (by omega))

/- The checksum of the packet is not in that word. -/
theorem loadShort_wordBehind
    (w : BitVec 16)
    (hIn : c + 2 ≤ stack.pollSize) :
    loadShort (stack.wordBehind mem₁ mem w) c =
      loadShort mem₁ c := by
  have hLoad : load (stack.wordBehind mem₁ mem w) c 2 =
      load mem₁ c 2 :=
    load_congr (fun a _ hLt => wordBehind_inside w (by omega))
  unfold loadShort
  rw [hLoad]

/- It is as if the word were written last. -/
theorem storeShort_wordBehind
    (w : BitVec 16)
    (hIn : c + 2 ≤ stack.pollSize)
    (a : Nat) :
    storeShort (stack.wordBehind mem₁ mem w) c 0 a =
      storeShort (storeShort (stack.wordBehind mem₁ mem 0) c 0)
        stack.pollSize w a := by
  by_cases hInside : a < stack.pollSize
  · rw [storeShort_of_outside (storeShort _ c 0) _
      (Or.inl hInside)]
    by_cases hOwn : c ≤ a ∧ a < c + 2
    · exact storeShort_inside 0 hOwn.1 hOwn.2
    · rw [storeShort_of_outside _ _ (by omega),
        storeShort_of_outside _ _ (by omega),
        wordBehind_inside w hInside,
        wordBehind_inside 0 hInside]
  · rw [storeShort_of_outside _ _ (by omega),
      wordBehind_outside w (by omega)]
    by_cases hOwn : a < stack.pollSize + 2
    · exact storeShort_inside w (by omega) hOwn
    · rw [storeShort_of_outside _ _ (by omega),
        storeShort_of_outside _ _ (by omega),
        storeShort_of_outside _ _ (by omega),
        wordBehind_outside 0 (by omega),
        storeShort_of_outside _ _ (by omega)]

/- The word is added up. -/
theorem sumTo_wordBehind
    {eo : Int}
    (w : BitVec 16)
    (hIn : c + 2 ≤ stack.pollSize)
    (hBehind : stack.pollSize < eo)
    (hEven : eo % 2 = 0) :
    stack.sumTo eo c (stack.wordBehind mem₁ mem w) =
      stack.sumTo eo c (stack.wordBehind mem₁ mem 0) + w := by
  have hRoom := stack.pollSize_bounds
  have hPlace : stack.pollSize = stack.headroom + 2 * 512 := by
    omega
  have hWords : 512 < ((eo + 1 - stack.headroom) / 2).toNat := by
    omega
  have hBytes : ∀ v a, stack.padded eo (storeShort
      (stack.wordBehind mem₁ mem v) c 0) a =
        storeShort (storeShort (stack.wordBehind mem₁ mem 0)
          c 0) (stack.headroom + 2 * 512) v a := by
    intro v a
    rw [padded, if_neg (by omega), ← hPlace]
    exact storeShort_wordBehind v hIn a
  unfold sumTo
  rw [PacketBuffer.sumWords_congr (fun a _ _ => hBytes w a),
    PacketBuffer.sumWords_congr (fun a _ _ => hBytes 0 a)]
  exact sumWords_storeShort _ w hWords

/- One word completes the sum, and the next one does not. -/
theorem exists_wordBehind
    (mem₁ mem : Memory)
    {eo : Int}
    (hIn : c + 2 ≤ stack.pollSize)
    (hBehind : stack.pollSize < eo)
    (hEven : eo % 2 = 0) :
    ∃ w, stack.passes eo c (stack.wordBehind mem₁ mem w) =
        true ∧
      stack.passes eo c (stack.wordBehind mem₁ mem (w + 1)) =
        false := by
  let base := stack.sumTo eo c (stack.wordBehind mem₁ mem 0)
  let word := loadShort mem₁ c - base
  have hSum : ∀ w, stack.sumTo eo c
      (stack.wordBehind mem₁ mem w) = base + w :=
    fun w => sumTo_wordBehind w hIn hBehind hEven
  have hWord : base + word = loadShort mem₁ c := by
    rw [BitVec.add_comm]
    exact BitVec.sub_add_cancel _ _
  refine ⟨word, ?_, ?_⟩
  · unfold passes
    rw [hSum, loadShort_wordBehind word hIn, hWord]
    exact decide_eq_true rfl
  · unfold passes
    rw [hSum, loadShort_wordBehind _ hIn, ← BitVec.add_assoc,
      hWord]
    apply decide_eq_false
    intro hEq
    simp at hEq

end Behind

section Outside

variable
    {mem mem₁ : Memory}
    {len : BitVec 64}
    {c : Nat}
    (hGenerates : stack.Generates)
    (hEnabled : stack.options.checksumEnabled = true)
    (hPlace : stack.netPacket.offset (.header .checksum) =
      .ok (8 * c))
    (hNetwork : ActsOn stack.buffer
      (stack.hookReceive lookups .network) mem
        (.hookContinue, []) mem₁)
    (hEnd : stack.checksumEnd mem₁ =
      .ok (stack.endOfLen len))

include hEnabled hNetwork in
/- Behind the network module's hook is the checksum's. -/
theorem receive_after
    {mem' : Memory}
    (hSame : Set.EqOn mem' mem stack.buffer) :
    stack.receive lookups mem' =
      (do
        let r ← stack.checksumReceive
          (stack.buffer.piecewise mem₁ mem')
        goOn (stack.receiveHooks lookups stack.restModules)
          r.1 r.2) := by
  have hFirst := hNetwork mem' hSame
  rw [receive_eq, hEnabled, if_pos rfl, receiveHooks]
  simp only [hFirst, ok_bind]
  have hAgain : ∀ result : Except Fault
      (List Report × Memory),
      (do
        let more ← result
        return (([] : List Report) ++ more.1, more.2)) =
          result := by
    intro result
    cases result <;> rfl
  exact hAgain _

include hEnd in
theorem checksumEnd_after
    (mem' : Memory) :
    stack.checksumEnd (stack.buffer.piecewise mem₁ mem') =
      .ok (stack.endOfLen len) := by
  have hRoom := stack.pollSize_bounds
  rw [← hEnd]
  apply checksumEnd_congr
  intro a hLt
  exact Set.piecewise_eq_of_mem _ _ _
    (Set.mem_Iio.mpr (by omega))

include hEnabled hPlace hNetwork hEnd

include hGenerates in
/-
  A padded byte behind the buffer is cleared: memory there
  changes that had another value.
-/
theorem not_confined_of_odd
    (hBehind : stack.pollSize < stack.endOfLen len)
    (hOdd : stack.endOfLen len % 2 ≠ 0) :
    ¬ Confined stack.buffer (stack.receive lookups) mem := by
  rintro ⟨reports, out, hActs⟩
  have hRoom := stack.pollSize_bounds
  have hBetween := checksum_between hEnabled hPlace
  let eo := (stack.endOfLen len).toNat
  have hEo : (eo : Int) = stack.endOfLen len :=
    Int.toNat_of_nonneg (by omega)
  have hNot : eo ∉ stack.buffer := by
    rw [Set.mem_Iio]
    omega
  let mem' := Function.update mem eo 1
  have hSame : Set.EqOn mem' mem stack.buffer := by
    intro a hMem
    apply Function.update_of_ne
    rintro rfl
    exact hNot hMem
  let after := stack.buffer.piecewise mem₁ mem'
  have hRun := hActs mem' hSame
  rw [receive_after lookups hEnabled hNetwork hSame,
    checksumReceive_eq hEnabled hPlace
      (checksumEnd_after hEnd mem') (by omega), ok_bind] at hRun
  have hRest := goOn_confined (restModules_confined lookups
    hGenerates (stack.checkedMemory (stack.endOfLen len) c
      after))
    (if stack.passes (stack.endOfLen len) c after then
        .hookContinue
      else
        .hookDrop,
      [.checked (stack.passes (stack.endOfLen len) c after)])
  rcases hRest with ⟨_, _, hGoOn⟩
  have hKept := hGoOn.spares (Set.eqOn_refl _ _) hRun hNot
  have hCleared : stack.checkedMemory (stack.endOfLen len) c
      after eo = 0 := by
    unfold checkedMemory
    rw [storeShort_of_outside _ _ (by omega), padded,
      if_pos (by omega)]
    exact Function.update_self _ _ _
  rw [hCleared, Set.piecewise_eq_of_notMem _ _ _ hNot] at hKept
  change Function.update mem eo 1 eo = 0 at hKept
  rw [Function.update_self] at hKept
  exact absurd hKept (by decide)

/-
  The word behind the buffer is added up: whether the packet
  passes depends on it.
-/
theorem not_confined_of_even
    (hBehind : stack.pollSize < stack.endOfLen len)
    (hEven : stack.endOfLen len % 2 = 0) :
    ¬ Confined stack.buffer (stack.receive lookups) mem := by
  rintro ⟨reports, out, hActs⟩
  have hRoom := stack.pollSize_bounds
  have hBetween := checksum_between hEnabled hPlace
  have hReport : ∀ w, reports.head? =
      some (.checked (stack.passes (stack.endOfLen len) c
        (stack.wordBehind mem₁ mem w))) := by
    intro w
    have hSame : Set.EqOn (storeShort mem stack.pollSize w) mem
        stack.buffer := by
      intro a hMem
      exact storeShort_of_outside _ _
        (Or.inl (Set.mem_Iio.mp hMem))
    have hRun := hActs _ hSame
    rw [receive_after lookups hEnabled hNetwork hSame,
      checksumReceive_eq hEnabled hPlace
        (checksumEnd_after hEnd _) (by omega), ok_bind] at hRun
    exact goOn_head hRun
  have hIn : c + 2 ≤ stack.pollSize := by omega
  rcases exists_wordBehind mem₁ mem hIn hBehind hEven with
    ⟨word, hPasses, hFails⟩
  have hOne := hReport word
  have hTwo := hReport (word + 1)
  rw [hPasses] at hOne
  rw [hFails, hOne] at hTwo
  cases hTwo

/- A padded byte before the packet is not in its buffer. -/
theorem not_confined_of_before
    (hBefore : stack.endOfLen len < 0)
    (hOdd : stack.endOfLen len % 2 ≠ 0) :
    ¬ Confined stack.buffer (stack.receive lookups) mem := by
  rintro ⟨reports, out, hActs⟩
  have hRun := hActs.self
  rw [receive_after lookups hEnabled hNetwork
      (Set.eqOn_refl mem _),
    checksumReceive_before hEnabled hPlace
      (checksumEnd_after hEnd mem) hBefore hOdd] at hRun
  cases hRun

end Outside

/- A path that keeps to the buffer is given such an end. -/
theorem endsInside_of_confined
    {mem : Memory}
    (hAligned : stack.ByteAligned)
    (hGenerates : stack.Generates)
    (hConfined : Confined stack.buffer
      (stack.receive lookups) mem) :
    stack.EndsInside mem := by
  intro hEnabled hFull
  rcases network_actsOn lookups stack mem with
    ⟨mem₁, len, hNetwork, hLen, hEnd⟩
  rcases checksum_place hAligned hEnabled with ⟨c, hPlace⟩
  refine ⟨len, hLen, ?_, ?_⟩
  · by_contra hNot
    have hBehind : stack.pollSize < stack.endOfLen len := by
      omega
    by_cases hEven : stack.endOfLen len % 2 = 0
    · exact not_confined_of_even lookups hEnabled hPlace
        hNetwork (hEnd hFull) hBehind hEven hConfined
    · exact not_confined_of_odd lookups hGenerates hEnabled
        hPlace hNetwork (hEnd hFull) hBehind hEven hConfined
  · intro hBefore
    by_contra hOdd
    exact not_confined_of_before lookups hEnabled hPlace
      hNetwork (hEnd hFull) hBefore hOdd hConfined

end Path

end PacketStack

------------------------------------------------------------
-- The Condition
------------------------------------------------------------

/-
  Whatever memory holds behind the buffer, receiving a packet
  neither depends on it nor changes it, if and only if the
  length that the packet announces ends in the buffer, or
  nothing is added up to that end.
-/
theorem ingressInside_iff
    {stack : PacketStack}
    (lookups : Lookups)
    (mem : Memory)
    (hAligned : stack.ByteAligned)
    (hGenerates : stack.Generates) :
    Confined stack.buffer (stack.receive lookups) mem ↔
      stack.EndsInside mem := by
  constructor
  · intro hConfined
    exact PacketStack.endsInside_of_confined lookups hAligned
      hGenerates hConfined
  · intro hInside
    exact PacketStack.receive_confined lookups hAligned
      hGenerates hInside

theorem simpleStack_byteAligned :
    simpleStack.ByteAligned := by
  have hOk : (simpleStack.runSendPath PacketStack.simpleValues
      [1, 2, 3] (fun _ => 0)).isOk = true := by rfl
  cases hSend : simpleStack.runSendPath
      PacketStack.simpleValues [1, 2, 3] (fun _ => 0) with
  | error fault =>
      rw [hSend] at hOk
      cases hOk
  | ok sent => exact PacketStack.byteAligned_of_sent hSend

/- A host without connections. -/
def noConnections : Lookups where
  myLocalHostId := 1
  retrieveConnection := fun _ _ _ => none
  inOrder := fun _ _ => false

/- A packet of zeros stays inside, one of ones does not. -/
theorem ingressInside_iff_simple :
    Confined simpleStack.buffer
        (simpleStack.receive noConnections) (fun _ => 0) ∧
      ¬ Confined simpleStack.buffer
        (simpleStack.receive noConnections) (fun _ => 1) := by
  have hGenerates : simpleStack.Generates :=
    fun hIP => by cases hIP
  constructor
  · refine (ingressInside_iff noConnections (fun _ => 0)
      simpleStack_byteAligned hGenerates).mpr ?_
    intro _ _
    exact ⟨0, by rfl, by decide, by decide⟩
  · intro hConfined
    rcases (ingressInside_iff noConnections (fun _ => 1)
      simpleStack_byteAligned hGenerates).mp hConfined rfl rfl
      with ⟨len, hLen, hFits⟩
    have hRead : simpleStack.netPacket.getInteger
        (.header .totalLen) (fun _ => 1) =
          .ok 0x01010101 := by rfl
    cases hRead.symm.trans hLen
    exact absurd hFits.1 (by decide)

end NetBlocks
