import NetBlocks.Correctness.IngressBounds

/-
  The payload that the ingress path hands to the data queue of
  a connection: behind the headers, as long as the packet
  announces, and with the bytes that arrived.

  Main declarations:
    * `PacketStack.Unspoiled`
    * `PacketStack.receive_known`
    * `insertedPayload_of_receive`
-/

namespace NetBlocks

open ByteMemory Except Footprint

namespace PacketStack

variable {stack : PacketStack}

------------------------------------------------------------
-- Unspoiled Packets
------------------------------------------------------------

/- The length that is announced covers the headers. -/
def AnnouncesLen
    (stack : PacketStack)
    (len : BitVec 64)
    (arrived : Memory) : Prop :=
  stack.netPacket.getInteger (.header .totalLen) arrived =
      .ok len ∧
    (stack.headerLen : Int) ≤ (len.setWidth 32).toInt

/-
  A packet whose headers on the wire and whose payload, up to
  where a byte may be padded, are still as they arrived.
-/
structure Unspoiled
    (stack : PacketStack)
    (len : BitVec 64)
    (arrived mem : Memory) : Prop where
  headers : ∀ a, stack.headroom ≤ a →
    a < stack.totalSize - 1 → mem a = arrived a
  payload : stack.options.checksumType = .fullPacket →
    ∀ a, stack.totalSize - 1 ≤ a →
      (a : Int) ≠ stack.endOfLen len → mem a = arrived a

namespace Unspoiled

variable
    {len : BitVec 64}
    {arrived mem mem' : Memory}

theorem refl
    (len : BitVec 64)
    (arrived : Memory) :
    stack.Unspoiled len arrived arrived :=
  ⟨fun _ _ _ => rfl, fun _ _ _ _ => rfl⟩

/- What is changed before the headers does not spoil it. -/
theorem of_local
    (hUnspoiled : stack.Unspoiled len arrived mem)
    (hLocal : ∀ a, stack.headroom ≤ a → mem' a = mem a) :
    stack.Unspoiled len arrived mem' := by
  have hSize := stack.headroom_add
  refine ⟨fun a hFrom hTo => ?_, fun hFull a hFrom hNe => ?_⟩
  · rw [hLocal a hFrom]
    exact hUnspoiled.headers a hFrom hTo
  · rw [hLocal a (by omega)]
    exact hUnspoiled.payload hFull a hFrom hNe

/- The length is still read. -/
theorem totalLen
    (hUnspoiled : stack.Unspoiled len arrived mem)
    (hIP : stack.isIPCompat = false) :
    stack.netPacket.getInteger (.header .totalLen) mem =
      stack.netPacket.getInteger (.header .totalLen)
        arrived := by
  have hMem := totalLen_mem hIP
  apply getInteger_of_bits (StackOptions.mem_order_of_wire hMem)
  intro k hBit
  have hIn := wire_bits hMem hBit
  rw [bit, bit, hUnspoiled.headers _ hIn.1 hIn.2]

end Unspoiled

/- Both `computed_total_len` and the bytes are as announced. -/
structure Known
    (stack : PacketStack)
    (len : BitVec 64)
    (arrived mem : Memory) : Prop where
  unspoiled : stack.Unspoiled len arrived mem
  computed : stack.HoldsValue (.header .computedTotalLen)
    (len.setWidth 32) mem

/- What is changed between the first word and the headers. -/
theorem Known.of_between
    {len : BitVec 64}
    {arrived mem mem' : Memory}
    (hKnown : stack.Known len arrived mem)
    (hBetween : ∀ a, a < 4 ∨ stack.headroom ≤ a →
      mem' a = mem a) :
    stack.Known len arrived mem' :=
  ⟨hKnown.unspoiled.of_local
      (fun a hFrom => hBetween a (Or.inr hFrom)),
    hKnown.computed.congr (getInteger_computed
      (fun a hLt => hBetween a (Or.inl hLt)))⟩

------------------------------------------------------------
-- Hooks
------------------------------------------------------------

section Hooks

variable
    (lookups : Lookups)
    {len : BitVec 64}
    {arrived mem mem' : Memory}
    {r : Received}

/- The length that is queued is that of the payload. -/
def Inserts
    (stack : PacketStack)
    (len : BitVec 64)
    (reports : List Report) : Prop :=
  ∀ c n, .inserted c n ∈ reports →
    n = (len.setWidth 32).toInt - stack.headerLen ∧ n ≠ 0

theorem restoreTotalLen_known
    (hIP : stack.isIPCompat = false)
    (hAnnounces : stack.AnnouncesLen len arrived)
    (hUnspoiled : stack.Unspoiled len arrived mem)
    (hRestore : stack.restoreTotalLen mem = .ok mem') :
    stack.Known len arrived mem' := by
  have hRoom := stack.pollSize_bounds
  have hRead := (hUnspoiled.totalLen hIP).trans hAnnounces.1
  rw [restoreTotalLen, hRead, ok_bind,
    (stack.computedTotalLen_access mem).1] at hRestore
  cases hRestore
  refine ⟨hUnspoiled.of_local (fun a hFrom => ?_), ?_⟩
  · apply store_of_outside
    right
    change 0 + 4 ≤ a
    omega
  · exact ⟨_, (stack.computedTotalLen_access _).2,
      IntegerMember.readType_writeType .int mem 0 len⟩

/- The `int` that is computed does not wrap around. -/
theorem payloadLen_of_known
    (hAnnounces : stack.AnnouncesLen len arrived)
    (hKnown : stack.Known len arrived mem) :
    stack.payloadLen mem =
      .ok ((len.setWidth 32).toInt - stack.headerLen) := by
  have hSize := stack.headroom_add
  have hLe := hAnnounces.2
  rw [payloadLen_eq hKnown.computed]
  congr 1
  generalize (len.setWidth 32 : BitVec 32) = v at hLe ⊢
  rw [BitVec.toInt_eq_toNat_cond] at hLe ⊢
  rw [BitVec.toInt_eq_toNat_cond, BitVec.toNat_sub,
    BitVec.toNat_ofNat]
  split at hLe <;> split <;> omega

theorem insertPayload_known
    {c : ConnPtr}
    (hAnnounces : stack.AnnouncesLen len arrived)
    (hKnown : stack.Known len arrived mem)
    (hInsert : stack.insertPayload c mem = .ok (r, mem')) :
    stack.Known len arrived mem' ∧
      stack.Inserts len r.2 := by
  rw [insertPayload, payloadLen_of_known hAnnounces hKnown,
    ok_bind] at hInsert
  cases hInsert
  refine ⟨hKnown, ?_⟩
  intro c' n hMem
  dsimp only at hMem
  split at hMem
  · next hNe =>
      cases List.mem_singleton.mp hMem
      exact ⟨rfl, hNe⟩
  · cases hMem

theorem inserts_nil :
    stack.Inserts len [] :=
  fun _ _ hMem => by cases hMem

/- Nothing is queued by another report. -/
theorem Known.reports
    {report : Report}
    (hKnown : stack.Known len arrived mem)
    (hOther : ∀ c n, report ≠ .inserted c n) :
    stack.Known len arrived mem ∧
      stack.Inserts len [report] := by
  refine ⟨hKnown, ?_⟩
  intro c n hMem
  exact absurd (List.mem_singleton.mp hMem).symm (hOther c n)

/- Hooks that report nothing write what their source does. -/
theorem proceeds_ok
    {result : Except Fault Memory}
    (hProceeds : proceeds result = .ok (r, mem')) :
    result = .ok mem' ∧ r = (.hookContinue, []) := by
  rcases bind_eq_ok_iff.mp hProceeds with ⟨mem, hResult, hEnd⟩
  cases hEnd
  exact ⟨hResult, rfl⟩

/- A checked packet differs at most in a padded byte. -/
theorem checkedMemory_of_ne
    {eo : Int}
    {c a : Nat}
    (hPad : eo < 0 → eo % 2 = 0)
    (hNe : (a : Int) ≠ eo) :
    stack.checkedMemory eo c mem a = mem a := by
  have hRoom := stack.pollSize_bounds
  unfold checkedMemory
  by_cases hOwn : c ≤ a ∧ a < c + 2
  · exact storeShort_loadShort hOwn.1 hOwn.2
  · have hOutside : a < c ∨ c + 2 ≤ a := by omega
    have hPadded : stack.padded eo (storeShort mem c 0) a =
        storeShort mem c 0 a := by
      by_cases hBefore : eo < 0
      · have hEven := hPad hBefore
        rw [padded, if_neg (by omega)]
      · exact padded_of_ne _ (by omega)
    rw [storeShort_of_outside _ _ hOutside, hPadded,
      storeShort_of_outside _ _ hOutside]

/- The end that is computed, unless it wraps around. -/
theorem endOfLen_or_neg
    (hCovers : (stack.headerLen : Int) ≤
      (len.setWidth 32).toInt) :
    stack.endOfLen len =
        stack.headroom + (len.setWidth 32).toInt ∨
      stack.endOfLen len < 0 := by
  have hSize := stack.headroom_add
  unfold endOfLen
  generalize (len.setWidth 32 : BitVec 32) = v at *
  rw [BitVec.toInt_eq_toNat_cond] at hCovers ⊢
  rw [BitVec.toInt_eq_toNat_cond, BitVec.toNat_add,
    BitVec.toNat_ofNat]
  split at hCovers <;> split <;> omega

/- The end that is computed is behind the headers. -/
theorem checksumEnd_known
    (hAnnounces : stack.AnnouncesLen len arrived)
    (hKnown : stack.Known len arrived mem) :
    ∃ eo, stack.checksumEnd mem = .ok eo ∧
      (0 ≤ eo → (stack.totalSize : Int) - 1 ≤ eo) ∧
      (stack.options.checksumType = .fullPacket →
        eo = stack.endOfLen len) := by
  have hSize := stack.headroom_add
  unfold checksumEnd
  cases hType : stack.options.checksumType with
  | headerOnly =>
      refine ⟨_, rfl, fun _ => Int.le_refl _, ?_⟩
      intro hFull
      cases hFull
  | fullPacket =>
      rcases hKnown.computed with ⟨x, hX, hValue⟩
      refine ⟨stack.endOfLen len, ?_, ?_, fun _ => rfl⟩
      · simp only [hX, ok_bind, hValue]
        rfl
      · intro hNonneg
        have hLe := hAnnounces.2
        rcases endOfLen_or_neg hLe with hEnd | hBefore
        · omega
        · omega

theorem checksumReceive_known
    (hAligned : stack.ByteAligned)
    (hEnabled : stack.options.checksumEnabled = true)
    (hAnnounces : stack.AnnouncesLen len arrived)
    (hKnown : stack.Known len arrived mem)
    (hHook : stack.checksumReceive mem = .ok (r, mem')) :
    stack.Known len arrived mem' ∧
      stack.Inserts len r.2 := by
  have hSize := stack.headroom_add
  have hRoom := stack.pollSize_bounds
  rcases checksum_place hAligned hEnabled with ⟨c, hPlace⟩
  rcases checksumEnd_known hAnnounces hKnown with
    ⟨eo, hEnd, hBehind, hFullEnd⟩
  have hPad : eo < 0 → eo % 2 = 0 := by
    intro hBefore
    by_contra hOdd
    rw [checksumReceive_before hEnabled hPlace hEnd hBefore
      hOdd] at hHook
    cases hHook
  rw [checksumReceive_eq hEnabled hPlace hEnd hPad] at hHook
  cases hHook
  refine Known.reports ⟨⟨?_, ?_⟩, ?_⟩
    (fun _ _ hEq => by cases hEq)
  · intro a hFrom hTo
    rw [checkedMemory_of_ne hPad (by omega)]
    exact hKnown.unspoiled.headers a hFrom hTo
  · intro hFull a hFrom hNe
    rw [checkedMemory_of_ne hPad (hFullEnd hFull ▸ hNe)]
    exact hKnown.unspoiled.payload hFull a hFrom hNe
  · refine hKnown.computed.congr (getInteger_computed ?_)
    intro a hLt
    exact checkedMemory_of_ne hPad (by omega)

/- `flow_identifier` is the last member before the headers. -/
theorem setFlow_between
    {c : BitVec 64}
    (hSet : stack.netPacket.setInteger
      (.header .flowIdentifier) c mem = .ok mem') :
    ∀ a, a < 4 ∨ stack.headroom ≤ a → mem' a = mem a := by
  have hRoom := stack.pollSize_bounds
  have hLocal : .header .flowIdentifier ∈
      stack.options.localGroup := by
    simp [StackOptions.localGroup]
  have hPlace : stack.netPacket.offset
      (.header .flowIdentifier) =
        .ok (8 * stack.headroom - 64) :=
    (stack.options.local_places stack.ranged).1 _ hLocal
  rcases access stack.flowIdentifier_mem with
    ⟨o, hOffset, hAccess, -⟩
  cases hOffset.symm.trans hPlace
  have hAlignedAt : (8 * stack.headroom - 64) % 8 = 0 := by
    omega
  rw [hAccess, IntegerMember.setInteger_full hAlignedAt rfl
    rfl] at hSet
  cases hSet
  intro a hOutside
  apply store_of_outside
  change a < (8 * stack.headroom - 64) / 8 ∨
    (8 * stack.headroom - 64) / 8 + 8 ≤ a
  omega

theorem identifierReceive_known
    (hKnown : stack.Known len arrived mem)
    (hHook : stack.identifierReceive lookups mem =
      .ok (r, mem')) :
    stack.Known len arrived mem' ∧
      stack.Inserts len r.2 := by
  rcases bind_eq_ok_iff.mp hHook with ⟨dstHost, -, hRest⟩
  split at hRest
  · cases hRest
    exact hKnown.reports (fun _ _ hEq => by cases hEq)
  · rcases bind_eq_ok_iff.mp hRest with ⟨dstApp, -, hRest⟩
    rcases bind_eq_ok_iff.mp hRest with ⟨srcApp, -, hRest⟩
    rcases bind_eq_ok_iff.mp hRest with ⟨srcHost, -, hRest⟩
    split at hRest
    · rcases bind_eq_ok_iff.mp hRest with ⟨mem₁, hSet, hEnd⟩
      cases hEnd
      have hFlow := hKnown.of_between (setFlow_between hSet)
      exact hFlow.reports (fun _ _ hEq => by cases hEq)
    · cases hRest
      exact hKnown.reports (fun _ _ hEq => by cases hEq)

theorem reliableReceive_known
    (hKnown : stack.Known len arrived mem)
    (hHook : stack.reliableReceive mem = .ok (r, mem')) :
    stack.Known len arrived mem' ∧
      stack.Inserts len r.2 := by
  rcases bind_eq_ok_iff.mp hHook with ⟨ackSeq, -, hRest⟩
  rcases bind_eq_ok_iff.mp hRest with ⟨c, -, hRest⟩
  split at hRest
  · cases hRest
    exact hKnown.reports (fun _ _ hEq => by cases hEq)
  · rcases bind_eq_ok_iff.mp hRest with ⟨seq, -, hEnd⟩
    cases hEnd
    exact hKnown.reports (fun _ _ hEq => by cases hEq)

theorem inorderReceive_known
    (hIP : stack.isIPCompat = false)
    (hAnnounces : stack.AnnouncesLen len arrived)
    (hKnown : stack.Known len arrived mem)
    (hHook : stack.inorderReceive lookups mem =
      .ok (r, mem')) :
    stack.Known len arrived mem' ∧
      stack.Inserts len r.2 := by
  rcases bind_eq_ok_iff.mp hHook with ⟨c, -, hRest⟩
  split at hRest
  · rcases bind_eq_ok_iff.mp hRest with ⟨seq, -, hRest⟩
    split at hRest
    · exact insertPayload_known hAnnounces hKnown hRest
    · cases hRest
      exact hKnown.reports (fun _ _ hEq => by cases hEq)
  · rcases bind_eq_ok_iff.mp hRest with ⟨seq, -, hRest⟩
    split at hRest
    · rcases bind_eq_ok_iff.mp hRest with
        ⟨mem₁, hRestore, hInsert⟩
      exact insertPayload_known hAnnounces
        (restoreTotalLen_known hIP hAnnounces hKnown.unspoiled
          hRestore) hInsert
    · cases hRest
      exact hKnown.reports (fun _ _ hEq => by cases hEq)
  · exact insertPayload_known hAnnounces hKnown hRest

/- No hook spoils a packet, or queues another length. -/
theorem hookReceive_known
    {m : Module}
    (hAligned : stack.ByteAligned)
    (hIP : stack.isIPCompat = false)
    (hAnnounces : stack.AnnouncesLen len arrived)
    (hRegistered :
      m ∈ registeredModules stack.options.toConfig)
    (hKnown : stack.Known len arrived mem)
    (hHook : stack.hookReceive lookups m mem =
      .ok (r, mem')) :
    stack.Known len arrived mem' ∧
      stack.Inserts len r.2 := by
  cases m with
  | payload =>
      rcases proceeds_ok hHook with ⟨hSet, rfl⟩
      rw [payloadIngress, if_neg (by simp [hIP])] at hSet
      exact ⟨restoreTotalLen_known hIP hAnnounces
        hKnown.unspoiled hSet, inserts_nil⟩
  | signaling =>
      rcases bind_eq_ok_iff.mp hHook with ⟨c, -, hEnd⟩
      cases hEnd
      exact hKnown.reports (fun _ _ hEq => by cases hEq)
  | inorder =>
      exact inorderReceive_known lookups hIP hAnnounces hKnown
        hHook
  | reliable => exact reliableReceive_known hKnown hHook
  | identifier =>
      exact identifierReceive_known lookups hKnown hHook
  | signalingAfter =>
      cases hHook
      exact ⟨hKnown, inserts_nil⟩
  | routing =>
      rcases proceeds_ok hHook with ⟨hSet, rfl⟩
      rw [routingIngress, if_neg (by simp [hIP])] at hSet
      cases hSet
      exact ⟨hKnown, inserts_nil⟩
  | checksum =>
      refine checksumReceive_known hAligned ?_ hAnnounces
        hKnown hHook
      by_contra hNot
      simp [registeredModules, hNot] at hRegistered
  | network =>
      rcases proceeds_ok hHook with ⟨hSet, rfl⟩
      rw [networkIngress, if_neg (by simp [hIP])] at hSet
      exact ⟨restoreTotalLen_known hIP hAnnounces
        hKnown.unspoiled hSet, inserts_nil⟩

/- The hooks one by one, up to the first that drops. -/
theorem receiveHooks_known
    {modules : List Module}
    {reports : List Report}
    (hAligned : stack.ByteAligned)
    (hIP : stack.isIPCompat = false)
    (hAnnounces : stack.AnnouncesLen len arrived)
    (hRegistered : ∀ m ∈ modules,
      m ∈ registeredModules stack.options.toConfig)
    (hKnown : stack.Known len arrived mem)
    (hRun : stack.receiveHooks lookups modules mem =
      .ok (reports, mem')) :
    stack.Known len arrived mem' ∧
      stack.Inserts len reports := by
  induction modules generalizing mem reports with
  | nil =>
      cases hRun
      exact ⟨hKnown, inserts_nil⟩
  | cons m modules ih =>
      rcases bind_eq_ok_iff.mp hRun with
        ⟨⟨⟨status, first⟩, mem₁⟩, hHook, hRest⟩
      rcases hookReceive_known lookups hAligned hIP hAnnounces
        (hRegistered m (List.mem_cons_self ..)) hKnown
          hHook with ⟨hKnown₁, hFirst⟩
      cases status with
      | hookDrop =>
          cases hRest
          exact ⟨hKnown₁, hFirst⟩
      | hookContinue =>
          rcases bind_eq_ok_iff.mp hRest with
            ⟨⟨more, out⟩, hMore, hEnd⟩
          cases hEnd
          rcases ih (fun other hMem => hRegistered other
            (List.mem_cons_of_mem _ hMem)) hKnown₁ hMore with
            ⟨hKnown₂, hSecond⟩
          refine ⟨hKnown₂, ?_⟩
          intro c n hMem
          rcases List.mem_append.mp hMem with hMem | hMem
          · exact hFirst c n hMem
          · exact hSecond c n hMem

/- The whole path, from the bytes that arrived. -/
theorem receive_known
    {reports : List Report}
    (hAligned : stack.ByteAligned)
    (hIP : stack.isIPCompat = false)
    (hAnnounces : stack.AnnouncesLen len arrived)
    (hReceive : stack.receive lookups arrived =
      .ok (reports, mem')) :
    stack.Known len arrived mem' ∧
      stack.Inserts len reports := by
  rw [receive_eq] at hReceive
  rcases bind_eq_ok_iff.mp hReceive with
    ⟨⟨r, mem⟩, hNetwork, hRest⟩
  rcases proceeds_ok hNetwork with ⟨hSet, rfl⟩
  rw [networkIngress, if_neg (by simp [hIP])] at hSet
  -- from here on, `computed_total_len` is set
  have hKnown := restoreTotalLen_known hIP hAnnounces
    (Unspoiled.refl len arrived) hSet
  rcases bind_eq_ok_iff.mp hRest with
    ⟨⟨more, final⟩, hMore, hEnd⟩
  cases hEnd
  refine receiveHooks_known lookups hAligned hIP hAnnounces ?_
    hKnown hMore
  intro m hMem
  rw [← List.mem_reverse, registered_reverse]
  exact List.mem_cons_of_mem _ hMem

end Hooks

end PacketStack

------------------------------------------------------------
-- The Payload
------------------------------------------------------------

/-
  What is queued for a packet that announces some length: the
  bytes behind its headers up to that length. With a checksum
  of the full packet, they are those that arrived.
-/
structure PayloadQueued
    (stack : PacketStack)
    (len : BitVec 64)
    (n : Int)
    (arrived out : Memory) : Prop where
  positive : 0 < n
  ends : (stack.totalSize : Int) - 1 + n =
    stack.headroom + (len.setWidth 32).toInt
  bytes : stack.options.checksumType = .fullPacket →
    ∀ a, stack.totalSize - 1 ≤ a →
      (a : Int) < stack.totalSize - 1 + n →
        out a = arrived a

/-
  Without an IP header, whatever the connections are and for
  any content of a packet that announces at least its headers,
  a payload that is queued is the one announced.
-/
theorem insertedPayload_of_receive
    {stack : PacketStack}
    {lookups : Lookups}
    {arrived out : Memory}
    {len : BitVec 64}
    {reports : List Report}
    {c : ConnPtr}
    {n : Int}
    (hAligned : stack.ByteAligned)
    (hIP : stack.isIPCompat = false)
    (hAnnounces : stack.AnnouncesLen len arrived)
    (hReceive : stack.receive lookups arrived =
      .ok (reports, out))
    (hInserted : .inserted c n ∈ reports) :
    PayloadQueued stack len n arrived out := by
  have hSize := stack.headroom_add
  have hAll := PacketStack.receive_known lookups hAligned hIP
    hAnnounces hReceive
  rcases hAll.2 c n hInserted with ⟨hLength, hNe⟩
  have hLe := hAnnounces.2
  have hEnds : (stack.totalSize : Int) - 1 + n =
      stack.headroom + (len.setWidth 32).toInt := by omega
  refine ⟨by omega, hEnds, ?_⟩
  intro hFull a hFrom hTo
  apply hAll.1.unspoiled.payload hFull a hFrom
  -- a padded byte is behind the payload
  rcases PacketStack.endOfLen_or_neg hLe with hEnd | hBefore
  · omega
  · omega

/- A host with one connection, which takes every number. -/
def oneConnection : Lookups where
  myLocalHostId := 3
  retrieveConnection := fun _ _ _ => some 7
  inOrder := fun _ _ => true

/- The three bytes that are sent are queued. -/
theorem insertedPayload_of_receive_simple :
    ∃ len arrived out,
      simpleStack.runSendPath PacketStack.simpleValues
        [1, 2, 3] (fun _ => 0) = .ok arrived ∧
      PayloadQueued simpleStack len 3 arrived out := by
  have hRun : (do
      let arrived ← simpleStack.runSendPath
        PacketStack.simpleValues [1, 2, 3] (fun _ => 0)
      let len ← simpleStack.netPacket.getInteger
        (.header .totalLen) arrived
      let r ← simpleStack.receive oneConnection arrived
      return (len, r.1)) =
        .ok (41, [.checked true, .found 7, .answered 7 1,
          .inserted 7 3, .signaled 7]) := by
    rfl
  rcases bind_eq_ok_iff.mp hRun with ⟨arrived, hSend, hRest⟩
  rcases bind_eq_ok_iff.mp hRest with ⟨len, hLen, hRest⟩
  rcases bind_eq_ok_iff.mp hRest with
    ⟨⟨reports, out⟩, hReceive, hEnd⟩
  cases hEnd
  refine ⟨41, arrived, out, hSend, ?_⟩
  exact insertedPayload_of_receive (c := 7)
    simpleStack_byteAligned rfl ⟨hLen, by decide⟩ hReceive
      (by simp)

end NetBlocks
