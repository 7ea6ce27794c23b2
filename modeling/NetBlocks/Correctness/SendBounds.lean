import NetBlocks.Runtime.IpcTransport
import NetBlocks.Stack.Extents

/-
  Building a packet stays inside of the buffer it is built in
  exactly when headers, payload, and padding fit into it.

  Main declarations:
    * `PacketStack.SendsInside`
    * `PacketStack.FitsSendBuffer`
    * `sendsInside_iff`
-/

namespace NetBlocks

open ByteMemory Except

namespace PacketStack

variable {stack : PacketStack}

------------------------------------------------------------
-- Stores Inside of the Buffer
------------------------------------------------------------

/- The value of `ret_len`, an `int` -/
def retLen
    (len : Nat) : Int :=
  (BitVec.ofNat 32 len).toInt

/- The bytes of the payload that are in the send buffer. -/
def placedLen
    (stack : PacketStack)
    (size len : Nat) : Nat :=
  ((List.range len).filter
    (fun i => stack.totalSize - 1 + i < size)).length

/-
  Every byte that is stored to is one of the buffer's, and
  the value returned is the number of payload bytes in it.
-/
structure SendsInside
    (stack : PacketStack)
    (values : SendValues)
    (size len : Nat) : Prop where
  inside : ∀ w ∈ stack.sendExtents values len, w.Inside size
  returned : retLen len = stack.placedLen size len

/-
  The payload ends in the buffer, and before its last byte if
  it is padded.
-/
def FitsSendBuffer
    (stack : PacketStack)
    (size len : Nat) : Prop :=
  stack.totalSize - 1 + len ≤ size ∧
    (stack.options.checksumEnabled = true →
      stack.options.checksumType = .fullPacket →
        (stack.headerLen + len) % 2 = 1 →
          stack.totalSize - 1 + len < size)

instance (stack : PacketStack) (size len : Nat) :
    Decidable (stack.FitsSendBuffer size len) := by
  unfold FitsSendBuffer
  infer_instance

/- The padding is right behind the payload. -/
theorem pad_inside_iff
    {len : Nat}
    (hFits : stack.totalSize - 1 + len ≤ 1024) :
    (∀ w ∈ stack.padExtents (stack.sentEnd len),
        w.Inside 1024) ↔
      (stack.options.checksumType = .fullPacket →
        (stack.headerLen + len) % 2 = 1 →
          stack.totalSize - 1 + len < 1024) := by
  have hSize := stack.headroom_add
  unfold padExtents
  cases hType : stack.options.checksumType with
  | headerOnly =>
      have hEnd : stack.sentEnd len = stack.totalSize - 1 := by
        simp [sentEnd, hType]
      rw [hEnd]
      constructor
      · intro _ hNot
        cases hNot
      · intro _ w hMem
        split at hMem
        · rw [List.mem_singleton.mp hMem]
          simp only [Extent.Inside]
          omega
        · cases hMem
  | fullPacket =>
      have hEnd : stack.sentEnd len =
          stack.headroom + stack.headerLen + len := by
        have hFull := stack.fullEnd_eq (by omega : len < 2 ^ 31)
        dsimp only at hFull
        simp only [sentEnd, hType]
        rw [hFull, if_pos (by omega)]
        push_cast
        rfl
      rw [hEnd]
      constructor
      · intro hInside _ hOdd
        rw [if_pos (by omega)] at hInside
        have hLast := (hInside _
          (List.mem_singleton_self _)).2
        simp only at hLast
        omega
      · intro hLt w hMem
        split at hMem
        · rw [List.mem_singleton.mp hMem]
          have hBelow := hLt rfl (by omega)
          simp only [Extent.Inside]
          omega
        · cases hMem

/-
  Every store of the send path is to a member, the payload,
  or the padding.
-/
theorem sendExtents_inside_iff
    {values : SendValues}
    {len : Nat} :
    (∀ w ∈ stack.sendExtents values len, w.Inside 1024) ↔
      stack.FitsSendBuffer 1024 len := by
  constructor
  · intro hInside
    have hPayload : stack.totalSize - 1 + len ≤ 1024 := by
      have hMem : (⟨(stack.totalSize - 1 : Nat), len⟩ : Extent) ∈
          stack.sendExtents values len :=
        List.mem_flatMap.mpr ⟨.payload, List.mem_cons_self ..,
          List.mem_append_right _ (List.mem_singleton_self _)⟩
      have hEnd := (hInside _ hMem).2
      simp only at hEnd
      omega
    refine ⟨hPayload, fun hEnabled =>
      (pad_inside_iff hPayload).mp ?_⟩
    intro w hMem
    apply hInside
    refine List.mem_flatMap.mpr ⟨.checksum, ?_, ?_⟩
    · simp [registeredModules, hEnabled]
    · exact List.mem_append_left _
        (List.mem_append_right _ hMem)
  · rintro ⟨hPayload, hPad⟩ w hMem
    rcases List.mem_flatMap.mp hMem with ⟨m, hModule, hW⟩
    cases m with
    | payload =>
        rcases List.mem_append.mp hW with hW | hW
        · exact calls_inside hW
        · rw [List.mem_singleton.mp hW]
          simp only [Extent.Inside]
          omega
    | signaling => cases hW
    | inorder => exact calls_inside hW
    | reliable => exact calls_inside hW
    | identifier => exact calls_inside hW
    | signalingAfter => cases hW
    | routing =>
        rcases List.mem_append.mp hW with hW | hW
        · exact calls_inside hW
        · split at hW
          · rcases List.mem_append.mp hW with hW | hW
            · exact calls_inside hW
            · exact member_inside hW
          · cases hW
    | checksum =>
        have hEnabled : stack.options.checksumEnabled =
            true := by
          by_contra hNot
          rw [registeredModules] at hModule
          simp [hNot] at hModule
        rcases List.mem_append.mp hW with hW | hW
        · rcases List.mem_append.mp hW with hW | hW
          · exact member_inside hW
          · exact (pad_inside_iff hPayload).mpr
              (hPad hEnabled) w hW
        · exact member_inside hW
    | network => cases hW

/- A payload that ends in the buffer is there as a whole. -/
theorem placedLen_of_fits
    {size len : Nat}
    (hFits : stack.totalSize - 1 + len ≤ size) :
    stack.placedLen size len = len := by
  have hAll : (List.range len).filter
      (fun i => stack.totalSize - 1 + i < size) =
        List.range len := by
    rw [List.filter_eq_self]
    intro i hi
    rw [List.mem_range] at hi
    exact decide_eq_true (by omega)
  rw [placedLen, hAll, List.length_range]

theorem retLen_eq
    {len : Nat}
    (hLen : len < 2 ^ 31) :
    retLen len = len := by
  rw [retLen, BitVec.toInt_eq_toNat_cond, BitVec.toNat_ofNat]
  split <;> omega

end PacketStack

------------------------------------------------------------
-- The Send Buffer
------------------------------------------------------------

/-
  The send path stores to no byte outside of its extents, and
  these are inside of the buffer that the IPC transport hands
  out, with the length returned being the length placed, if
  and only if the packet fits.
-/
theorem sendsInside_iff
    (stack : PacketStack)
    (values : PacketStack.SendValues)
    {len : Nat}
    (hLen : len < 2 ^ 31) :
    (∀ buff mem mem', buff.length = len →
      stack.runSendPath values buff mem = .ok mem' →
        ChangesOnly (stack.sendExtents values len) mem mem') ∧
      (stack.SendsInside values ipcMtu len ↔
        stack.FitsSendBuffer ipcMtu len) := by
  refine ⟨?_, ?_⟩
  · rintro buff mem mem' rfl hSend
    exact PacketStack.runSendPath_changesOnly hLen hSend
  · constructor
    · intro hInside
      exact PacketStack.sendExtents_inside_iff.mp
        hInside.inside
    · intro hFits
      refine ⟨PacketStack.sendExtents_inside_iff.mpr hFits, ?_⟩
      rw [PacketStack.retLen_eq hLen,
        PacketStack.placedLen_of_fits hFits.1]

/- A payload of 963 bytes ends behind the buffer. -/
theorem not_forall_sendsInside :
    ¬ ∀ (stack : PacketStack) values len, len < 2 ^ 31 →
      stack.SendsInside values ipcMtu len := by
  intro hAll
  have hInside := hAll simpleStack PacketStack.simpleValues 963
    (by decide)
  have hFits := PacketStack.sendExtents_inside_iff.mp
    hInside.inside
  exact absurd hFits.1 (by decide)

theorem sendsInside_iff_simple :
    (∀ buff mem mem', buff.length = 962 →
      simpleStack.runSendPath PacketStack.simpleValues buff
        mem = .ok mem' →
          ChangesOnly (simpleStack.sendExtents
            PacketStack.simpleValues 962) mem mem') ∧
      (simpleStack.SendsInside PacketStack.simpleValues ipcMtu
          962 ↔
        simpleStack.FitsSendBuffer ipcMtu 962) :=
  sendsInside_iff simpleStack PacketStack.simpleValues
    (by decide)

end NetBlocks
