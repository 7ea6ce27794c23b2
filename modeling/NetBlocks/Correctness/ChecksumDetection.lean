import NetBlocks.Stack.Wire

/-
  The checksum over the whole packet: a packet that arrives
  as it was sent passes, and one with a wrong byte does not.

  Main declarations:
    * `PacketBuffer.sumWords_ne`
    * `PacketStack.WrongByte`
    * `PacketStack.receiveStatus_eq`
    * `checksum_detects`
-/

namespace NetBlocks

open ByteMemory Except

------------------------------------------------------------
-- Sums of Words
------------------------------------------------------------

namespace PacketBuffer

/- What a byte adds to the sum, at an even or odd place. -/
def byteWeight
    (start a : Nat)
    (byte : Byte) : BitVec 16 :=
  BitVec.ofNat 16
    (if (a - start) % 2 = 0 then
      byte.toNat
    else
      256 * byte.toNat)

theorem byteWeight_injective
    {start a : Nat}
    {byte byte' : Byte}
    (hSame : byteWeight start a byte' =
      byteWeight start a byte) :
    byte' = byte := by
  have hByte := byte.isLt
  have hByte' := byte'.isLt
  have hNat := congrArg BitVec.toNat hSame
  simp only [byteWeight, BitVec.toNat_ofNat] at hNat
  apply BitVec.eq_of_toNat_eq
  split at hNat <;> omega

/- A word is the sum of what its bytes add. -/
theorem word_exchange
    {mem mem' : Memory}
    {start a n : Nat}
    (hFrom : start + 2 * n ≤ a)
    (hTo : a < start + 2 * (n + 1))
    (hOthers : ∀ b, start + 2 * n ≤ b →
      b < start + 2 * (n + 1) → b ≠ a → mem' b = mem b) :
    BitVec.ofNat 16 (load mem' (start + 2 * n) 2) +
        byteWeight start a (mem a) =
      BitVec.ofNat 16 (load mem (start + 2 * n) 2) +
        byteWeight start a (mem' a) := by
  have hLoad : ∀ m : Memory, load m (start + 2 * n) 2 =
      (m (start + 2 * n)).toNat +
        256 * (m (start + 2 * n + 1)).toNat := by
    intro m
    simp [load]
  rw [hLoad, hLoad, byteWeight, byteWeight, ← BitVec.ofNat_add,
    ← BitVec.ofNat_add]
  rcases (by omega : a = start + 2 * n ∨
      a = start + 2 * n + 1) with rfl | rfl
  · have hHigh := hOthers (start + 2 * n + 1) (by omega)
      (by omega) (by omega)
    rw [if_pos (by omega), if_pos (by omega), hHigh]
    congr 1
    omega
  · have hLow := hOthers (start + 2 * n) (by omega)
      (by omega) (by omega)
    rw [if_neg (by omega), if_neg (by omega), hLow]
    congr 1
    omega

/- Exchanging a byte exchanges what it adds. -/
theorem sumWords_exchange
    {mem mem' : Memory}
    {start a n : Nat}
    (hFrom : start ≤ a)
    (hTo : a < start + 2 * n)
    (hOthers : ∀ b, start ≤ b → b < start + 2 * n → b ≠ a →
      mem' b = mem b) :
    sumWords mem' start n + byteWeight start a (mem a) =
      sumWords mem start n + byteWeight start a (mem' a) := by
  induction n with
  | zero => omega
  | succ n ih =>
      rw [sumWords, sumWords]
      by_cases hLast : start + 2 * n ≤ a
      · -- the byte is in the last word
        have hRest : sumWords mem' start n =
            sumWords mem start n :=
          sumWords_congr (fun b hFrom hLt =>
            hOthers b hFrom (by omega) (by omega))
        have hWord := word_exchange hLast (by omega)
          (fun b hFrom hLt => hOthers b (by omega) hLt)
        rw [hRest, BitVec.add_assoc, BitVec.add_assoc, hWord]
      · have hRest := ih (by omega) (fun b hFrom hLt =>
          hOthers b hFrom (by omega))
        have hWord : load mem' (start + 2 * n) 2 =
            load mem (start + 2 * n) 2 :=
          load_congr (fun b hFrom hLt =>
            hOthers b (by omega) (by omega) (by omega))
        have hSwap : ∀ x y z : BitVec 16,
            x + y + z = x + z + y := by
          intro x y z
          rw [BitVec.add_assoc, BitVec.add_comm y,
            BitVec.add_assoc]
        rw [hWord, hSwap, hRest, hSwap]

/- A wrong byte makes a wrong sum. -/
theorem sumWords_ne
    {mem mem' : Memory}
    {start a n : Nat}
    (hFrom : start ≤ a)
    (hTo : a < start + 2 * n)
    (hOthers : ∀ b, start ≤ b → b < start + 2 * n → b ≠ a →
      mem' b = mem b)
    (hNe : mem' a ≠ mem a) :
    sumWords mem' start n ≠ sumWords mem start n := by
  intro hSame
  have hExchange := sumWords_exchange hFrom hTo hOthers
  rw [hSame] at hExchange
  have hWeight := (BitVec.add_right_inj _).mp hExchange
  exact hNe (byteWeight_injective hWeight).symm

end PacketBuffer

namespace PacketStack

variable {stack : PacketStack}

------------------------------------------------------------
-- Wrong Bytes of a Packet
------------------------------------------------------------

/- One wrong byte outside of the checksum changes the sum. -/
theorem wordSum_ne
    {c len a : Nat}
    {mem mem' : Memory}
    (hFrom : stack.headroom ≤ a)
    (hTo : a < stack.endOf len)
    (hOutside : a < c ∨ c + 2 ≤ a)
    (hOthers : ∀ b, stack.headroom ≤ b →
      b < stack.endOf len → b ≠ a → mem' b = mem b)
    (hNe : mem' a ≠ mem a) :
    stack.wordSum c len mem' ≠ stack.wordSum c len mem := by
  have hLe := stack.le_endOf len
  apply PacketBuffer.sumWords_ne hFrom (by omega)
  · intro b hFrom hTo hNot
    rcases words_end hTo with hBefore | ⟨rfl, hPads⟩
    · exact cleared_congr
        (fun _ _ => hOthers b hFrom hBefore hNot)
        (fun hEnd => absurd hEnd (by omega))
    · exact cleared_congr (fun _ hNe => absurd rfl hNe)
        (fun _ => hPads)
  · rw [cleared_of_ne hOutside (by omega),
      cleared_of_ne hOutside (by omega)]
    exact hNe

/- A buffer with exactly one other byte on the wire. -/
structure WrongByte
    (stack : PacketStack)
    (len : Nat)
    (mem copy : Memory)
    (a : Nat) : Prop where
  onWire : stack.OnWire len a
  ne : copy a ≠ mem a
  others : ∀ b, stack.OnWire len b → b ≠ a → copy b = mem b

/- The byte holds no bit of `total_len`. -/
def OutsideTotalLen
    (stack : PacketStack)
    (a : Nat) : Prop :=
  ∀ k, stack.HasBit (.header .totalLen) k → k / 8 ≠ a

/- What the checksum's hook says to a packet that arrives. -/
def receiveStatus
    (stack : PacketStack)
    (mem : Memory) : Except Fault HookStatus := do
  let mem ← stack.networkIngress mem
  let r ← stack.checksumIngress mem
  return r.1

/- Other stored checksums are loaded as others. -/
theorem loadShort_ne
    {a c : Nat}
    {mem copy : Memory}
    (hFrom : c ≤ a)
    (hTo : a < c + 2)
    (hOthers : ∀ b, c ≤ b → b < c + 2 → b ≠ a →
      copy b = mem b)
    (hNe : copy a ≠ mem a) :
    loadShort copy c ≠ loadShort mem c := by
  have hSums := PacketBuffer.sumWords_ne (n := 1) hFrom hTo
    hOthers hNe
  intro hSame
  apply hSums
  unfold loadShort at hSame
  rw [PacketBuffer.sumWords, PacketBuffer.sumWords,
    Nat.mul_zero, Nat.add_zero, hSame]
  rfl

/- The checksum is compared with the sum of the copy. -/
theorem receiveStatus_eq
    {c len : Nat}
    {copy : Memory}
    (hEnabled : stack.options.checksumEnabled = true)
    (hPlace : stack.netPacket.offset (.header .checksum) =
      .ok (8 * c))
    (hIP : stack.isIPCompat = false)
    (hFits : stack.totalSize - 1 + len < 2 ^ 31)
    (hTotal : stack.TotalIs len copy) :
    stack.receiveStatus copy =
      .ok (if stack.wordSum c len copy = loadShort copy c then
          .hookContinue
        else
          .hookDrop) := by
  rcases networkIngress_len hIP hTotal with
    ⟨mem₁, hNetwork, hLen, hRest⟩
  have hHeadroom := stack.le_headroom
  have hBetween := checksum_between hEnabled hPlace
  have hSum : stack.wordSum c len mem₁ =
      stack.wordSum c len copy :=
    wordSum_congr (fun a hFrom _ _ => hRest a (by omega))
  have hLoad : loadShort mem₁ c = loadShort copy c := by
    unfold loadShort
    rw [load_congr (fun a hFrom _ => hRest a (by omega))]
  rw [receiveStatus, hNetwork, ok_bind,
    checksumIngress_eq hEnabled hPlace hFits (fun _ => hLen),
    ok_bind, hSum, hLoad]
  rfl

/- A wrong byte outside of the length leaves the length. -/
theorem WrongByte.totalIs
    {len a : Nat}
    {mem copy : Memory}
    (hWrong : stack.WrongByte len mem copy a)
    (hOutside : stack.OutsideTotalLen a)
    (hIP : stack.isIPCompat = false)
    (hTotal : stack.TotalIs len mem) :
    stack.TotalIs len copy := by
  have hMem := totalLen_mem hIP
  refine HoldsValue.congr (getInteger_of_bits
    (StackOptions.mem_order_of_wire hMem) ?_) hTotal
  intro k hBit
  rw [bit, bit, hWrong.others _ (onWire_of_bit hMem hBit len)
    (hOutside k hBit)]

end PacketStack

------------------------------------------------------------
-- Intact and Wrong Copies
------------------------------------------------------------

/-
  Without compatible headers, a checksum over all of a packet
  accepts each copy of what is sent, and drops each one with
  a wrong byte outside of the length. Its layout is aligned
  to bytes, or it would not have been sent.
-/
theorem checksum_detects
    {stack : PacketStack}
    {values : PacketStack.SendValues}
    {buff : List Byte}
    {mem sent : Memory}
    (hCompat : stack.options.compatLevel = .noCompat)
    (hEnabled : stack.options.checksumEnabled = true)
    (hFull : stack.options.checksumType = .fullPacket)
    (hValues : stack.ValuesFit values)
    (hFits : stack.LengthFits buff.length)
    (hSend : stack.runSendPath values buff mem = .ok sent) :
    (∀ copy, stack.SameWire buff.length sent copy →
      stack.receiveStatus copy = .ok .hookContinue) ∧
    ∀ copy a, stack.WrongByte buff.length sent copy a →
      stack.OutsideTotalLen a →
        stack.receiveStatus copy = .ok .hookDrop := by
  have hIP : stack.isIPCompat = false := by
    simp [PacketStack.isIPCompat, hCompat,
      CompatLevel.isIPCompat]
  have hSent := PacketStack.sentPacket_of_run hValues hFits
    hSend
  rcases hSent.checked hEnabled with ⟨c, hPlace, hSentSum⟩
  have hTotalLen := hSent.header.total hIP
  have hBetween := PacketStack.checksum_between hEnabled hPlace
  have hSize := stack.headroom_add
  have hWire : ∀ a, stack.headroom ≤ a →
      a < stack.endOf buff.length →
        stack.OnWire buff.length a := by
    intro a hFrom hTo
    simp only [PacketStack.OnWire, PacketStack.endOf,
      hFull] at hTo ⊢
    exact ⟨hFrom, hTo⟩
  have hOwn : ∀ a, c ≤ a → a < c + 2 →
      stack.OnWire buff.length a := by
    intro a hFrom hTo
    unfold PacketStack.OnWire
    omega
  constructor
  · intro copy hSame
    have hTotal := (hSame.sentHeader hSent.header).total hIP
    have hSum : stack.wordSum c buff.length copy =
        stack.wordSum c buff.length sent :=
      PacketStack.wordSum_congr (fun a hFrom hTo _ =>
        hSame a (hWire a hFrom hTo))
    have hLoad : loadShort copy c = loadShort sent c := by
      unfold loadShort
      rw [load_congr (fun a hFrom hTo =>
        hSame a (hOwn a hFrom hTo))]
    rw [PacketStack.receiveStatus_eq hEnabled hPlace hIP
      hFits.isInt hTotal, hSum, hLoad, if_pos hSentSum]
  · intro copy a hWrong hOutside
    have hTotal := hWrong.totalIs hOutside hIP hTotalLen
    rw [PacketStack.receiveStatus_eq hEnabled hPlace hIP
      hFits.isInt hTotal, if_neg]
    by_cases hIn : c ≤ a ∧ a < c + 2
    · -- the byte is in the checksum, the sum is as it was
      have hSum : stack.wordSum c buff.length copy =
          stack.wordSum c buff.length sent :=
        PacketStack.wordSum_congr (fun b hFrom hTo hNot =>
          hWrong.others b (hWire b hFrom hTo) (by omega))
      rw [hSum, hSentSum]
      exact (PacketStack.loadShort_ne hIn.1 hIn.2
        (fun b hFrom hTo hNe =>
          hWrong.others b (hOwn b hFrom hTo) hNe)
        hWrong.ne).symm
    · -- the checksum is as it was, the sum is not
      have hLoad : loadShort copy c = loadShort sent c := by
        unfold loadShort
        rw [load_congr (fun b hFrom hTo =>
          hWrong.others b (hOwn b hFrom hTo) (by omega))]
      have hEnd : a < stack.endOf buff.length := by
        have hTo := hWrong.onWire.2
        simp only [PacketStack.endOf, hFull]
        exact hTo
      rw [hLoad, ← hSentSum]
      exact PacketStack.wordSum_ne hWrong.onWire.1 hEnd
        (by omega)
        (fun b hFrom hTo hNe =>
          hWrong.others b (hWire b hFrom hTo) hNe) hWrong.ne

/- Three bytes fit into a packet of the plain stack. -/
theorem simpleStack_lengthFits :
    simpleStack.LengthFits ([1, 2, 3] : List Byte).length where
  isInt := by decide
  inRange := fun _ => PacketStack.inRange_int (by decide)

theorem checksum_detects_simple :
    ∃ sent,
      simpleStack.runSendPath PacketStack.simpleValues
        [1, 2, 3] (fun _ => 0) = .ok sent ∧
      (∀ copy, simpleStack.SameWire 3 sent copy →
        simpleStack.receiveStatus copy =
          .ok .hookContinue) ∧
      ∀ copy a, simpleStack.WrongByte 3 sent copy a →
        simpleStack.OutsideTotalLen a →
          simpleStack.receiveStatus copy = .ok .hookDrop := by
  have hOk : (simpleStack.runSendPath PacketStack.simpleValues
      [1, 2, 3] (fun _ => 0)).isOk = true := by rfl
  cases hSend : simpleStack.runSendPath
      PacketStack.simpleValues [1, 2, 3] (fun _ => 0) with
  | error fault =>
      rw [hSend] at hOk
      cases hOk
  | ok sent =>
      exact ⟨sent, rfl, checksum_detects rfl rfl rfl
        (PacketStack.valuesFit_plain rfl)
        simpleStack_lengthFits hSend⟩

end NetBlocks
