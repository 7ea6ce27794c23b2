import NetBlocks.Stack.Extents

/-
  The checksum of a stack whose checksum member is at a byte
  boundary, in terms of the bytes of the packet: two bytes are
  cleared, one may be padded, and words are added up.

  Main declarations:
    * `PacketStack.cleared` and `PacketStack.wordSum`
    * `PacketStack.computeChecksum_eq`
    * `PacketStack.checksumIngress_eq`
-/

namespace NetBlocks

open ByteMemory Except

namespace PacketStack

section Checksum

variable
    {stack : PacketStack}
    (hEnabled : stack.options.checksumEnabled = true)

------------------------------------------------------------
-- The Checksum Member
------------------------------------------------------------

include hEnabled

theorem checksum_mem :
    .header .checksum ∈ stack.options.wireMembers := by
  simp [StackOptions.wireMembers, StackOptions.protocolGroup,
    hEnabled]

/- The member is behind the headroom, before the payload. -/
theorem checksum_between
    {o : Nat}
    (hPlace : stack.netPacket.offset (.header .checksum) =
      .ok o) :
    8 * stack.headroom ≤ o ∧
      o + 16 ≤ 8 * (stack.totalSize - 1) := by
  rcases StackOptions.wire_place stack.totalSize_eq
    (checksum_mem hEnabled) with ⟨o', hOffset, hFrom, hTo⟩
  cases hPlace.symm.trans hOffset
  exact ⟨hFrom, hTo⟩

/- At a byte boundary, it is two bytes of the packet. -/
theorem checksum_access
    {c : Nat}
    (hPlace : stack.netPacket.offset (.header .checksum) =
      .ok (8 * c))
    (mem : Memory) :
    (∀ v : BitVec 16,
      stack.netPacket.setInteger (.header .checksum)
        (v.setWidth 64) mem = .ok (storeShort mem c v)) ∧
      stack.netPacket.getInteger (.header .checksum) mem =
        .ok ((loadShort mem c).setWidth 64) := by
  exact short_access hPlace (StackOptions.mem_order_of_wire
    (checksum_mem hEnabled)) rfl rfl rfl mem

end Checksum

------------------------------------------------------------
-- Clearing and Padding
------------------------------------------------------------

/- The bytes of a packet that are sent. -/
def OnWire
    (stack : PacketStack)
    (len a : Nat) : Prop :=
  stack.headroom ≤ a ∧
    a < stack.headroom + stack.headerLen + len

/- Where the bytes that are added up end. -/
def endOf
    (stack : PacketStack)
    (len : Nat) : Nat :=
  match stack.options.checksumType with
  | .fullPacket => stack.headroom + stack.headerLen + len
  | .headerOnly => stack.headroom + stack.headerLen

/- Whether a byte is padded. -/
def Pads
    (stack : PacketStack)
    (len : Nat) : Prop :=
  (stack.endOf len - stack.headroom) % 2 = 1

instance (stack : PacketStack) (len : Nat) :
    Decidable (stack.Pads len) := by
  unfold Pads
  infer_instance

/- The packet whose words are added up. -/
def cleared
    (stack : PacketStack)
    (c len : Nat)
    (mem : Memory) : Memory :=
  let mem := storeShort mem c 0
  if stack.Pads len then
    Function.update mem (stack.endOf len) 0
  else
    mem

/- The sum of its words. -/
def wordSum
    (stack : PacketStack)
    (c len : Nat)
    (mem : Memory) : BitVec 16 :=
  PacketBuffer.sumWords (stack.cleared c len mem)
    stack.headroom
    ((stack.endOf len - stack.headroom + 1) / 2)

theorem le_endOf
    (stack : PacketStack)
    (len : Nat) :
    stack.headroom + stack.headerLen ≤ stack.endOf len := by
  unfold endOf
  split
  · exact Nat.le_add_right _ _
  · exact Nat.le_refl _

theorem sentEnd_eq
    {stack : PacketStack}
    {len : Nat}
    (hFits : stack.totalSize - 1 + len < 2 ^ 31) :
    stack.sentEnd len = stack.endOf len := by
  have hSize := stack.headroom_add
  unfold sentEnd endOf
  cases stack.options.checksumType with
  | headerOnly =>
      simp only
      omega
  | fullPacket =>
      have hFull := stack.fullEnd_eq (by omega : len < 2 ^ 31)
      dsimp only at hFull ⊢
      rw [hFull, if_pos (by omega)]

theorem storeShort_of_outside
    (mem : Memory)
    {addr a : Nat}
    (value : BitVec 16)
    (hOutside : a < addr ∨ addr + 2 ≤ a) :
    storeShort mem addr value a = mem a :=
  store_of_outside mem _ hOutside

/- The word that was loaded, stored again. -/
theorem storeShort_loadShort
    {mem mem' : Memory}
    {addr a : Nat}
    (hFrom : addr ≤ a)
    (hTo : a < addr + 2) :
    storeShort mem' addr (loadShort mem addr) a = mem a := by
  have hLoad : (loadShort mem addr).toNat = load mem addr 2 := by
    rw [loadShort, BitVec.toNat_ofNat]
    exact Nat.mod_eq_of_lt (load_lt mem addr 2)
  rw [storeShort, hLoad]
  apply byte_eq_of_bit_eq
  intro i hi
  have hIn : 8 * addr ≤ 8 * a + i ∧
      8 * a + i < 8 * (addr + 2) := by omega
  have hIndex : 8 * addr + (8 * a + i - 8 * addr) =
      8 * a + i := by omega
  have hBit : 8 * a + i - 8 * addr < 8 * 2 := by omega
  rw [bit_store, if_pos hIn, testBit_load, hIndex]
  simp [hBit]

/- What was stored is loaded. -/
theorem loadShort_storeShort
    (mem : Memory)
    (addr : Nat)
    (value : BitVec 16) :
    loadShort (storeShort mem addr value) addr = value := by
  apply BitVec.eq_of_getLsbD_eq
  intro i hi
  have hIn : 8 * addr ≤ 8 * addr + i ∧
      8 * addr + i < 8 * (addr + 2) := by omega
  have hIndex : 8 * addr + i - 8 * addr = i := by omega
  rw [loadShort, BitVec.getLsbD_ofNat, testBit_load, storeShort,
    bit_store, if_pos hIn, hIndex, BitVec.getLsbD]
  simp [hi]

theorem cleared_of_ne
    {stack : PacketStack}
    {c len a : Nat}
    {mem : Memory}
    (hOutside : a < c ∨ c + 2 ≤ a)
    (hNe : a ≠ stack.endOf len) :
    stack.cleared c len mem a = mem a := by
  unfold cleared
  split
  · rw [Function.update_of_ne hNe,
      storeShort_of_outside _ _ hOutside]
  · exact storeShort_of_outside _ _ hOutside

section Compute

variable
    {stack : PacketStack}
    {c len : Nat}
    {mem : Memory}
    (hEnabled : stack.options.checksumEnabled = true)
    (hPlace : stack.netPacket.offset (.header .checksum) =
      .ok (8 * c))
    (hFits : stack.totalSize - 1 + len < 2 ^ 31)
    (hLen : stack.options.checksumType = .fullPacket →
      stack.LenIs len mem)

include hEnabled hPlace hFits hLen

/- `compute_checksum`, for a packet that has its length. -/
theorem computeChecksum_eq :
    stack.computeChecksum mem =
      .ok (stack.cleared c len mem,
        stack.wordSum c len mem) := by
  have hSet := (checksum_access hEnabled hPlace mem).1 0
  have hChanges := setInteger_changesOnly hSet
  have hEnd : stack.checksumEnd (storeShort mem c 0) =
      .ok (stack.endOf len) := by
    rw [← sentEnd_eq hFits]
    apply checksumEnd_eq
    intro hFull
    exact (hLen hFull).of_changesOnly hChanges
      (sparesLen_member (by decide))
  have hLe := stack.le_endOf len
  have hZero : stack.netPacket.setInteger (.header .checksum) 0
      mem = .ok (storeShort mem c 0) := hSet
  unfold computeChecksum wordSum cleared
  simp only [hZero, ok_bind, hEnd]
  by_cases hPads : stack.Pads len
  · have hOdd : ((stack.endOf len : Int) - stack.headroom) %
        2 ≠ 0 := by
      unfold Pads at hPads
      omega
    have hWords : (((stack.endOf len : Int) + 1 -
        stack.headroom) / 2).toNat =
          (stack.endOf len - stack.headroom + 1) / 2 := by
      omega
    rw [if_pos hOdd, hWords]
    simp [pad, hPads]
  · have hEven : ((stack.endOf len : Int) - stack.headroom) %
        2 = 0 := by
      unfold Pads at hPads
      omega
    have hWords : (((stack.endOf len : Int) -
        stack.headroom) / 2).toNat =
          (stack.endOf len - stack.headroom + 1) / 2 := by
      unfold Pads at hPads
      omega
    rw [if_neg (not_not.mpr hEven), hWords]
    simp [hPads]

/- `hook_send` puts the sum into the packet. -/
theorem checksumSend_eq :
    stack.checksumSend mem =
      .ok (storeShort (stack.cleared c len mem) c
        (stack.wordSum c len mem)) := by
  have hSet := (checksum_access hEnabled hPlace
    (stack.cleared c len mem)).1 (stack.wordSum c len mem)
  unfold checksumSend
  rw [computeChecksum_eq hEnabled hPlace hFits hLen, ok_bind]
  exact hSet

/- `hook_ingress` compares, and puts the old value back. -/
theorem checksumIngress_eq :
    stack.checksumIngress mem =
      .ok (if stack.wordSum c len mem = loadShort mem c then
          .hookContinue
        else
          .hookDrop,
        storeShort (stack.cleared c len mem) c
          (loadShort mem c)) := by
  have hGet := (checksum_access hEnabled hPlace mem).2
  have hSet := (checksum_access hEnabled hPlace
    (stack.cleared c len mem)).1 (loadShort mem c)
  have hSaved : ((loadShort mem c).setWidth 64).setWidth 16 =
      loadShort mem c := by simp
  unfold checksumIngress
  simp only [hGet, ok_bind, hSaved,
    computeChecksum_eq hEnabled hPlace hFits hLen, hSet]
  split <;> rfl

end Compute

end PacketStack

end NetBlocks
