import NetBlocks.Stack.Access

/-
  Which bytes the hooks of a stack store to: whole words of a
  member's type, even where the member is smaller, and the
  byte that pads a packet.

  Main declarations:
    * `Extent` and `ChangesOnly`
    * `IntegerMember.writtenBytes`
    * `PacketStack.sendExtents`
    * `PacketStack.runSendPath_changesOnly`
-/

namespace NetBlocks

open ByteMemory Except

------------------------------------------------------------
-- Extents
------------------------------------------------------------

/- `count` bytes from `start` on, relative to the packet. -/
structure Extent where
  start : Int
  count : Nat
deriving DecidableEq, Repr

namespace Extent

/- The bytes of an extent. -/
def Has
    (w : Extent)
    (a : Nat) : Prop :=
  w.start ≤ a ∧ (a : Int) < w.start + w.count

/- All bytes of an extent are in a buffer of some size. -/
def Inside
    (w : Extent)
    (size : Nat) : Prop :=
  0 ≤ w.start ∧ w.start + w.count ≤ size

instance (w : Extent) (size : Nat) :
    Decidable (w.Inside size) := by
  unfold Inside
  infer_instance

end Extent

/- No byte outside of the extents changes. -/
def ChangesOnly
    (extents : List Extent)
    (mem mem' : Memory) : Prop :=
  ∀ a, (∀ w ∈ extents, ¬ w.Has a) → mem' a = mem a

theorem ChangesOnly.refl
    (mem : Memory) :
    ChangesOnly [] mem mem :=
  fun _ _ => rfl

theorem ChangesOnly.trans
    {ws ws' : List Extent}
    {mem mem₁ mem₂ : Memory}
    (hFirst : ChangesOnly ws mem mem₁)
    (hSecond : ChangesOnly ws' mem₁ mem₂) :
    ChangesOnly (ws ++ ws') mem mem₂ := by
  intro a hOutside
  rw [hSecond a (fun w hMem =>
      hOutside w (List.mem_append_right _ hMem)),
    hFirst a (fun w hMem =>
      hOutside w (List.mem_append_left _ hMem))]

theorem ChangesOnly.mono
    {ws ws' : List Extent}
    {mem mem' : Memory}
    (hChanges : ChangesOnly ws mem mem')
    (hSubset : ws ⊆ ws') :
    ChangesOnly ws' mem mem' :=
  fun a hOutside => hChanges a (fun w hMem =>
    hOutside w (hSubset hMem))

/- Stored bytes are an extent. -/
theorem changesOnly_store
    (mem : Memory)
    (addr n v : Nat) :
    ChangesOnly [⟨addr, n⟩] mem (store mem addr n v) := by
  intro a hOutside
  have hNot := hOutside _ (List.mem_singleton_self _)
  apply store_of_outside
  simp only [Extent.Has] at hNot
  omega

theorem changesOnly_update
    (mem : Memory)
    (addr : Nat)
    (byte : Byte) :
    ChangesOnly [⟨addr, 1⟩] mem
      (Function.update mem addr byte) := by
  intro a hOutside
  have hNot := hOutside _ (List.mem_singleton_self _)
  apply Function.update_of_ne
  rintro rfl
  apply hNot
  simp [Extent.Has]

theorem changesOnly_writeBytes
    (mem : Memory)
    (addr : Nat)
    (bytes : List Byte) :
    ChangesOnly [⟨addr, bytes.length⟩] mem
      (PacketStack.writeBytes mem addr bytes) := by
  intro a hOutside
  have hNot := hOutside _ (List.mem_singleton_self _)
  simp only [Extent.Has] at hNot
  unfold PacketStack.writeBytes
  split
  · rfl
  · rw [List.getElem?_eq_none (by omega)]
    rfl

------------------------------------------------------------
-- Members
------------------------------------------------------------

namespace IntegerMember

/-
  The bytes `set_integer` stores to: the byte a member starts
  in, if it does not start with it, and a whole `T` for what
  is left of the member.
-/
def writtenBytes
    (m : IntegerMember)
    (offset : Nat) : List Extent :=
  if offset % 8 ≠ 0 then
    let lb := m.lowerBits offset
    ⟨(offset / 8 : Nat), 1⟩ ::
      if m.bitSize - lb ≠ 0 then
        [⟨((offset + lb) / 8 : Nat), m.type.bytes⟩]
      else
        []
  else
    [⟨(offset / 8 : Nat), m.type.bytes⟩]

theorem setBitsUpper_changesOnly
    {ty : IntType}
    {mem mem' : Memory}
    {bitStart bitEnd : Nat}
    {val : BitVec 64}
    (hSet : setBitsUpper ty mem bitStart bitEnd val =
      .ok mem') :
    ChangesOnly [⟨(bitStart / 8 : Nat), ty.bytes⟩] mem
      mem' := by
  unfold setBitsUpper at hSet
  split at hSet
  · cases hSet
  · dsimp only at hSet
    split at hSet
    · cases hSet
      exact changesOnly_store _ _ _ _
    · rcases bind_eq_ok_iff.mp hSet with ⟨mask, -, hStore⟩
      cases hStore
      exact changesOnly_store _ _ _ _

theorem setBitsLower_changesOnly
    {mem mem' : Memory}
    {bitStart bitEnd : Nat}
    {val : BitVec 8}
    (hSet : setBitsLower mem bitStart bitEnd val =
      .ok mem') :
    ChangesOnly [⟨(bitStart / 8 : Nat), 1⟩] mem mem' := by
  unfold setBitsLower at hSet
  split at hSet
  · cases hSet
  · rcases bind_eq_ok_iff.mp hSet with ⟨mask, -, hStore⟩
    cases hStore
    exact changesOnly_update _ _ _

/- `set_integer` changes no byte outside of its extents. -/
theorem setInteger_changesOnly
    {m : IntegerMember}
    {offset : Nat}
    {mem mem' : Memory}
    {v : BitVec 64}
    (hSet : m.setInteger offset mem v = .ok mem') :
    ChangesOnly (m.writtenBytes offset) mem mem' := by
  rw [setInteger_eq] at hSet
  unfold writtenBytes
  by_cases hAligned : offset % 8 = 0
  · rw [if_neg (not_not.mpr hAligned)]
    rw [setBits, if_neg (not_not.mpr hAligned)] at hSet
    exact setBitsUpper_changesOnly hSet
  · rw [if_pos hAligned]
    rcases setBits_unaligned hAligned hSet with
      ⟨-, mask, mem₁, -, hLower, hUpper⟩
    have hFirst := setBitsLower_changesOnly hLower
    rcases hUpper with ⟨-, rfl⟩ | ⟨-, hMore, hUpper⟩
    · exact hFirst.mono (List.cons_subset_cons _
        (List.nil_subset _))
    · have hPos : m.bitSize - m.lowerBits offset ≠ 0 := by
        omega
      dsimp only
      rw [if_pos hPos]
      exact hFirst.trans (setBitsUpper_changesOnly hUpper)

end IntegerMember

------------------------------------------------------------
-- Hooks
------------------------------------------------------------

namespace PacketStack

section Extents

variable (stack : PacketStack)

/- The bytes stored to when a member is set. -/
def memberExtents
    (name : StackMember) : List Extent :=
  match stack.netPacket.offset name with
  | .ok o => (stack.ranged.get name).writtenBytes o
  | .error _ => []

/- The bytes stored to when members are set. -/
def callExtents
    (calls : List (StackMember × BitVec 64)) : List Extent :=
  calls.flatMap (fun call => stack.memberExtents call.1)

/- The end of what is added up, for a payload of some length. -/
def sentEnd
    (len : Nat) : Int :=
  match stack.options.checksumType with
  | .fullPacket =>
      (stack.packetLen len + BitVec.ofNat 32 stack.headroom).toInt
  | .headerOnly => stack.totalSize - 1

/- The byte that pads a packet. -/
def padExtents
    (eo : Int) : List Extent :=
  if (eo - stack.headroom) % 2 ≠ 0 then [⟨eo, 1⟩] else []

/- The bytes that `hook_send` of each module stores to. -/
def hookExtents
    (values : SendValues)
    (len : Nat) : Module → List Extent
| .payload =>
    stack.callExtents (stack.lengthSend 0) ++
    [⟨(stack.totalSize - 1 : Nat), len⟩]
| .signaling => []
| .inorder => stack.callExtents (stack.inorderSend values)
| .reliable => stack.callExtents (reliableSend values)
| .identifier =>
    stack.callExtents (stack.identifierSend values)
| .signalingAfter => []
| .routing =>
    stack.callExtents (globalIds values) ++
      if stack.isIPCompat then
        stack.callExtents (ipHeader len) ++
          stack.memberExtents (.compat .ipHeaderChecksum)
      else
        []
| .checksum =>
    stack.memberExtents (.header .checksum) ++
      stack.padExtents (stack.sentEnd len) ++
      stack.memberExtents (.header .checksum)
| .network => []

/- The bytes that the send path stores to. -/
def sendExtents
    (values : SendValues)
    (len : Nat) : List Extent :=
  (registeredModules stack.options.toConfig).flatMap
    (stack.hookExtents values len)

end Extents

------------------------------------------------------------
-- Setting Members
------------------------------------------------------------

section Frame

variable {stack : PacketStack}

/- Only members of the layout have a place. -/
theorem mem_order_of_offset
    {name : StackMember}
    {o : Nat}
    (hOffset : stack.netPacket.offset name = .ok o) :
    name ∈ stack.netPacket.order := by
  rw [stack.wellFormed.mapped]
  intro hNone
  unfold DynamicLayout.offset at hOffset
  cases hFuel : stack.netPacket.order.length with
  | zero =>
      rw [hFuel] at hOffset
      cases hOffset
  | succ fuel =>
      rw [hFuel, DynamicLayout.getOffset,
        DynamicLayout.member, hNone] at hOffset
      cases hOffset

theorem setInteger_changesOnly
    {name : StackMember}
    {v : BitVec 64}
    {mem mem' : Memory}
    (hSet : stack.netPacket.setInteger name v mem =
      .ok mem') :
    ChangesOnly (stack.memberExtents name) mem mem' := by
  have hMem := mem_order_of_setInteger hSet
  rcases access hMem with ⟨o, hOffset, hAccess, -⟩
  rw [hAccess] at hSet
  rw [memberExtents, hOffset]
  exact IntegerMember.setInteger_changesOnly hSet

theorem setIntegers_changesOnly
    {calls : List (StackMember × BitVec 64)}
    {mem mem' : Memory}
    (hSet : stack.netPacket.setIntegers calls mem =
      .ok mem') :
    ChangesOnly (stack.callExtents calls) mem mem' := by
  induction calls generalizing mem with
  | nil =>
      cases hSet
      exact ChangesOnly.refl _
  | cons call calls ih =>
      rw [DynamicLayout.setIntegers, List.foldlM_cons] at hSet
      rcases bind_eq_ok_iff.mp hSet with ⟨mem₁, hFirst, hRest⟩
      exact (setInteger_changesOnly hFirst).trans (ih hRest)

/- The extents of a list of sets are about its members. -/
theorem callExtents_congr
    {calls calls' : List (StackMember × BitVec 64)}
    (hNames : calls'.map Prod.fst = calls.map Prod.fst) :
    stack.callExtents calls' = stack.callExtents calls := by
  have hEq : ∀ calls : List (StackMember × BitVec 64),
      stack.callExtents calls =
        (calls.map Prod.fst).flatMap stack.memberExtents := by
    intro calls
    simp [callExtents, List.flatMap_map]
  rw [hEq, hEq, hNames]

/- The other members are behind the first one. -/
theorem offset_ge
    {name : StackMember}
    {o : Nat}
    (hNe : name ≠ .header .computedTotalLen)
    (hOffset : stack.netPacket.offset name = .ok o) :
    32 ≤ o := by
  have hMem := mem_order_of_offset hOffset
  have hOrder : stack.netPacket.order =
      .header .computedTotalLen ::
        stack.netPacket.order.tail := by
    have hEq := stack.options.order_eq stack.ranged
    have hSame : stack.netPacket.order = _ := hEq
    rw [hSame]
    rfl
  rw [hOrder] at hMem
  rcases List.mem_cons.mp hMem with hEq | hTail
  · exact absurd hEq hNe
  · rcases List.append_of_mem hTail with ⟨bs, cs, hSplit⟩
    have hFirst : stack.netPacket.order =
        [] ++ .header .computedTotalLen ::
          (bs ++ name :: cs) := by
      rw [← hSplit, List.nil_append, ← hOrder]
    rcases stack.wellFormed.precedes hFirst with
      ⟨p, p', hP, hP', hLe⟩
    cases hP.symm.trans stack.computedTotalLen_place
    cases hP'.symm.trans hOffset
    have hSize : stack.netPacket.sizeOf
        (.header .computedTotalLen) = 32 :=
      StackOptions.sizeOf_eq stack.computedTotalLen_mem
    omega

/- What a member stores to starts where the member does. -/
theorem memberExtents_from
    {name : StackMember}
    {w : Extent}
    (hMem : w ∈ stack.memberExtents name) :
    ∃ o, stack.netPacket.offset name = .ok o ∧
      ((o / 8 : Nat) : Int) ≤ w.start ∧
      w.start + w.count ≤
        ((o + (stack.ranged.get name).bitSize) / 8 + 8 :
          Nat) := by
  unfold memberExtents at hMem
  cases hOffset : stack.netPacket.offset name with
  | error fault =>
      rw [hOffset] at hMem
      cases hMem
  | ok o =>
      rw [hOffset] at hMem
      refine ⟨o, rfl, ?_⟩
      have hBytes : (stack.ranged.get name).type.bytes ≤ 8 := by
        have hBits := (stack.ranged.get name).type.bits_le
        unfold IntType.bits at hBits
        omega
      have hLower : (stack.ranged.get name).lowerBits o =
        min (8 - o % 8) (stack.ranged.get name).bitSize := rfl
      simp only [IntegerMember.writtenBytes] at hMem
      split at hMem
      · rcases List.mem_cons.mp hMem with rfl | hMem
        · dsimp only
          omega
        · split at hMem
          · rw [List.mem_singleton.mp hMem]
            dsimp only
            omega
          · cases hMem
      · rw [List.mem_singleton.mp hMem]
        dsimp only
        omega

------------------------------------------------------------
-- The Send Path
------------------------------------------------------------

/- `computed_total_len` says how long the packet is. -/
def LenIs
    (stack : PacketStack)
    (len : Nat)
    (mem : Memory) : Prop :=
  ∃ x, stack.netPacket.getInteger
      (.header .computedTotalLen) mem = .ok x ∧
    x.setWidth 32 = stack.packetLen len

/- No byte of the first word is in the extents. -/
def SparesLen
    (extents : List Extent) : Prop :=
  ∀ w ∈ extents, ∀ a : Nat, a < 4 → ¬ w.Has a

theorem SparesLen.append
    {ws ws' : List Extent}
    (hFirst : SparesLen ws)
    (hSecond : SparesLen ws') :
    SparesLen (ws ++ ws') := by
  intro w hMem
  rcases List.mem_append.mp hMem with hMem | hMem
  · exact hFirst w hMem
  · exact hSecond w hMem

theorem LenIs.of_changesOnly
    {len : Nat}
    {mem mem' : Memory}
    {extents : List Extent}
    (hLen : stack.LenIs len mem)
    (hChanges : ChangesOnly extents mem mem')
    (hSpares : SparesLen extents) :
    stack.LenIs len mem' := by
  refine HoldsValue.congr (getInteger_computed ?_) hLen
  intro a hLt
  exact hChanges a (fun w hMem => hSpares w hMem a hLt)

theorem sparesLen_member
    {name : StackMember}
    (hNe : name ≠ .header .computedTotalLen) :
    SparesLen (stack.memberExtents name) := by
  intro w hMem a hLt hHas
  rcases memberExtents_from hMem with ⟨o, hOffset, hFrom, -⟩
  have hGe := offset_ge hNe hOffset
  have hStart := hHas.1
  omega

theorem sparesLen_calls
    {calls : List (StackMember × BitVec 64)}
    (hNe : .header .computedTotalLen ∉ calls.map Prod.fst) :
    SparesLen (stack.callExtents calls) := by
  intro w hMem
  rcases List.mem_flatMap.mp hMem with ⟨call, hCall, hW⟩
  apply sparesLen_member _ w hW
  intro hEq
  exact hNe (List.mem_map.mpr ⟨call, hCall, hEq⟩)

/- The headers are behind the headroom. -/
theorem headroom_add
    (stack : PacketStack) :
    stack.headroom + stack.headerLen + 1 = stack.totalSize ∧
      stack.totalSize ≤ 205 := by
  have hLt : stack.headroom < stack.totalSize :=
    StackOptions.headroom_lt stack.totalSize_eq
  have hLe := StackOptions.size_le stack.totalSize_eq
  unfold headerLen
  omega

/- Members are stored to near the start of the packet. -/
theorem member_inside
    {name : StackMember}
    {w : Extent}
    (hMem : w ∈ stack.memberExtents name) :
    w.Inside 1024 := by
  rcases memberExtents_from hMem with
    ⟨o, hOffset, hFrom, hTo⟩
  have hIn := mem_order_of_offset hOffset
  have hSome : stack.netPacket.order ≠ [] :=
    List.ne_nil_of_mem hIn
  rcases stack.wellFormed.total hSome with
    ⟨n, hTotal, hLeast⟩
  cases hTotal.symm.trans stack.totalSize_eq
  have hCovers := hLeast.1 name hIn o hOffset
  have hSize : stack.netPacket.sizeOf name =
      (stack.ranged.get name).bitSize :=
    StackOptions.sizeOf_eq hIn
  have hLe := stack.headroom_add.2
  refine ⟨?_, ?_⟩ <;> omega

theorem calls_inside
    {calls : List (StackMember × BitVec 64)}
    {w : Extent}
    (hMem : w ∈ stack.callExtents calls) :
    w.Inside 1024 := by
  rcases List.mem_flatMap.mp hMem with ⟨call, -, hW⟩
  exact member_inside hW

/- The end of a packet, unless it is negative as an `int`. -/
theorem fullEnd_eq
    (stack : PacketStack)
    {len : Nat}
    (hLen : len < 2 ^ 31) :
    let n := stack.headroom + stack.headerLen + len
    (stack.packetLen len +
        BitVec.ofNat 32 stack.headroom).toInt =
      if n < 2 ^ 31 then (n : Int) else n - 2 ^ 32 := by
  have hSize := stack.headroom_add
  have hNat : (stack.packetLen len +
      BitVec.ofNat 32 stack.headroom).toNat =
        stack.headroom + stack.headerLen + len := by
    simp only [packetLen, BitVec.toNat_add, BitVec.toNat_ofNat]
    omega
  dsimp only
  rw [BitVec.toInt_eq_toNat_cond, hNat]
  split <;> split <;> omega

theorem sentEnd_ge
    {len : Nat}
    (hLen : len < 2 ^ 31)
    (hNonneg : 0 ≤ stack.sentEnd len) :
    stack.headroom ≤ stack.sentEnd len := by
  have hSize := stack.headroom_add
  unfold sentEnd at hNonneg ⊢
  cases hType : stack.options.checksumType with
  | headerOnly =>
      simp only
      omega
  | fullPacket =>
      simp only [hType] at hNonneg ⊢
      have hEnd := stack.fullEnd_eq hLen
      dsimp only at hEnd
      rw [hEnd] at hNonneg ⊢
      split at hNonneg
      · rw [if_pos (by assumption)]
        omega
      · omega

/- The end is computed from the packet's length. -/
theorem checksumEnd_eq
    {len : Nat}
    {mem : Memory}
    (hLen : stack.options.checksumType = .fullPacket →
      stack.LenIs len mem) :
    stack.checksumEnd mem = .ok (stack.sentEnd len) := by
  unfold checksumEnd sentEnd
  cases hType : stack.options.checksumType with
  | headerOnly => rfl
  | fullPacket =>
      rcases hLen hType with ⟨x, hX, hValue⟩
      simp only [hX, ok_bind, hValue, pure_eq_ok]

/- Clearing, padding, and setting the checksum. -/
theorem checksumSend_changesOnly
    {values : SendValues}
    {len : Nat}
    {mem mem' : Memory}
    (hLength : len < 2 ^ 31)
    (hLen : stack.LenIs len mem)
    (hSend : stack.checksumSend mem = .ok mem') :
    ChangesOnly (stack.hookExtents values len .checksum) mem
        mem' ∧
      SparesLen (stack.hookExtents values len .checksum) := by
  have hSpares : SparesLen
      (stack.memberExtents (.header .checksum)) :=
    sparesLen_member (by decide)
  rcases bind_eq_ok_iff.mp hSend with ⟨r, hCompute, hSet⟩
  rcases bind_eq_ok_iff.mp hCompute with
    ⟨mem₁, hClear, hRest⟩
  have hCleared := setInteger_changesOnly hClear
  have hLen₁ := hLen.of_changesOnly hCleared hSpares
  have hEnd := checksumEnd_eq (fun _ => hLen₁)
  simp only [hEnd, ok_bind] at hRest
  have hPadded : ChangesOnly
      (stack.padExtents (stack.sentEnd len)) mem₁ r.1 := by
    unfold padExtents
    split at hRest
    · next hOdd =>
        rcases bind_eq_ok_iff.mp hRest with
          ⟨mem₂, hPad, hPair⟩
        rw [if_pos hOdd]
        unfold pad at hPad
        split at hPad
        · next hNonneg =>
            cases hPad
            cases hPair
            have hNat := Int.toNat_of_nonneg hNonneg
            rw [← hNat]
            exact changesOnly_update _ _ _
        · cases hPad
    · next hEven =>
        rw [if_neg hEven]
        cases hRest
        exact ChangesOnly.refl _
  have hPadSpares : SparesLen
      (stack.padExtents (stack.sentEnd len)) := by
    intro w hMem a hLt hHas
    unfold padExtents at hMem
    split at hMem
    · rw [List.mem_singleton.mp hMem] at hHas
      have hHeadroom : 16 ≤ stack.headroom := by
        unfold headroom StackOptions.headroom
        split <;> omega
      have hStart := hHas.1
      have hEnd := hHas.2
      dsimp only at hStart hEnd
      have hGe := sentEnd_ge hLength
        (by omega : 0 ≤ stack.sentEnd len)
      omega
    · cases hMem
  exact ⟨(hCleared.trans hPadded).trans
      (setInteger_changesOnly hSet),
    (hSpares.append hPadSpares).append hSpares⟩

/- The hooks behind the payload module's. -/
theorem hookSend_changesOnly
    {values : SendValues}
    {buff : List Byte}
    {m : Module}
    {mem mem' : Memory}
    (hLength : buff.length < 2 ^ 31)
    (hNe : m ≠ .payload)
    (hLen : stack.LenIs buff.length mem)
    (hSend : stack.hookSend values buff m mem = .ok mem') :
    ChangesOnly (stack.hookExtents values buff.length m) mem
        mem' ∧
      SparesLen (stack.hookExtents values buff.length m) := by
  have hNil : SparesLen [] := fun _ hMem => by cases hMem
  cases m with
  | payload => exact absurd rfl hNe
  | signaling =>
      cases hSend
      exact ⟨ChangesOnly.refl _, hNil⟩
  | inorder =>
      refine ⟨setIntegers_changesOnly hSend,
        sparesLen_calls ?_⟩
      unfold inorderSend
      split <;> simp
  | reliable =>
      exact ⟨setIntegers_changesOnly hSend,
        sparesLen_calls (by simp [reliableSend])⟩
  | identifier =>
      refine ⟨setIntegers_changesOnly hSend,
        sparesLen_calls ?_⟩
      unfold identifierSend
      split <;> simp
  | signalingAfter =>
      cases hSend
      exact ⟨ChangesOnly.refl _, hNil⟩
  | routing =>
      have hIds : SparesLen
          (stack.callExtents (globalIds values)) :=
        sparesLen_calls (by simp [globalIds])
      have hHeaderSpares : SparesLen
          (stack.callExtents (ipHeader buff.length)) :=
        sparesLen_calls (by simp [ipHeader])
      rcases bind_eq_ok_iff.mp hSend with ⟨mem₁, hSet, hRest⟩
      have hFirst := setIntegers_changesOnly hSet
      simp only [hookExtents]
      split at hRest
      · next hIP =>
          rcases bind_eq_ok_iff.mp hRest with
            ⟨mem₂, hHeader, hRest⟩
          rcases bind_eq_ok_iff.mp hRest with
            ⟨addr, -, hChecksum⟩
          rw [if_pos hIP]
          exact ⟨hFirst.trans
              ((setIntegers_changesOnly hHeader).trans
                (setInteger_changesOnly hChecksum)),
            hIds.append (hHeaderSpares.append
              (sparesLen_member (by decide)))⟩
      · next hIP =>
          cases hRest
          rw [if_neg hIP, List.append_nil]
          exact ⟨hFirst, hIds⟩
  | checksum => exact checksumSend_changesOnly hLength hLen hSend
  | network =>
      cases hSend
      exact ⟨ChangesOnly.refl _, hNil⟩

theorem payloadSend_changesOnly
    (values : SendValues)
    {buff : List Byte}
    {mem mem' : Memory}
    (hSend : stack.payloadSend buff mem = .ok mem') :
    ChangesOnly (stack.hookExtents values buff.length .payload)
        mem mem' ∧
      stack.LenIs buff.length mem' := by
  rcases bind_eq_ok_iff.mp hSend with ⟨mem₁, hSet, hRest⟩
  rcases bind_eq_ok_iff.mp hRest with ⟨addr, hAddr, hCopy⟩
  have hPlace := DynamicLayout.getAddr_eq
    (StackOptions.payload_place stack.totalSize_eq).1
  cases hAddr.symm.trans hPlace
  cases hCopy
  have hCopied := changesOnly_writeBytes mem₁
    (stack.totalSize - 1) buff
  have hNames : ∀ v, (stack.lengthSend v).map Prod.fst =
      (stack.lengthSend 0).map Prod.fst := by
    intro v
    unfold lengthSend
    split <;> rfl
  have hExtents : stack.callExtents (stack.lengthSend
      ((stack.packetLen buff.length).setWidth 64)) =
        stack.callExtents (stack.lengthSend 0) :=
    callExtents_congr (hNames _)
  refine ⟨?_, ?_⟩
  · simp only [hookExtents]
    rw [← hExtents]
    exact (setIntegers_changesOnly hSet).trans hCopied
  · -- the length is set last, and the copy is behind it
    rw [lengthSend, DynamicLayout.setIntegers_append] at hSet
    rcases bind_eq_ok_iff.mp hSet with ⟨mem₂, -, hLast⟩
    rw [DynamicLayout.setIntegers, List.foldlM_cons,
      (stack.computedTotalLen_access mem₂).1] at hLast
    cases hLast
    have hLen : stack.LenIs buff.length
        (IntegerMember.writeType .int mem₂ 0
          ((stack.packetLen buff.length).setWidth 64)) := by
      refine ⟨_, (stack.computedTotalLen_access _).2, ?_⟩
      have hRead := IntegerMember.readType_writeType .int mem₂ 0
        ((stack.packetLen buff.length).setWidth 64)
      have hBits : IntType.int.bits = 32 := rfl
      rw [hBits] at hRead
      rw [hRead]
      simp
    refine hLen.of_changesOnly hCopied ?_
    intro w hMem a hLt hHas
    rw [List.mem_singleton.mp hMem] at hHas
    have hSize := stack.headroom_add
    have hHeadroom : 16 ≤ stack.headroom := by
      unfold headroom StackOptions.headroom
      split <;> omega
    have hStart := hHas.1
    dsimp only at hStart
    omega

/- The hooks behind the payload module's, one by one. -/
theorem hooks_changesOnly
    {values : SendValues}
    {buff : List Byte}
    {modules : List Module}
    {mem mem' : Memory}
    (hLength : buff.length < 2 ^ 31)
    (hNot : .payload ∉ modules)
    (hLen : stack.LenIs buff.length mem)
    (hSend : modules.foldlM (fun mem m =>
      stack.hookSend values buff m mem) mem = .ok mem') :
    ChangesOnly (modules.flatMap
      (stack.hookExtents values buff.length)) mem mem' := by
  induction modules generalizing mem with
  | nil =>
      cases hSend
      exact ChangesOnly.refl _
  | cons m modules ih =>
      rw [List.foldlM_cons] at hSend
      rcases bind_eq_ok_iff.mp hSend with ⟨mem₁, hHook, hRest⟩
      rw [List.mem_cons, not_or] at hNot
      rcases hookSend_changesOnly hLength (Ne.symm hNot.1) hLen
        hHook with ⟨hChanges, hSpares⟩
      exact hChanges.trans (ih hNot.2
        (hLen.of_changesOnly hChanges hSpares) hRest)

/- The send path changes no byte outside of its extents. -/
theorem runSendPath_changesOnly
    {values : SendValues}
    {buff : List Byte}
    {mem mem' : Memory}
    (hLength : buff.length < 2 ^ 31)
    (hSend : stack.runSendPath values buff mem = .ok mem') :
    ChangesOnly (stack.sendExtents values buff.length) mem
      mem' := by
  have hModules : ∃ modules,
      registeredModules stack.options.toConfig =
        .payload :: modules ∧ .payload ∉ modules := by
    refine ⟨(registeredModules stack.options.toConfig).tail,
      rfl, ?_⟩
    unfold registeredModules
    split_ifs <;> decide
  rcases hModules with ⟨modules, hModules, hNot⟩
  unfold runSendPath at hSend
  unfold sendExtents
  rw [hModules] at hSend ⊢
  rw [List.foldlM_cons] at hSend
  rcases bind_eq_ok_iff.mp hSend with ⟨mem₁, hPayload, hRest⟩
  rcases payloadSend_changesOnly values hPayload with
    ⟨hChanges, hLen⟩
  exact hChanges.trans
    (hooks_changesOnly hLength hNot hLen hRest)

end Frame

end PacketStack

end NetBlocks
