import NetBlocks.Stack.Hooks

/-
  Setting the members of a stack's packet: which of them keep
  their values where the layout puts them, and what a list of
  sets leaves alone.

  Main declarations:
    * `PacketStack.Encodes`
    * `PacketStack.WritesOnly`
    * `PacketStack.setIntegers_spec`
-/

namespace NetBlocks

open ByteMemory Except

------------------------------------------------------------
-- Members That Fill Their Type
------------------------------------------------------------

namespace IntegerMember

/- What is read is what was written, as far as `T` shows. -/
theorem readType_writeType
    (ty : IntType)
    (mem : Memory)
    (addr : Nat)
    (v : BitVec 64) :
    (readType ty (writeType ty mem addr v) addr).setWidth
        ty.bits =
      v.setWidth ty.bits := by
  have hWide := ty.bits_le
  apply BitVec.eq_of_getLsbD_eq
  intro i hi
  have hIn : 8 * addr ≤ 8 * addr + i ∧
      8 * addr + i < 8 * addr + ty.bits := by omega
  have hIndex : 8 * addr + i - 8 * addr = i := by omega
  rw [BitVec.getLsbD_setWidth, BitVec.getLsbD_setWidth,
    getLsbD_readType _ _ _ (by omega), if_pos hi,
    bit_writeType, if_pos hIn, hIndex]

/- A number that fits is a value of an unsigned member. -/
theorem inRange_of_lt
    {m : IntegerMember}
    {v : BitVec 64}
    (hRange : m.range = none)
    (hUnsigned : m.type.signed = false)
    (hLt : v.toNat < 2 ^ m.bitSize) :
    m.InRange v := by
  have hNot : ¬ m.IsFullSigned := by
    rintro ⟨-, hSigned, -⟩
    rw [hUnsigned] at hSigned
    cases hSigned
  unfold InRange
  rw [hRange]
  simpa [hNot] using hLt

variable
    {m : IntegerMember}
    {offset : Nat}
    (hAligned : offset % 8 = 0)
    (hFull : m.bitSize = m.type.bits)
    (hBase : m.rangeBase = 0)

include hAligned hFull hBase

/- Such a member is written as a value of its type. -/
theorem setInteger_full
    (mem : Memory)
    (v : BitVec 64) :
    m.setInteger offset mem v =
      .ok (writeType m.type mem (offset / 8) v) := by
  have hBits : offset + m.type.bits - offset = m.type.bits := by
    omega
  have hZero : v - m.rangeBase = v := by
    rw [hBase]
    exact BitVec.sub_zero v
  rw [setInteger_eq, hZero, setBits,
    if_neg (not_not.mpr hAligned), setBitsUpper, hFull]
  simp [hAligned, hBits]

theorem getInteger_full
    (mem : Memory) :
    m.getInteger offset mem =
      .ok (readType m.type mem (offset / 8)) := by
  have hBits : offset + m.type.bits - offset = m.type.bits := by
    omega
  have hGet : m.getBits offset mem =
      .ok (readType m.type mem (offset / 8)) := by
    rw [getBits, if_neg (not_not.mpr hAligned),
      extractBitsUpper, hFull]
    simp [hAligned, hBits]
  have hZero : readType m.type mem (offset / 8) +
      m.rangeBase = readType m.type mem (offset / 8) := by
    rw [hBase]
    exact BitVec.add_zero _
  rw [getInteger_eq hGet, hZero]

end IntegerMember

namespace PacketStack

section Access

variable {stack : PacketStack}

------------------------------------------------------------
-- Members at Their Places
------------------------------------------------------------

theorem wellFormed
    (stack : PacketStack) :
    stack.netPacket.WellFormed :=
  (stack.options.layout_built stack.ranged).wellFormed

/- There is room for the members that are not sent. -/
theorem le_headroom
    (stack : PacketStack) :
    16 ≤ stack.headroom := by
  unfold headroom StackOptions.headroom
  split <;> omega

/- Reading and writing by name, at the place of the name. -/
theorem access
    {name : StackMember}
    (hMem : name ∈ stack.netPacket.order) :
    ∃ o, stack.netPacket.offset name = .ok o ∧
      (∀ v mem, stack.netPacket.setInteger name v mem =
        (stack.ranged.get name).setInteger o mem v) ∧
      ∀ mem, stack.netPacket.getInteger name mem =
        (stack.ranged.get name).getInteger o mem := by
  rcases stack.wellFormed.placed hMem with ⟨o, hOffset⟩
  have hMember := StackOptions.membersMap_eq hMem
  have hAccess := DynamicLayout.access_eq hMember hOffset
  exact ⟨o, hOffset, hAccess.1, hAccess.2⟩

/- A 16-bit member at a byte boundary is two bytes. -/
theorem short_access
    {name : StackMember}
    {addr : Nat}
    (hPlace : stack.netPacket.offset name = .ok (8 * addr))
    (hMem : name ∈ stack.netPacket.order)
    (hType : (stack.ranged.get name).type = .unsignedShort)
    (hFull : (stack.ranged.get name).bitSize =
      (stack.ranged.get name).type.bits)
    (hBase : (stack.ranged.get name).rangeBase = 0)
    (mem : Memory) :
    (∀ v : BitVec 16,
      stack.netPacket.setInteger name (v.setWidth 64) mem =
        .ok (storeShort mem addr v)) ∧
      stack.netPacket.getInteger name mem =
        .ok ((loadShort mem addr).setWidth 64) := by
  rcases access hMem with ⟨o, hO, hSet, hGet⟩
  cases hO.symm.trans hPlace
  have hMod : 8 * addr % 8 = 0 := Nat.mul_mod_right 8 addr
  have hDiv : 8 * addr / 8 = addr :=
    Nat.mul_div_cancel_left addr (by decide)
  constructor
  · intro v
    have hNat : (v.setWidth 64).toNat = v.toNat :=
      BitVec.toNat_setWidth_of_le (by decide)
    rw [hSet, IntegerMember.setInteger_full hMod hFull hBase,
      hDiv, hType, IntegerMember.writeType, hNat]
    rfl
  · rw [hGet, IntegerMember.getInteger_full hMod hFull hBase,
      hDiv, hType]
    rfl

/- `computed_total_len` is the first member. -/
theorem computedTotalLen_place
    (stack : PacketStack) :
    stack.netPacket.offset (.header .computedTotalLen) =
      .ok 0 := by
  have hLocal : .header .computedTotalLen ∈
      stack.options.localGroup := List.mem_cons_self ..
  exact (stack.options.local_places stack.ranged).1 _ hLocal

theorem computedTotalLen_mem
    (stack : PacketStack) :
    .header .computedTotalLen ∈ stack.netPacket.order :=
  StackOptions.mem_order_of_local (List.mem_cons_self ..)

/- It is read and written as the first word of a packet. -/
theorem computedTotalLen_access
    (stack : PacketStack)
    (mem : Memory) :
    (∀ v, stack.netPacket.setInteger
        (.header .computedTotalLen) v mem =
      .ok (IntegerMember.writeType .int mem 0 v)) ∧
      stack.netPacket.getInteger (.header .computedTotalLen)
          mem =
        .ok (IntegerMember.readType .int mem 0) := by
  rcases access stack.computedTotalLen_mem with
    ⟨o, hOffset, hSet, hGet⟩
  cases hOffset.symm.trans stack.computedTotalLen_place
  constructor
  · intro v
    rw [hSet]
    exact IntegerMember.setInteger_full rfl rfl rfl mem v
  · rw [hGet]
    exact IntegerMember.getInteger_full rfl rfl rfl mem

/- It depends on the first bytes only. -/
theorem getInteger_computed
    {mem mem' : Memory}
    (hBytes : ∀ a, a < 4 → mem' a = mem a) :
    stack.netPacket.getInteger (.header .computedTotalLen)
        mem' =
      stack.netPacket.getInteger (.header .computedTotalLen)
        mem := by
  have hLoad : load mem' 0 4 = load mem 0 4 :=
    load_congr (fun a _ hLt => hBytes a (by omega))
  rw [(stack.computedTotalLen_access mem').2,
    (stack.computedTotalLen_access mem).2,
    IntegerMember.readType, IntegerMember.readType]
  exact congrArg (fun n => Except.ok
    ((BitVec.ofNat 32 n).signExtend 64)) hLoad

/- What has been set was in the layout. -/
theorem mem_order_of_setInteger
    {name : StackMember}
    {v : BitVec 64}
    {mem mem' : Memory}
    (hSet : stack.netPacket.setInteger name v mem =
      .ok mem') :
    name ∈ stack.netPacket.order := by
  rw [stack.wellFormed.mapped]
  intro hNone
  rw [DynamicLayout.setInteger, DynamicLayout.member,
    hNone] at hSet
  cases hSet

/-
  A member that is sent and set is at a byte boundary: in the
  middle of a byte, it takes a shift that C leaves undefined.
-/
theorem setInteger_mod
    {name : StackMember}
    {v : BitVec 64}
    {mem mem' : Memory}
    {o : Nat}
    (hMem : name ∈ stack.options.wireMembers)
    (hOffset : stack.netPacket.offset name = .ok o)
    (hSet : stack.netPacket.setInteger name v mem =
      .ok mem') :
    o % 8 = 0 := by
  by_contra hUnaligned
  rcases StackOptions.wire_place stack.totalSize_eq hMem with
    ⟨o₁, hO₁, hFrom, -⟩
  cases hO₁.symm.trans hOffset
  have hHeadroom : 16 ≤ stack.options.headroom :=
    stack.le_headroom
  rcases access (StackOptions.mem_order_of_wire hMem) with
    ⟨o₂, hO₂, hAccess, -⟩
  cases hO₂.symm.trans hOffset
  rw [hAccess, IntegerMember.setInteger_eq] at hSet
  have hShift :=
    (IntegerMember.setBits_unaligned hUnaligned hSet).1
  omega

/- A member keeps the values it is for at its place. -/
def EncodesMember
    (stack : PacketStack)
    (name : StackMember) : Prop :=
  ∀ o, stack.netPacket.offset name = .ok o →
    (stack.ranged.get name).CanEncode o

/- The bits of a member. -/
def HasBit
    (stack : PacketStack)
    (name : StackMember)
    (k : Nat) : Prop :=
  ∃ o, stack.netPacket.offset name = .ok o ∧ o ≤ k ∧
    k < o + (stack.ranged.get name).bitSize

/- Aligned members are at byte boundaries. -/
theorem encodesMember_of_aligned
    {name : StackMember}
    (hMem : name ∈ stack.netPacket.order)
    (hAligned : (stack.ranged.get name).aligned = true) :
    stack.EncodesMember name := by
  intro o hOffset
  have hAlignedOf : stack.netPacket.alignedOf name = true :=
    (StackOptions.alignedOf_eq hMem).trans hAligned
  have hMod := stack.wellFormed.aligned hMem hAlignedOf hOffset
  exact ⟨Or.inl hMod, Or.inl hMod⟩

/- No bit belongs to two members. -/
theorem HasBit.unique
    {name other : StackMember}
    {k : Nat}
    (hMem : name ∈ stack.netPacket.order)
    (hMem' : other ∈ stack.netPacket.order)
    (hBit : stack.HasBit name k)
    (hBit' : stack.HasBit other k) :
    other = name := by
  rcases hBit with ⟨o, hOffset, hFrom, hTo⟩
  rcases hBit' with ⟨o', hOffset', hFrom', hTo'⟩
  by_contra hNe
  have hApart := stack.wellFormed.offsets_apart hMem hMem' hNe
    hOffset hOffset'
  have hSize : stack.netPacket.sizeOf name =
    (stack.ranged.get name).bitSize :=
      StackOptions.sizeOf_eq hMem
  have hSize' : stack.netPacket.sizeOf other =
    (stack.ranged.get other).bitSize :=
      StackOptions.sizeOf_eq hMem'
  omega

------------------------------------------------------------
-- Writing Members
------------------------------------------------------------

/- No bit outside of the members listed changes. -/
def WritesOnly
    (stack : PacketStack)
    (names : List StackMember)
    (mem mem' : Memory) : Prop :=
  ∀ k, (∀ name ∈ names, ¬ stack.HasBit name k) →
    bit mem' k = bit mem k

theorem WritesOnly.refl
    (mem : Memory) :
    stack.WritesOnly [] mem mem :=
  fun _ _ => rfl

theorem WritesOnly.trans
    {names names' : List StackMember}
    {mem mem₁ mem₂ : Memory}
    (hFirst : stack.WritesOnly names mem mem₁)
    (hSecond : stack.WritesOnly names' mem₁ mem₂) :
    stack.WritesOnly (names ++ names') mem mem₂ := by
  intro k hOutside
  rw [hSecond k (fun name hMem =>
      hOutside name (List.mem_append_right _ hMem)),
    hFirst k (fun name hMem =>
      hOutside name (List.mem_append_left _ hMem))]

theorem WritesOnly.mono
    {names names' : List StackMember}
    {mem mem' : Memory}
    (hWrites : stack.WritesOnly names mem mem')
    (hSubset : names ⊆ names') :
    stack.WritesOnly names' mem mem' :=
  fun k hOutside => hWrites k (fun name hMem =>
    hOutside name (hSubset hMem))

/- What is read of a member depends on its bits. -/
theorem getInteger_of_bits
    {mem mem' : Memory}
    {name : StackMember}
    (hMem : name ∈ stack.netPacket.order)
    (hBits : ∀ k, stack.HasBit name k →
      bit mem' k = bit mem k) :
    stack.netPacket.getInteger name mem' =
      stack.netPacket.getInteger name mem := by
  rcases access hMem with ⟨o, hOffset, -, hGet⟩
  rw [hGet, hGet]
  apply IntegerMember.getInteger_congr
  intro k hFrom hTo
  exact hBits k ⟨o, hOffset, hFrom, hTo⟩

/- A member that is not written is read as before. -/
theorem WritesOnly.getInteger_eq
    {names : List StackMember}
    {mem mem' : Memory}
    {name : StackMember}
    (hWrites : stack.WritesOnly names mem mem')
    (hNames : ∀ other ∈ names, other ∈ stack.netPacket.order)
    (hMem : name ∈ stack.netPacket.order)
    (hNot : name ∉ names) :
    stack.netPacket.getInteger name mem' =
      stack.netPacket.getInteger name mem := by
  apply getInteger_of_bits hMem
  intro k hBit
  apply hWrites
  intro other hOther hBit'
  have hSame := HasBit.unique hMem (hNames other hOther)
    hBit hBit'
  exact hNot (hSame ▸ hOther)

/- A member is read as a value, as far as its width shows. -/
def HoldsValue
    (stack : PacketStack)
    (name : StackMember)
    {n : Nat}
    (v : BitVec n)
    (mem : Memory) : Prop :=
  ∃ x, stack.netPacket.getInteger name mem = .ok x ∧
    x.setWidth n = v

theorem HoldsValue.congr
    {name : StackMember}
    {n : Nat}
    {v : BitVec n}
    {mem mem' : Memory}
    (hSame : stack.netPacket.getInteger name mem' =
      stack.netPacket.getInteger name mem)
    (hHolds : stack.HoldsValue name v mem) :
    stack.HoldsValue name v mem' := by
  rcases hHolds with ⟨x, hX, hValue⟩
  exact ⟨x, hSame.trans hX, hValue⟩

/- Two values that a member does not tell apart. -/
def SameValue
    (stack : PacketStack)
    (name : StackMember)
    (v v' : BitVec 64) : Prop :=
  v.setWidth (stack.ranged.get name).type.bits =
    v'.setWidth (stack.ranged.get name).type.bits

/- Setting a member writes its value, and nothing else. -/
theorem setInteger_spec
    {name : StackMember}
    {v : BitVec 64}
    (hMem : name ∈ stack.netPacket.order)
    (hEncodes : stack.EncodesMember name)
    (hRange : (stack.ranged.get name).InRange v)
    (mem : Memory) :
    ∃ mem', stack.netPacket.setInteger name v mem =
        .ok mem' ∧
      stack.WritesOnly [name] mem mem' ∧
      ∃ x, stack.netPacket.getInteger name mem' = .ok x ∧
        stack.SameValue name x v := by
  rcases access hMem with ⟨o, hOffset, hSet, hGet⟩
  have hEncode := hEncodes o hOffset
  rcases IntegerMember.setInteger_spec mem hEncode hRange with
    ⟨mem', hResult, hBits⟩
  refine ⟨mem', (hSet v mem).trans hResult, ?_, ?_⟩
  · intro k hOutside
    rw [hBits k, if_neg]
    intro hIn
    exact hOutside name (List.mem_singleton_self _)
      ⟨o, hOffset, hIn⟩
  · rcases IntegerMember.getInteger_setInteger hEncode hRange
      hResult with ⟨x, hX, hValue⟩
    exact ⟨x, (hGet mem').trans hX, hValue⟩

/- What is required of a list of members to set. -/
def CallsFit
    (stack : PacketStack)
    (calls : List (StackMember × BitVec 64)) : Prop :=
  ∀ call ∈ calls, call.1 ∈ stack.netPacket.order ∧
    stack.EncodesMember call.1 ∧
    (stack.ranged.get call.1).InRange call.2

/- Setting members one after the other. -/
theorem setIntegers_spec
    {calls : List (StackMember × BitVec 64)}
    (hFit : stack.CallsFit calls)
    (hNodup : (calls.map Prod.fst).Nodup)
    (mem : Memory) :
    ∃ mem', stack.netPacket.setIntegers calls mem =
        .ok mem' ∧
      stack.WritesOnly (calls.map Prod.fst) mem mem' ∧
      ∀ call ∈ calls,
        ∃ x, stack.netPacket.getInteger call.1 mem' = .ok x ∧
          stack.SameValue call.1 x call.2 := by
  induction calls generalizing mem with
  | nil =>
      exact ⟨mem, rfl, WritesOnly.refl mem,
        fun _ hMem => by cases hMem⟩
  | cons call calls ih =>
      have hHead := hFit call (List.mem_cons_self ..)
      have hTail : stack.CallsFit calls := fun other hMem =>
        hFit other (List.mem_cons_of_mem _ hMem)
      rw [List.map_cons, List.nodup_cons] at hNodup
      rcases setInteger_spec hHead.1 hHead.2.1 hHead.2.2 mem
        with ⟨mem₁, hSet, hWrites, x, hX, hValue⟩
      rcases ih hTail hNodup.2 mem₁ with
        ⟨mem₂, hRest, hWrites', hValues⟩
      refine ⟨mem₂, ?_, hWrites.trans hWrites', ?_⟩
      · rw [DynamicLayout.setIntegers, List.foldlM_cons, hSet,
          ok_bind]
        exact hRest
      · intro other hMem
        rcases List.mem_cons.mp hMem with rfl | hMem
        · have hSame := hWrites'.getInteger_eq (fun name hIn => by
            rcases List.mem_map.mp hIn with ⟨c, hC, rfl⟩
            exact (hTail c hC).1) hHead.1 hNodup.1
          exact ⟨x, hSame.trans hX, hValue⟩
        · exact hValues other hMem

end Access

end PacketStack

end NetBlocks
