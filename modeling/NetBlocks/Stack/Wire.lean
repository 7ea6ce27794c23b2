import NetBlocks.Stack.SendSpec

/-
  The bytes of a packet on the wire: what they say once it is
  sent, and what a copy of them says in another buffer.

  Main declarations:
    * `PacketStack.byteAligned_of_sent`
    * `PacketStack.SameWire`
    * `PacketStack.SentPacket`
    * `PacketStack.networkIngress_len`
-/

namespace NetBlocks

open ByteMemory Except

/- Members of optional modules are sent if these are enabled. -/
theorem StackOptions.wire_options
    (options : StackOptions) :
    (.header .sequenceNumber ∈ options.wireMembers →
      options.isNumbered = true) ∧
    (.header .ackSequenceNumber ∈ options.wireMembers →
      options.reliableEnabled = true) ∧
    (.header .checksum ∈ options.wireMembers →
      options.checksumEnabled = true) := by
  simp [wireMembers, linkGroup, networkGroup, transportGroup,
    protocolGroup]

namespace PacketBuffer

/- A sum of words depends on their bytes. -/
theorem sumWords_congr
    {mem mem' : Memory}
    {start n : Nat}
    (hBytes : ∀ a, start ≤ a → a < start + 2 * n →
      mem' a = mem a) :
    sumWords mem' start n = sumWords mem start n := by
  induction n with
  | zero => rfl
  | succ n ih =>
      have hRest := ih (fun a hFrom hTo =>
        hBytes a hFrom (by omega))
      have hLast : load mem' (start + 2 * n) 2 =
          load mem (start + 2 * n) 2 :=
        load_congr (fun a hFrom hTo =>
          hBytes a (by omega) (by omega))
      rw [sumWords, sumWords, hRest, hLast]

end PacketBuffer

namespace PacketStack

variable {stack : PacketStack}

------------------------------------------------------------
-- Layouts of Packets That Are Sent
------------------------------------------------------------

/- Each hook of a run has run. -/
theorem hook_of_run
    {values : SendValues}
    {buff : List Byte}
    {modules : List Module}
    {m : Module}
    {mem mem' : Memory}
    (hMem : m ∈ modules)
    (hSend : modules.foldlM (fun mem m =>
      stack.hookSend values buff m mem) mem = .ok mem') :
    ∃ mem₁ mem₂,
      stack.hookSend values buff m mem₁ = .ok mem₂ := by
  rcases List.append_of_mem hMem with ⟨first, second, rfl⟩
  rw [List.foldlM_append] at hSend
  rcases bind_eq_ok_iff.mp hSend with ⟨mem₁, -, hRest⟩
  rw [List.foldlM_cons] at hRest
  rcases bind_eq_ok_iff.mp hRest with ⟨mem₂, hHook, -⟩
  exact ⟨mem₁, mem₂, hHook⟩

/- Each set of a list has been made. -/
theorem set_of_run
    {calls : List (StackMember × BitVec 64)}
    {call : StackMember × BitVec 64}
    {mem mem' : Memory}
    (hMem : call ∈ calls)
    (hSet : stack.netPacket.setIntegers calls mem =
      .ok mem') :
    ∃ mem₁ mem₂, stack.netPacket.setInteger call.1 call.2
      mem₁ = .ok mem₂ := by
  rcases List.append_of_mem hMem with ⟨first, second, rfl⟩
  rw [DynamicLayout.setIntegers_append] at hSet
  rcases bind_eq_ok_iff.mp hSet with ⟨mem₁, -, hRest⟩
  rw [DynamicLayout.setIntegers, List.foldlM_cons] at hRest
  rcases bind_eq_ok_iff.mp hRest with ⟨mem₂, hCall, -⟩
  exact ⟨mem₁, mem₂, hCall⟩

section Run

variable
    {values : SendValues}
    {buff : List Byte}
    {mem sent : Memory}
    {name : StackMember}
    {v : BitVec 64}
    {o : Nat}
    (hSend : stack.runSendPath values buff mem = .ok sent)

include hSend

/- What a registered module sets is at a byte boundary. -/
theorem mod_of_call
    {m : Module}
    {calls : List (StackMember × BitVec 64)}
    (hRegistered :
      m ∈ registeredModules stack.options.toConfig)
    (hHook : stack.hookSend values buff m =
      stack.netPacket.setIntegers calls)
    (hCall : (name, v) ∈ calls)
    (hMem : name ∈ stack.options.wireMembers)
    (hOffset : stack.netPacket.offset name = .ok o) :
    o % 8 = 0 := by
  rcases hook_of_run hRegistered hSend with ⟨mem₁, mem₂, hRan⟩
  rw [hHook] at hRan
  rcases set_of_run hCall hRan with ⟨mem₃, mem₄, hSet⟩
  exact setInteger_mod hMem hOffset hSet

/-
  The members that are not aligned are all set, and so at byte
  boundaries.
-/
theorem wire_mod
    (hMem : name ∈ stack.options.wireMembers)
    (hOffset : stack.netPacket.offset name = .ok o) :
    o % 8 = 0 := by
  have hAligned :
      (stack.ranged.get name).aligned = true → o % 8 = 0 := by
    intro hFlag
    have hIn : name ∈ stack.netPacket.order :=
      StackOptions.mem_order_of_wire hMem
    exact stack.wellFormed.aligned hIn
      ((StackOptions.alignedOf_eq hIn).trans hFlag) hOffset
  have hIdentifier : ∀ v, (name, v) ∈
      stack.identifierSend values → o % 8 = 0 :=
    fun v hCall => mod_of_call hSend
      (by simp [registeredModules] : Module.identifier ∈ _)
      rfl hCall hMem hOffset
  cases name with
  | compat f => exact hAligned rfl
  | payload =>
      simp [StackOptions.wireMembers, StackOptions.linkGroup,
        StackOptions.networkGroup,
        StackOptions.transportGroup,
        StackOptions.protocolGroup] at hMem
  | header f =>
      cases f with
      | dstHostId =>
          exact hIdentifier values.remoteHostId
            (by simp [identifierSend])
      | srcHostId =>
          exact hIdentifier values.myLocalHostId
            (by simp [identifierSend])
      | dstAppId =>
          exact hIdentifier (values.remoteAppId.setWidth 64)
            (by simp [identifierSend])
      | srcAppId =>
          exact hIdentifier (values.localAppId.setWidth 64)
            (by simp [identifierSend])
      | totalLen =>
          exact hAligned (StackOptions.totalLenMember_ok
            (StackOptions.rangedMembers_ok
              stack.ranged_eq).1).2
      | sequenceNumber =>
          have hNumbered : stack.options.isNumbered = true :=
            stack.options.wire_options.1 hMem
          exact mod_of_call hSend
            (by simp [registeredModules] : Module.inorder ∈ _)
            rfl (by
              rw [inorderSend, if_pos hNumbered]
              exact List.mem_singleton_self _) hMem hOffset
      | ackSequenceNumber =>
          have hReliable :
              stack.options.reliableEnabled = true :=
            stack.options.wire_options.2.1 hMem
          exact mod_of_call hSend
            (by simp [registeredModules, hReliable] :
              Module.reliable ∈ _)
            rfl (List.mem_cons_of_mem _
              (List.mem_singleton_self _)) hMem hOffset
      | checksum =>
          have hEnabled :
              stack.options.checksumEnabled = true :=
            stack.options.wire_options.2.2 hMem
          rcases hook_of_run
            (by simp [registeredModules, hEnabled] :
              Module.checksum ∈ _) hSend with
            ⟨mem₁, mem₂, hRan⟩
          rcases bind_eq_ok_iff.mp hRan with ⟨r, -, hSet⟩
          exact setInteger_mod hMem hOffset hSet
      | _ => exact hAligned rfl

/- Only packets of byte-aligned layouts can be sent. -/
theorem byteAligned_of_sent :
    stack.ByteAligned := by
  intro name hMem o hOffset
  have hOrder : stack.netPacket.order =
      stack.options.localGroup ++
        (stack.options.wireMembers ++ [.payload]) :=
    stack.options.order_eq stack.ranged
  rw [hOrder, List.mem_append, List.mem_append] at hMem
  rcases hMem with hLocal | hWire | hPayload
  · have hFlag : (stack.ranged.get name).aligned = true := by
      simp only [StackOptions.localGroup, List.mem_append,
        List.mem_cons, List.not_mem_nil, or_false] at hLocal
      rcases hLocal with ((rfl | rfl) | hTimer) | rfl
      · rfl
      · rfl
      · split at hTimer
        · rw [List.mem_singleton.mp hTimer]
          rfl
        · cases hTimer
      · rfl
    have hIn : name ∈ stack.netPacket.order :=
      StackOptions.mem_order_of_local hLocal
    exact stack.wellFormed.aligned hIn
      ((StackOptions.alignedOf_eq hIn).trans hFlag) hOffset
  · exact wire_mod hSend hWire hOffset
  · rw [List.mem_singleton.mp hPayload] at hOffset
    cases hOffset.symm.trans
      (StackOptions.payload_place stack.totalSize_eq).1
    exact Nat.mul_mod_right 8 _

end Run

------------------------------------------------------------
-- Sums of Packets
------------------------------------------------------------

section Sum

variable
    {c len : Nat}
    {mem mem' : Memory}

theorem storeShort_inside
    {addr a : Nat}
    (value : BitVec 16)
    (hFrom : addr ≤ a)
    (hTo : a < addr + 2) :
    storeShort mem' addr value a =
      storeShort mem addr value a := by
  unfold storeShort store
  rw [if_pos ⟨hFrom, hTo⟩, if_pos ⟨hFrom, hTo⟩]

/- Packets that agree up to their ends agree when cleared. -/
theorem cleared_congr
    {a : Nat}
    (hSame : (a < c ∨ c + 2 ≤ a) → a ≠ stack.endOf len →
      mem' a = mem a)
    (hEnd : a = stack.endOf len → stack.Pads len) :
    stack.cleared c len mem' a = stack.cleared c len mem a := by
  by_cases hAtEnd : a = stack.endOf len
  · unfold cleared
    rw [if_pos (hEnd hAtEnd), if_pos (hEnd hAtEnd), hAtEnd,
      Function.update_self, Function.update_self]
  · have hStored : storeShort mem' c 0 a =
        storeShort mem c 0 a := by
      by_cases hOwn : c ≤ a ∧ a < c + 2
      · exact storeShort_inside 0 hOwn.1 hOwn.2
      · have hOutside : a < c ∨ c + 2 ≤ a := by omega
        rw [storeShort_of_outside _ _ hOutside,
          storeShort_of_outside _ _ hOutside]
        exact hSame hOutside hAtEnd
    unfold cleared
    split
    · rw [Function.update_of_ne hAtEnd,
        Function.update_of_ne hAtEnd]
      exact hStored
    · exact hStored

/- What is added up ends with the packet or its padding. -/
theorem words_end
    {a : Nat}
    (hTo : a < stack.headroom +
      2 * ((stack.endOf len - stack.headroom + 1) / 2)) :
    a < stack.endOf len ∨
      a = stack.endOf len ∧ stack.Pads len := by
  have hLe := stack.le_endOf len
  unfold Pads
  omega

/- The sum depends on the bytes up to the end of the packet. -/
theorem wordSum_congr
    (hSame : ∀ a, stack.headroom ≤ a → a < stack.endOf len →
      (a < c ∨ c + 2 ≤ a) → mem' a = mem a) :
    stack.wordSum c len mem' = stack.wordSum c len mem := by
  apply PacketBuffer.sumWords_congr
  intro a hFrom hTo
  rcases words_end hTo with hBefore | ⟨rfl, hPads⟩
  · exact cleared_congr
      (fun hOutside _ => hSame a hFrom hBefore hOutside)
      (fun hEnd => absurd hEnd (by omega))
  · exact cleared_congr (fun _ hNe => absurd rfl hNe)
      (fun _ => hPads)

end Sum

------------------------------------------------------------
-- Copies of a Packet
------------------------------------------------------------

/- A buffer with the same bytes on the wire. -/
def SameWire
    (stack : PacketStack)
    (len : Nat)
    (mem copy : Memory) : Prop :=
  ∀ a, stack.OnWire len a → copy a = mem a

/- The members sent are on the wire, whatever the payload. -/
theorem onWire_of_bit
    {name : StackMember}
    {k : Nat}
    (hMem : name ∈ stack.options.wireMembers)
    (hBit : stack.HasBit name k)
    (len : Nat) :
    stack.OnWire len (k / 8) := by
  have hIn := wire_bits hMem hBit
  have hSize := stack.headroom_add
  unfold OnWire
  omega

/- Members that are sent are read as they were sent. -/
theorem SameWire.getInteger_eq
    {len : Nat}
    {mem copy : Memory}
    {name : StackMember}
    (hSame : stack.SameWire len mem copy)
    (hMem : name ∈ stack.options.wireMembers) :
    stack.netPacket.getInteger name copy =
      stack.netPacket.getInteger name mem := by
  apply getInteger_of_bits (StackOptions.mem_order_of_wire hMem)
  intro k hBit
  rw [bit, bit, hSame _ (onWire_of_bit hMem hBit len)]

theorem SameWire.sentHeader
    {len : Nat}
    {mem copy : Memory}
    (hSame : stack.SameWire len mem copy)
    (hHeader : stack.SentHeader len mem) :
    stack.SentHeader len copy :=
  hHeader.congr (fun _ hMem _ => hSame.getInteger_eq hMem)

/- No byte of another member is one of the checksum. -/
theorem outside_checksum
    {c k : Nat}
    {name : StackMember}
    (hPlace : stack.netPacket.offset (.header .checksum) =
      .ok (8 * c))
    (hEnabled : stack.options.checksumEnabled = true)
    (hMem : name ∈ stack.netPacket.order)
    (hNe : name ≠ .header .checksum)
    (hBit : stack.HasBit name k) :
    k / 8 < c ∨ c + 2 ≤ k / 8 := by
  by_contra hOwn
  have hBits : (stack.ranged.get
    (.header .checksum)).bitSize = 16 := rfl
  have hChecksum : stack.HasBit (.header .checksum) k :=
    ⟨8 * c, hPlace, by omega, by omega⟩
  have hEq := HasBit.unique
    (StackOptions.mem_order_of_wire (checksum_mem hEnabled))
    hMem hChecksum hBit
  exact hNe hEq

------------------------------------------------------------
-- What Is Sent
------------------------------------------------------------

/-
  A packet that is sent says how long it is, and holds the sum
  of its words.
-/
structure SentPacket
    (stack : PacketStack)
    (len : Nat)
    (sent : Memory) : Prop where
  header : stack.SentHeader len sent
  checked : stack.options.checksumEnabled = true →
    ∃ c, stack.netPacket.offset (.header .checksum) =
        .ok (8 * c) ∧
      stack.wordSum c len sent = loadShort sent c

theorem sentPacket_of_run
    {values : SendValues}
    {buff : List Byte}
    {mem sent : Memory}
    (hValues : stack.ValuesFit values)
    (hFits : stack.LengthFits buff.length)
    (hSend : stack.runSendPath values buff mem = .ok sent) :
    stack.SentPacket buff.length sent := by
  have hAligned := byteAligned_of_sent hSend
  rcases runSendPath_spec hAligned hValues hFits hSend with
    ⟨before, hLen, hHeader, hLast⟩
  split at hLast
  · next hEnabled =>
      have hMem : .header .checksum ∈ stack.netPacket.order :=
        StackOptions.mem_order_of_wire (checksum_mem hEnabled)
      rcases stack.wellFormed.placed hMem with ⟨o, hOffset⟩
      rcases Nat.dvd_of_mod_eq_zero
        (hAligned _ hMem o hOffset) with ⟨c, rfl⟩
      rw [checksumSend_eq hEnabled hOffset hFits.isInt
        (fun _ => hLen)] at hLast
      cases hLast
      have hLe := stack.le_endOf buff.length
      have hSize := stack.headroom_add
      have hKept : ∀ a, a < stack.endOf buff.length →
          (a < c ∨ c + 2 ≤ a) →
            storeShort (stack.cleared c buff.length before) c
              (stack.wordSum c buff.length before) a =
                before a := by
        intro a hTo hOutside
        rw [storeShort_of_outside _ _ hOutside]
        exact cleared_of_ne hOutside (by omega)
      refine ⟨hHeader.congr ?_, fun _ => ⟨c, hOffset, ?_⟩⟩
      · intro name hWire hNe
        have hOrder : name ∈ stack.netPacket.order :=
          StackOptions.mem_order_of_wire hWire
        apply getInteger_of_bits hOrder
        intro k hBit
        have hIn := wire_bits hWire hBit
        rw [bit, bit, hKept _ (by omega)
          (outside_checksum hOffset hEnabled hOrder hNe hBit)]
      · rw [loadShort_storeShort]
        exact wordSum_congr (fun a _ hTo hOutside =>
          hKept a hTo hOutside)
  · next hDisabled =>
      cases hLast
      exact ⟨hHeader, fun hNot => absurd hNot hDisabled⟩

------------------------------------------------------------
-- Restoring the Length
------------------------------------------------------------

/- `computed_total_len` takes the length that was sent. -/
theorem restoreTotalLen_len
    {len : Nat}
    {mem : Memory}
    (hTotal : stack.TotalIs len mem) :
    ∃ mem', stack.restoreTotalLen mem = .ok mem' ∧
      stack.LenIs len mem' ∧
      ∀ a, 4 ≤ a → mem' a = mem a := by
  rcases hTotal with ⟨x, hX, hValue⟩
  refine ⟨IntegerMember.writeType .int mem 0 x, ?_, ?_, ?_⟩
  · rw [restoreTotalLen, hX, ok_bind]
    exact (stack.computedTotalLen_access mem).1 x
  · refine ⟨_, (stack.computedTotalLen_access _).2, ?_⟩
    exact (IntegerMember.readType_writeType .int mem 0 x).trans
      hValue
  · intro a hLe
    exact store_of_outside _ _ (Or.inr hLe)

/- `network_module::hook_ingress` restores the length. -/
theorem networkIngress_len
    {len : Nat}
    {mem : Memory}
    (hIP : stack.isIPCompat = false)
    (hTotal : stack.TotalIs len mem) :
    ∃ mem', stack.networkIngress mem = .ok mem' ∧
      stack.LenIs len mem' ∧
      ∀ a, 4 ≤ a → mem' a = mem a := by
  rw [networkIngress, hIP, if_neg Bool.false_ne_true]
  exact restoreTotalLen_len hTotal

end PacketStack

end NetBlocks
