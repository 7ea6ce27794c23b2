import NetBlocks.Core.NetPacket
import NetBlocks.Correctness.LayoutGeometry
import NetBlocks.Runtime.Endpoint
import Mathlib.Algebra.BigOperators.Ring.List

/-
  The packet layout of a configured stack: which members the
  modules register for each choice of options, and where the
  layout puts them.

  Main declarations:
    * `StackOptions` and `StackMember`
    * `StackOptions.memberCalls` and `StackOptions.netPacket`
    * `StackOptions.registeredMembers_eq`
-/

namespace NetBlocks

open ByteMemory Except

------------------------------------------------------------
-- Groups of a Layout
------------------------------------------------------------

namespace DynamicLayout

variable {ν : Type}

/- The names registered in a group, in order. -/
def groupNames
    (names : List (ν × Nat))
    (group : Nat) : List ν :=
  (names.filter (fun call => call.2 = group)).map Prod.fst

theorem groupNames_append
    (names others : List (ν × Nat))
    (group : Nat) :
    groupNames (names ++ others) group =
      groupNames names group ++ groupNames others group := by
  simp [groupNames]

@[simp] theorem groupNames_nil
    (group : Nat) :
    groupNames ([] : List (ν × Nat)) group = [] :=
  rfl

@[simp] theorem groupNames_cons
    (name : ν)
    (group' : Nat)
    (names : List (ν × Nat))
    (group : Nat) :
    groupNames ((name, group') :: names) group =
      if group' = group then
        name :: groupNames names group
      else
        groupNames names group := by
  by_cases hGroup : group' = group <;>
    simp [groupNames, hGroup]

theorem groupNames_ite
    (c : Prop)
    [Decidable c]
    (names others : List (ν × Nat))
    (group : Nat) :
    groupNames (if c then names else others) group =
      if c then
        groupNames names group
      else
        groupNames others group := by
  split <;> rfl

theorem length_pushName
    (name : ν)
    (groups : List (List ν))
    (group : Nat) :
    (pushName name groups group).length =
      max groups.length (group + 1) := by
  induction groups generalizing group with
  | nil =>
      induction group with
      | zero => rfl
      | succ group ih =>
          rw [pushName, List.length_cons, ih]
          simp
  | cons g groups ih =>
      cases group with
      | zero => simp [pushName]
      | succ group =>
          rw [pushName, List.length_cons, ih, List.length_cons]
          omega

/- A name is appended to its group, and to no other one. -/
theorem getElem?_pushName
    (name : ν)
    (groups : List (List ν))
    (group i : Nat) :
    ((pushName name groups group)[i]?).getD [] =
      (groups[i]?).getD [] ++
        if group = i then [name] else [] := by
  induction groups generalizing group i with
  | nil =>
      induction group generalizing i with
      | zero => cases i <;> simp [pushName]
      | succ group ih =>
          cases i with
          | zero => simp [pushName]
          | succ i => simpa [pushName] using ih i
  | cons g groups ih =>
      cases group with
      | zero => cases i <;> simp [pushName]
      | succ group =>
          cases i with
          | zero => simp [pushName]
          | succ i => simpa [pushName] using ih group i

/- Whole bytes are placed without gaps. -/
theorem offsetAfter_eq_sum
    (layout : DynamicLayout ν)
    {before : List ν}
    (hBytes : ∀ name ∈ before, 8 ∣ layout.sizeOf name)
    (name : ν) :
    layout.offsetAfter before name =
      (before.map layout.sizeOf).sum := by
  induction before generalizing name with
  | nil => rfl
  | cons prev before ih =>
      have hRest := ih (fun other hMem =>
        hBytes other (List.mem_cons_of_mem _ hMem)) prev
      have hSize := hBytes prev (List.mem_cons_self ..)
      have hMod := WellFormed.offsetAfter_mod (fun other hMem =>
        hBytes other (List.mem_cons_of_mem _ hMem)) prev
      rw [offsetAfter, hRest, List.map_cons, List.sum_cons,
        Nat.add_comm (layout.sizeOf prev)]
      rw [hRest] at hMod
      split
      · exact alignTo_of_dvd (by omega)
      · rfl

/-
  Members of whole bytes behind one at a byte boundary are
  placed without gaps.
-/
theorem offsetAfter_append
    (layout : DynamicLayout ν)
    {first : ν}
    {before : List ν}
    (between : List ν)
    (hFirst : layout.offsetAfter before first % 8 = 0)
    (hBytes : ∀ name ∈ first :: between,
      8 ∣ layout.sizeOf name)
    (name : ν) :
    layout.offsetAfter (between ++ first :: before) name =
      layout.offsetAfter before first +
        ((first :: between).map layout.sizeOf).sum := by
  induction between generalizing name with
  | nil =>
      have hSize := hBytes first (List.mem_cons_self ..)
      simp only [List.nil_append, offsetAfter, List.map_cons,
        List.map_nil, List.sum_cons, List.sum_nil,
        Nat.add_zero]
      split
      · exact alignTo_of_dvd (by omega)
      · rfl
  | cons prev between ih =>
      have hRest := ih (fun other hMem => by
        apply hBytes
        simp only [List.mem_cons] at hMem ⊢
        tauto) prev
      have hSize := hBytes prev (by simp)
      have hFirstSize := hBytes first (by simp)
      have hSum : 8 ∣ (between.map layout.sizeOf).sum := by
        apply List.dvd_sum
        intro n hN
        rcases List.mem_map.mp hN with ⟨other, hMem, rfl⟩
        exact hBytes other (by simp [hMem])
      rw [List.cons_append, offsetAfter, hRest]
      simp only [List.map_cons, List.sum_cons]
      split
      · rw [alignTo_of_dvd (by omega)]
        omega
      · omega

/- Each member adds at most its size and a gap. -/
theorem offsetAfter_le
    (layout : DynamicLayout ν)
    {before : List ν}
    {n : Nat}
    (hSizes : ∀ name ∈ before, layout.sizeOf name ≤ n)
    (name : ν) :
    layout.offsetAfter before name ≤
      before.length * (n + 7) := by
  induction before generalizing name with
  | nil => exact Nat.zero_le _
  | cons prev before ih =>
      have hRest := ih (fun other hMem =>
        hSizes other (List.mem_cons_of_mem _ hMem)) prev
      have hSize := hSizes prev (List.mem_cons_self ..)
      have hAlign := alignTo_lt (layout.offsetAfter before prev +
        layout.sizeOf prev)
      rw [offsetAfter, List.length_cons, Nat.succ_mul]
      split <;> omega

section Register

variable [DecidableEq ν]
variable (get : ν → DynamicMember)

/- The registration of names with the members they stand for. -/
def registerAll
    (names : List (ν × Nat)) : DynamicLayout ν :=
  names.foldl (fun layout (name, group) =>
    layout.addMember name (get name) group) empty

theorem registerAll_concat
    (names : List (ν × Nat))
    (name : ν)
    (group : Nat) :
    registerAll get (names ++ [(name, group)]) =
      (registerAll get names).addMember name (get name)
        group := by
  simp [registerAll]

/- The groups up to the last one that is used. -/
theorem registerAll_groups
    (names : List (ν × Nat))
    (i : Nat) :
    ((registerAll get names).registeredMembers[i]?).getD [] =
      groupNames names i := by
  induction names using List.reverseRecOn with
  | nil => rfl
  | append_singleton names call ih =>
      rcases call with ⟨name, group⟩
      rw [registerAll_concat, addMember, getElem?_pushName, ih,
        groupNames_append]
      by_cases hGroup : group = i <;>
        simp [groupNames, hGroup]

theorem length_registerAll
    {names : List (ν × Nat)}
    {n : Nat}
    (hLt : ∀ call ∈ names, call.2 < n) :
    (registerAll get names).registeredMembers.length ≤ n := by
  induction names using List.reverseRecOn with
  | nil => exact Nat.zero_le n
  | append_singleton names call ih =>
      rcases call with ⟨name, group⟩
      have hRest := ih (fun call hMem =>
        hLt call (List.mem_append_left _ hMem))
      have hGroup := hLt (name, group) (by simp)
      rw [registerAll_concat, addMember, length_pushName]
      exact max_le hRest hGroup

theorem le_length_registerAll
    {names : List (ν × Nat)}
    {call : ν × Nat}
    (hMem : call ∈ names) :
    call.2 <
      (registerAll get names).registeredMembers.length := by
  induction names using List.reverseRecOn with
  | nil => cases hMem
  | append_singleton names other ih =>
      rcases other with ⟨name, group⟩
      rw [registerAll_concat, addMember, length_pushName]
      rcases List.mem_append.mp hMem with hMem | hMem
      · have hRest := ih hMem
        omega
      · rw [List.mem_singleton.mp hMem]
        omega

/- A layout has a group for each number up to the last one. -/
theorem registeredMembers_registerAll
    {names : List (ν × Nat)}
    {n : Nat}
    {name : ν}
    (hLt : ∀ call ∈ names, call.2 < n + 1)
    (hMem : (name, n) ∈ names) :
    (registerAll get names).registeredMembers =
      (List.range (n + 1)).map (groupNames names) := by
  have hLength := Nat.le_antisymm
    (length_registerAll get hLt)
    (le_length_registerAll get hMem)
  apply List.ext_getElem
  · rw [hLength, List.length_map, List.length_range]
  · intro i hi hi'
    have hGroup := registerAll_groups get names i
    rw [List.getElem?_eq_getElem hi, Option.getD_some]
      at hGroup
    rw [hGroup, List.getElem_map, List.getElem_range]

/- Each name stands for its own member. -/
theorem membersMap_registerAll
    (names : List (ν × Nat))
    (name : ν) :
    (registerAll get names).membersMap name =
      if name ∈ names.map Prod.fst then
        some (get name)
      else
        none := by
  induction names using List.reverseRecOn with
  | nil => rfl
  | append_singleton names call ih =>
      rcases call with ⟨other, group⟩
      rw [registerAll_concat, addMember]
      by_cases hEq : name = other
      · subst hEq
        simp
      · have hMem : name ∈ (names ++ [(other, group)]).map
            Prod.fst ↔ name ∈ names.map Prod.fst := by
          simp [hEq]
        change Function.update _ other _ name = _
        rw [Function.update_of_ne hEq, ih]
        simp only [hMem]

theorem registerAll_built
    {names : List (ν × Nat)}
    (hNodup : (names.map Prod.fst).Nodup) :
    (registerAll get names).fixLayout.Built := by
  refine ⟨names.map (fun call =>
    (call.1, get call.1, call.2)), ?_, ?_⟩
  · simpa [Function.comp_def] using hNodup
  · simp [registerAll, List.foldl_map]

end Register

end DynamicLayout

------------------------------------------------------------
-- Options
------------------------------------------------------------

/- `compat_level_t` -/
inductive CompatLevel where
| noCompat
| ethCompat
| ipCompat
| udpCompat
| tcpCompat
deriving DecidableEq, Repr

namespace CompatLevel

/- `isEthCompat` -/
def isEthCompat : CompatLevel → Bool
| noCompat => false
| _ => true

/- `isIPCompat` -/
def isIPCompat : CompatLevel → Bool
| ipCompat => true
| udpCompat => true
| tcpCompat => true
| _ => false

/- `isUDPCompat` -/
def isUDPCompat : CompatLevel → Bool
| udpCompat => true
| _ => false

end CompatLevel

/- `checksum_module::checksum_type_t` -/
inductive ChecksumType where
| fullPacket
| headerOnly
deriving DecidableEq, Repr

/-
  The options of the modules that the layout depends on. A
  range that is set is not empty; a maximal length from
  `2 ^ 31` on is negative as an `int`, and counting its bits
  does not end.
-/
structure StackOptions extends Config where
  compatLevel : CompatLevel
  checksumType : ChecksumType
  maxPacketLen : Nat
  hostRangeMin : Nat
  hostRangeMax : Nat
  appRangeMin : Nat
  appRangeMax : Nat
  maxPacketLen_lt : maxPacketLen < 2 ^ 31
  hostRange_lt : hostRangeMin ≠ 0 ∨ hostRangeMax ≠ 0 →
    hostRangeMin < hostRangeMax
  hostRangeMax_lt : hostRangeMax < 2 ^ 64
  appRange_lt : appRangeMin ≠ 0 ∨ appRangeMax ≠ 0 →
    appRangeMin < appRangeMax
  appRangeMax_lt : appRangeMax < 2 ^ 16

------------------------------------------------------------
-- Members
------------------------------------------------------------

/- The members of the compatible headers. -/
inductive CompatField where
| protocolIdentifier
| ipVIDE
| ipTotalLen
| ipIFF
| ipTtl
| ipProtocol
| ipHeaderChecksum
| udpLen
| udpChecksum
deriving DecidableEq, Repr

/- The C type of a member. -/
def CompatField.type : CompatField → IntType
| ipIFF => .unsignedInt
| ipTtl => .unsignedChar
| ipProtocol => .unsignedChar
| _ => .unsignedShort

/- The names the members are registered under. -/
inductive StackMember where
| header (f : Field)
| compat (f : CompatField)
| payload
deriving DecidableEq, Repr

/- The members whose width depends on the options. -/
structure RangedMembers where
  totalLen : IntegerMember
  hostId : IntegerMember
  appId : IntegerMember

/- The `generic_integer_member` of a name. -/
def RangedMembers.get
    (ranged : RangedMembers) : StackMember → IntegerMember
| .header .totalLen => ranged.totalLen
| .header .dstHostId => ranged.hostId
| .header .srcHostId => ranged.hostId
| .header .dstAppId => ranged.appId
| .header .srcAppId => ranged.appId
| .header f => f.member
| .compat f => .ofBits f.type f.type.bits (Nat.le_refl _) true
| .payload => payloadMember

theorem IntType.holds_int
    {n : Nat}
    (hLt : n < 2 ^ 31) :
    IntType.int.Holds n := by
  have hBits : IntType.int.bits - 1 = 31 := rfl
  have hSigned : IntType.int.signed = true := rfl
  simp only [Holds, hBits, hSigned, if_true]
  omega

theorem IntType.holds_unsigned
    {ty : IntType}
    {n : Nat}
    (hUnsigned : ty.signed = false)
    (hLt : n < 2 ^ ty.bits) :
    ty.Holds n := by
  rw [Holds, hUnsigned]
  exact ⟨Int.natCast_nonneg n, by exact_mod_cast hLt⟩

namespace StackOptions

open DynamicLayout

/- `total_len` of `payload_module::init_module` -/
def totalLenMember
    (options : StackOptions) : Except Fault IntegerMember :=
  let m := Field.totalLen.member
  if hSet : options.maxPacketLen ≠ 0 then
    m.setCustomRange (0 : Nat) options.maxPacketLen
      (by exact_mod_cast Nat.pos_of_ne_zero hSet)
      (IntType.holds_int (by decide))
      (IntType.holds_int options.maxPacketLen_lt)
  else
    return m

/- The host ids of `identifier_module::init_module`. -/
def hostIdMember
    (options : StackOptions) : Except Fault IntegerMember :=
  let m := Field.dstHostId.member
  if hSet : options.hostRangeMin ≠ 0 ∨
      options.hostRangeMax ≠ 0 then
    have hLt := options.hostRange_lt hSet
    have hMax := options.hostRangeMax_lt
    do
      let m ← m.setCustomRange
        options.hostRangeMin options.hostRangeMax
        (by exact_mod_cast hLt)
        (IntType.holds_unsigned rfl (hLt.trans hMax))
        (IntType.holds_unsigned rfl hMax)
      return { m with aligned := false }
  else
    return m

/- The application ids of `identifier_module::init_module`. -/
def appIdMember
    (options : StackOptions) : Except Fault IntegerMember :=
  let m := Field.dstAppId.member
  if hSet : options.appRangeMin ≠ 0 ∨
      options.appRangeMax ≠ 0 then
    have hLt := options.appRange_lt hSet
    have hMax := options.appRangeMax_lt
    do
      let m ← m.setCustomRange
        options.appRangeMin options.appRangeMax
        (by exact_mod_cast hLt)
        (IntType.holds_unsigned rfl (hLt.trans hMax))
        (IntType.holds_unsigned rfl hMax)
      return { m with aligned := false }
  else
    return m

/- The members with their custom ranges. -/
def rangedMembers
    (options : StackOptions) : Except Fault RangedMembers := do
  let totalLen ← options.totalLenMember
  let hostId ← options.hostIdMember
  let appId ← options.appIdMember
  return { totalLen, hostId, appId }

------------------------------------------------------------
-- Registration
------------------------------------------------------------

/- `interface_module::init_module` -/
def interfaceMembers : List (StackMember × Nat) :=
  [(.header .computedTotalLen, 0)]

/- `payload_module::init_module` -/
def payloadMembers
    (options : StackOptions) : List (StackMember × Nat) :=
  [(.payload, 5)] ++
    if options.compatLevel.isIPCompat then
      []
    else
      [(.header .totalLen, 4)]

/- `signaling_module::init_module` -/
def signalingMembers : List (StackMember × Nat) :=
  [(.header .isSignaling, 0)]

/- Whether packets are numbered. -/
def isNumbered
    (options : StackOptions) : Bool :=
  options.inorderStrategy ≠ .noInorder ||
    options.reliableEnabled

/- `inorder_module::init_module` -/
def inorderMembers
    (options : StackOptions) : List (StackMember × Nat) :=
  if options.isNumbered then
    [(.header .sequenceNumber, 4)]
  else
    []

/- `reliable_module::init_module` -/
def reliableMembers
    (options : StackOptions) : List (StackMember × Nat) :=
  if options.reliableEnabled then
    [(.header .ackSequenceNumber, 4),
      (.header .redeliveryTimer, 0)]
  else
    []

/- `identifier_module::init_module` -/
def identifierMembers
    (options : StackOptions) : List (StackMember × Nat) :=
  [(.header .flowIdentifier, 0),
    (.header .dstHostId, 1), (.header .srcHostId, 1)] ++
  (if options.compatLevel.isEthCompat then
    [(.compat .protocolIdentifier, 1)]
  else
    []) ++
  [(.header .dstAppId, 3), (.header .srcAppId, 3)] ++
  (if options.compatLevel.isUDPCompat then
    [(.compat .udpLen, 3), (.compat .udpChecksum, 3)]
  else
    [])

/- `routing_module::init_module` -/
def routingMembers
    (options : StackOptions) : List (StackMember × Nat) :=
  if options.routingEnabled then
    (if options.compatLevel.isIPCompat then
      [(.compat .ipVIDE, 2), (.compat .ipTotalLen, 2),
        (.compat .ipIFF, 2), (.compat .ipTtl, 2),
        (.compat .ipProtocol, 2),
        (.compat .ipHeaderChecksum, 2)]
    else
      []) ++
    [(.header .dstGlobalId, 2), (.header .srcGlobalId, 2)]
  else
    []

/- `checksum_module::init_module` -/
def checksumMembers
    (options : StackOptions) : List (StackMember × Nat) :=
  if options.checksumEnabled then
    [(.header .checksum, 4)]
  else
    []

/- The members and groups, in order of initialization. -/
def memberCalls
    (options : StackOptions) : List (StackMember × Nat) :=
  interfaceMembers ++ options.payloadMembers ++
    signalingMembers ++ options.inorderMembers ++
    options.reliableMembers ++ options.identifierMembers ++
    options.routingMembers ++ options.checksumMembers

/- `net_packet` with its members, once its layout is fixed -/
def layout
    (options : StackOptions)
    (ranged : RangedMembers) : DynamicLayout StackMember :=
  (DynamicLayout.registerAll
    (fun name => .integer (ranged.get name))
    options.memberCalls).fixLayout

/- `net_packet`, as the modules and `main` set it up -/
def netPacket
    (options : StackOptions) :
    Except Fault (DynamicLayout StackMember) := do
  let ranged ← options.rangedMembers
  return options.layout ranged

------------------------------------------------------------
-- The Groups of a Stack
------------------------------------------------------------

theorem payload_mem
    (options : StackOptions) :
    (.payload, 5) ∈ options.memberCalls := by
  simp [memberCalls, payloadMembers]

/- No name is registered twice, whatever the options. -/
theorem memberCalls_nodup
    (options : StackOptions) :
    (options.memberCalls.map Prod.fst).Nodup := by
  have hPayload : (options.payloadMembers.map
      Prod.fst).Sublist [.payload, .header .totalLen] := by
    unfold payloadMembers
    split <;> decide
  have hInorder : (options.inorderMembers.map
      Prod.fst).Sublist [.header .sequenceNumber] := by
    unfold inorderMembers
    split <;> decide
  have hReliable : (options.reliableMembers.map
      Prod.fst).Sublist [.header .ackSequenceNumber,
        .header .redeliveryTimer] := by
    unfold reliableMembers
    split <;> decide
  have hIdentifier : (options.identifierMembers.map
      Prod.fst).Sublist [.header .flowIdentifier,
        .header .dstHostId, .header .srcHostId,
        .compat .protocolIdentifier, .header .dstAppId,
        .header .srcAppId, .compat .udpLen,
        .compat .udpChecksum] := by
    unfold identifierMembers
    split <;> split <;> decide
  have hRouting : (options.routingMembers.map
      Prod.fst).Sublist [.compat .ipVIDE, .compat .ipTotalLen,
        .compat .ipIFF, .compat .ipTtl, .compat .ipProtocol,
        .compat .ipHeaderChecksum, .header .dstGlobalId,
        .header .srcGlobalId] := by
    unfold routingMembers
    split
    · split <;> decide
    · decide
  have hChecksum : (options.checksumMembers.map
      Prod.fst).Sublist [.header .checksum] := by
    unfold checksumMembers
    split <;> decide
  have hInterface :=
    List.Sublist.refl (interfaceMembers.map Prod.fst)
  have hSignaling :=
    List.Sublist.refl (signalingMembers.map Prod.fst)
  have hAll := ((((((hInterface.append hPayload).append
    hSignaling).append hInorder).append hReliable).append
    hIdentifier).append hRouting).append hChecksum
  simp only [memberCalls, List.map_append]
  exact List.Nodup.sublist hAll (by decide)

/- Group 0, the members that are not sent. -/
def localGroup
    (options : StackOptions) : List StackMember :=
  [.header .computedTotalLen, .header .isSignaling] ++
  (if options.reliableEnabled then
    [.header .redeliveryTimer]
  else
    []) ++
  [.header .flowIdentifier]

/- Group 1, the link header. -/
def linkGroup
    (options : StackOptions) : List StackMember :=
  [.header .dstHostId, .header .srcHostId] ++
    if options.compatLevel.isEthCompat then
      [.compat .protocolIdentifier]
    else
      []

/- Group 2, the network header. -/
def networkGroup
    (options : StackOptions) : List StackMember :=
  if options.routingEnabled then
    (if options.compatLevel.isIPCompat then
      [.compat .ipVIDE, .compat .ipTotalLen, .compat .ipIFF,
        .compat .ipTtl, .compat .ipProtocol,
        .compat .ipHeaderChecksum]
    else
      []) ++
    [.header .dstGlobalId, .header .srcGlobalId]
  else
    []

/- Group 3, the transport header. -/
def transportGroup
    (options : StackOptions) : List StackMember :=
  [.header .dstAppId, .header .srcAppId] ++
    if options.compatLevel.isUDPCompat then
      [.compat .udpLen, .compat .udpChecksum]
    else
      []

/- Group 4, the members of the stack's own protocols. -/
def protocolGroup
    (options : StackOptions) : List StackMember :=
  (if options.compatLevel.isIPCompat then
    []
  else
    [.header .totalLen]) ++
  (if options.isNumbered then
    [.header .sequenceNumber]
  else
    []) ++
  (if options.reliableEnabled then
    [.header .ackSequenceNumber]
  else
    []) ++
  (if options.checksumEnabled then
    [.header .checksum]
  else
    [])

/- The members that are sent before the payload. -/
def wireMembers
    (options : StackOptions) : List StackMember :=
  options.linkGroup ++ options.networkGroup ++
    options.transportGroup ++ options.protocolGroup

theorem memberCalls_lt
    (options : StackOptions) :
    ∀ call ∈ options.memberCalls, call.2 < 6 := by
  simp only [memberCalls, List.forall_mem_append]
  refine ⟨⟨⟨⟨⟨⟨⟨?_, ?_⟩, ?_⟩, ?_⟩, ?_⟩, ?_⟩, ?_⟩, ?_⟩
  · decide
  · unfold payloadMembers
    split <;> decide
  · decide
  · unfold inorderMembers
    split <;> decide
  · unfold reliableMembers
    split <;> decide
  · unfold identifierMembers
    split <;> split <;> decide
  · unfold routingMembers
    split
    · split <;> decide
    · decide
  · unfold checksumMembers
    split <;> decide

theorem registeredMembers_eq
    (options : StackOptions)
    (ranged : RangedMembers) :
    (options.layout ranged).registeredMembers =
      [options.localGroup, options.linkGroup,
        options.networkGroup, options.transportGroup,
        options.protocolGroup, [.payload]] := by
  have hGroups : ∀ i, groupNames options.memberCalls i =
      groupNames interfaceMembers i ++
        groupNames options.payloadMembers i ++
        groupNames signalingMembers i ++
        groupNames options.inorderMembers i ++
        groupNames options.reliableMembers i ++
        groupNames options.identifierMembers i ++
        groupNames options.routingMembers i ++
        groupNames options.checksumMembers i := by
    intro i
    simp only [memberCalls, groupNames_append]
  refine (registeredMembers_registerAll _
    options.memberCalls_lt options.payload_mem).trans ?_
  simp only [List.range_succ, List.range_zero, List.nil_append,
    List.cons_append, List.map_cons, List.map_nil, hGroups]
  simp [interfaceMembers, payloadMembers, signalingMembers,
    inorderMembers, reliableMembers, identifierMembers,
    routingMembers, checksumMembers, groupNames_append,
    groupNames_ite, localGroup, linkGroup, networkGroup,
    transportGroup, protocolGroup]

theorem layout_built
    (options : StackOptions)
    (ranged : RangedMembers) :
    (options.layout ranged).Built :=
  registerAll_built _ options.memberCalls_nodup

/- The members in the order of their places. -/
theorem order_eq
    (options : StackOptions)
    (ranged : RangedMembers) :
    (options.layout ranged).order =
      options.localGroup ++
        (options.wireMembers ++ [.payload]) := by
  simp [order, registeredMembers_eq, wireMembers]

/- The layout has the member that a name stands for. -/
theorem membersMap_eq
    {options : StackOptions}
    {ranged : RangedMembers}
    {name : StackMember}
    (hMem : name ∈ (options.layout ranged).order) :
    (options.layout ranged).membersMap name =
      some (.integer (ranged.get name)) := by
  have hMapped := ((options.layout_built
    ranged).wellFormed.mapped name).mp hMem
  have hMap := membersMap_registerAll
    (fun name => .integer (ranged.get name))
    options.memberCalls name
  have hSame : (options.layout ranged).membersMap name =
      (registerAll (fun name => .integer (ranged.get name))
        options.memberCalls).membersMap name := rfl
  rw [hSame, hMap] at hMapped
  rw [hSame, hMap, if_pos]
  by_contra hNot
  exact hMapped (if_neg hNot)

theorem sizeOf_eq
    {options : StackOptions}
    {ranged : RangedMembers}
    {name : StackMember}
    (hMem : name ∈ (options.layout ranged).order) :
    (options.layout ranged).sizeOf name =
      (ranged.get name).bitSize := by
  simp [DynamicLayout.sizeOf, membersMap_eq hMem, DynamicMember.size]

theorem alignedOf_eq
    {options : StackOptions}
    {ranged : RangedMembers}
    {name : StackMember}
    (hMem : name ∈ (options.layout ranged).order) :
    (options.layout ranged).alignedOf name =
      (ranged.get name).aligned := by
  simp [alignedOf, membersMap_eq hMem, DynamicMember.aligned]

------------------------------------------------------------
-- Places
------------------------------------------------------------

/- The bytes of group 0 -/
def headroom
    (options : StackOptions) : Nat :=
  if options.reliableEnabled then 24 else 16

/- Where the members of group 0 are, in bits. -/
def localStart
    (options : StackOptions) : Field → Nat
| .isSignaling => 32
| .redeliveryTimer => 64
| .flowIdentifier => 8 * options.headroom - 64
| _ => 0

section Places

variable
    (options : StackOptions)
    (ranged : RangedMembers)

/- The members of group 0, and the first one behind them. -/
theorem local_places :
    (∀ f, .header f ∈ options.localGroup →
      (options.layout ranged).offset (.header f) =
        .ok (options.localStart f)) ∧
      (options.layout ranged).offset (.header .dstHostId) =
        .ok (8 * options.headroom) := by
  have hLayout := (options.layout_built ranged).wellFormed
  have hOrder := options.order_eq ranged
  have hSize : ∀ f, .header f ∈ options.localGroup →
      (options.layout ranged).sizeOf (.header f) =
        f.bits := by
    intro f hMem
    have hIn : .header f ∈ (options.layout ranged).order := by
      rw [hOrder]
      exact List.mem_append_left _ hMem
    rw [sizeOf_eq hIn]
    cases f <;> simp [localGroup] at hMem <;> rfl
  -- a member behind members of group 0 only
  have hPlace : ∀ (fs : List Field) name ys,
      options.localGroup ++
          (options.wireMembers ++ [.payload]) =
        fs.map .header ++ name :: ys →
      (∀ f ∈ fs, .header f ∈ options.localGroup) →
      (options.layout ranged).offset name =
        .ok (fs.map Field.bits).sum := by
    intro fs name ys hSplit hLocal
    have hBits : ∀ name ∈ (fs.map StackMember.header).reverse,
        8 ∣ (options.layout ranged).sizeOf name := by
      intro name hMem
      rw [List.mem_reverse] at hMem
      rcases List.mem_map.mp hMem with ⟨f, hF, rfl⟩
      rw [hSize f (hLocal f hF)]
      cases f <;> decide
    have hSum : (fs.map StackMember.header).map
        (options.layout ranged).sizeOf = fs.map Field.bits := by
      rw [List.map_map]
      exact List.map_congr_left
        (fun f hF => hSize f (hLocal f hF))
    rw [hLayout.offset_eq (hOrder.trans hSplit),
      offsetAfter_eq_sum _ hBits, List.map_reverse,
      List.sum_reverse, hSum]
  have hWire : ∃ rest, options.wireMembers ++ [.payload] =
      .header .dstHostId :: rest :=
    ⟨_, rfl⟩
  rcases hWire with ⟨rest, hWire⟩
  rw [hWire] at hPlace
  cases hReliable : options.reliableEnabled with
  | true =>
      have hGroup : options.localGroup =
          [.header .computedTotalLen, .header .isSignaling,
            .header .redeliveryTimer,
            .header .flowIdentifier] := by
        simp [localGroup, hReliable]
      rw [hGroup] at hPlace ⊢
      simp only [localStart, headroom, hReliable, if_true]
      refine ⟨?_, hPlace [.computedTotalLen, .isSignaling,
        .redeliveryTimer, .flowIdentifier] _ _ rfl (by simp)⟩
      intro f hMem
      simp only [List.mem_cons, List.not_mem_nil, or_false,
        StackMember.header.injEq] at hMem
      rcases hMem with rfl | rfl | rfl | rfl
      · exact hPlace [] _ _ rfl (by simp)
      · exact hPlace [.computedTotalLen] _ _ rfl (by simp)
      · exact hPlace [.computedTotalLen, .isSignaling] _ _ rfl
          (by simp)
      · exact hPlace [.computedTotalLen, .isSignaling,
          .redeliveryTimer] _ _ rfl (by simp)
  | false =>
      have hGroup : options.localGroup =
          [.header .computedTotalLen, .header .isSignaling,
            .header .flowIdentifier] := by
        simp [localGroup, hReliable]
      rw [hGroup] at hPlace ⊢
      simp only [localStart, headroom, hReliable,
        Bool.false_eq_true, if_false]
      refine ⟨?_, hPlace [.computedTotalLen, .isSignaling,
        .flowIdentifier] _ _ rfl (by simp)⟩
      intro f hMem
      simp only [List.mem_cons, List.not_mem_nil, or_false,
        StackMember.header.injEq] at hMem
      rcases hMem with rfl | rfl | rfl
      · exact hPlace [] _ _ rfl (by simp)
      · exact hPlace [.computedTotalLen] _ _ rfl (by simp)
      · exact hPlace [.computedTotalLen, .isSignaling] _ _ rfl
          (by simp)

theorem getHeadroom_eq :
    (options.layout ranged).getHeadroom =
      .ok options.headroom := by
  have hFirst := (options.local_places ranged).2
  rw [getHeadroom, groupStartOffset, registeredMembers_eq]
  change ((options.layout ranged).offset (.header .dstHostId) >>=
    _) = _
  rw [hFirst, ok_bind, pure_eq_ok]
  congr 1
  omega

variable {options ranged}

theorem mem_order_of_wire
    {name : StackMember}
    (hMem : name ∈ options.wireMembers) :
    name ∈ (options.layout ranged).order := by
  rw [order_eq]
  exact List.mem_append_right _ (List.mem_append_left _ hMem)

theorem mem_order_of_local
    {name : StackMember}
    (hMem : name ∈ options.localGroup) :
    name ∈ (options.layout ranged).order := by
  rw [order_eq]
  exact List.mem_append_left _ hMem

theorem payload_mem_order :
    .payload ∈ (options.layout ranged).order := by
  simp [order_eq]

/- The payload is at the last byte that the layout counts. -/
theorem payload_place
    {size : Nat}
    (hSize : (options.layout ranged).getTotalSize =
      .ok size) :
    (options.layout ranged).offset .payload =
        .ok (8 * (size - 1)) ∧
      0 < size := by
  have hMem : .payload ∈ (options.layout ranged).order :=
    payload_mem_order
  have hLast : (options.layout ranged).order.getLast? =
      some .payload := by
    rw [order_eq, ← List.append_assoc]
    exact List.getLast?_concat
  rcases (options.layout_built ranged).wellFormed.last hLast
      (alignedOf_eq hMem) (sizeOf_eq hMem) with
    ⟨n, hOffset, hTotal⟩
  cases hSize.symm.trans hTotal
  exact ⟨hOffset, Nat.succ_pos n⟩

/- The members sent are between the headroom and the payload. -/
theorem wire_place
    {size : Nat}
    {name : StackMember}
    (hSize : (options.layout ranged).getTotalSize = .ok size)
    (hMem : name ∈ options.wireMembers) :
    ∃ o, (options.layout ranged).offset name = .ok o ∧
      8 * options.headroom ≤ o ∧
      o + (ranged.get name).bitSize ≤ 8 * (size - 1) := by
  have hLayout := (options.layout_built ranged).wellFormed
  have hOrder := options.order_eq ranged
  have hIn : name ∈ (options.layout ranged).order :=
    mem_order_of_wire hMem
  rcases List.append_of_mem hMem with ⟨xs, ys, hWire⟩
  have hPayload : (options.layout ranged).Precedes name
      .payload := by
    have hSplit : (options.layout ranged).order =
        (options.localGroup ++ xs) ++
          name :: (ys ++ .payload :: []) := by
      rw [hOrder, hWire]
      simp
    exact hLayout.precedes hSplit
  rcases hPayload with ⟨o, o', hOffset, hOffset', hLe⟩
  rw [sizeOf_eq hIn] at hLe
  cases (payload_place hSize).1.symm.trans hOffset'
  refine ⟨o, hOffset, ?_, hLe⟩
  have hDst := (options.local_places ranged).2
  cases xs with
  | nil =>
      have hFirst : options.wireMembers =
          .header .dstHostId :: options.wireMembers.tail :=
        rfl
      rw [hFirst] at hWire
      cases (List.cons.inj hWire).1
      cases hOffset.symm.trans hDst
      exact Nat.le_refl _
  | cons first xs =>
      have hFirst : options.wireMembers =
          .header .dstHostId :: options.wireMembers.tail :=
        rfl
      have hSplit : (options.layout ranged).order =
          options.localGroup ++ .header .dstHostId ::
            (xs ++ name :: (ys ++ [.payload])) := by
        rw [hFirst] at hWire
        cases (List.cons.inj hWire).1
        rw [hOrder, hFirst, (List.cons.inj hWire).2]
        simp
      rcases hLayout.precedes hSplit with
        ⟨p, p', hP, hP', hLe'⟩
      cases hDst.symm.trans hP
      cases hOffset.symm.trans hP'
      omega

/- There are few members, and none of them is large. -/
theorem size_le
    {size : Nat}
    (hSize : (options.layout ranged).getTotalSize =
      .ok size) :
    size ≤ 205 := by
  have hOrder := options.order_eq ranged
  have hLength : (options.localGroup ++
      options.wireMembers).length ≤ 23 := by
    simp only [localGroup, wireMembers, linkGroup,
      networkGroup, transportGroup, protocolGroup,
      List.length_append, List.length_cons, List.length_nil]
    split_ifs <;> simp
  rw [← List.append_assoc] at hOrder
  have hSizes : ∀ name ∈ (options.localGroup ++
      options.wireMembers).reverse,
      (options.layout ranged).sizeOf name ≤ 64 := by
    intro name hMem
    have hIn : name ∈ (options.layout ranged).order := by
      rw [hOrder]
      exact List.mem_append_left _ (List.mem_reverse.mp hMem)
    rw [sizeOf_eq hIn]
    exact (ranged.get name).bitSize_le.trans
      (ranged.get name).type.bits_le
  have hOffset := (options.layout_built
    ranged).wellFormed.offset_eq hOrder
  have hPlace := payload_place hSize
  have hLe := offsetAfter_le (options.layout ranged) hSizes
    .payload
  have hSame := Except.ok.inj (hPlace.1.symm.trans hOffset)
  rw [List.length_reverse, ← hSame] at hLe
  omega

theorem headroom_lt
    {size : Nat}
    (hSize : (options.layout ranged).getTotalSize =
      .ok size) :
    options.headroom < size := by
  have hFirst : .header .dstHostId ∈ options.wireMembers :=
    List.mem_cons_self ..
  rcases wire_place hSize hFirst with ⟨o, -, hFrom, hTo⟩
  have hPos := (payload_place hSize).2
  omega

end Places

------------------------------------------------------------
-- Stacks Without Custom Ranges
------------------------------------------------------------

theorem maxPacketLen_unset : 0 < 2 ^ 31 := by decide

theorem hostRange_unset : 0 < 2 ^ 64 := by decide

theorem appRange_unset : 0 < 2 ^ 16 := by decide

theorem range_unset :
    0 ≠ 0 ∨ 0 ≠ 0 → 0 < 0 :=
  fun hSet => absurd rfl (hSet.elim id id)

/- The options of a stack whose ranges are not set. -/
def plain
    (cfg : Config)
    (compatLevel : CompatLevel)
    (checksumType : ChecksumType) : StackOptions where
  toConfig := cfg
  compatLevel := compatLevel
  checksumType := checksumType
  maxPacketLen := 0
  hostRangeMin := 0
  hostRangeMax := 0
  appRangeMin := 0
  appRangeMax := 0
  maxPacketLen_lt := maxPacketLen_unset
  hostRange_lt := range_unset
  hostRangeMax_lt := hostRange_unset
  appRange_lt := range_unset
  appRangeMax_lt := appRange_unset

/- The members of such a stack fill their widths. -/
def plainMembers : RangedMembers where
  totalLen := Field.totalLen.member
  hostId := Field.dstHostId.member
  appId := Field.dstAppId.member

theorem plain_rangedMembers
    (cfg : Config)
    (compatLevel : CompatLevel)
    (checksumType : ChecksumType) :
    (plain cfg compatLevel checksumType).rangedMembers =
      .ok plainMembers :=
  rfl

/- Every module is enabled, as `main` configures them. -/
def simpleConfig : Config where
  flowIdentifier := .srcDstIdentifier
  inorderStrategy := .holdForever
  reliableEnabled := true
  signalingEnabled := true
  routingEnabled := true
  checksumEnabled := true

/- The layout of this stack is the one fixed elsewhere. -/
theorem simple_offset
    (f : Field) :
    ((plain simpleConfig .noCompat .fullPacket).layout
      plainMembers).offset (.header f) =
        NetBlocks.netPacket.offset (.header f) := by
  rw [netPacket_offset]
  cases f <;> decide

end StackOptions

end NetBlocks
