import NetBlocks.Core.IntegerMemberSpec
import Mathlib.Data.List.Nodup

/-
  The programmable packet layout: members are registered in
  groups, linked to their predecessors, and placed one after
  the other.

  Main declarations:
    * `DynamicLayout` and its operations
    * `DynamicLayout.Built`
    * `DynamicLayout.offset_eq`
    * `DynamicLayout.keeps_iff`
-/

namespace NetBlocks

open ByteMemory Except

------------------------------------------------------------
-- Layouts
------------------------------------------------------------

/- `align_to`, for an alignment of one byte -/
def alignTo
    (v : Nat) : Nat :=
  (v + 8 - 1) / 8 * 8

theorem le_alignTo
    (v : Nat) :
    v ≤ alignTo v := by
  unfold alignTo
  omega

/- The two kinds of members. -/
inductive DynamicMember where
| integer (m : IntegerMember)
| byteArray (len : Nat) (aligned : Bool)

namespace DynamicMember

/- `get_size`, in bits -/
def size : DynamicMember → Nat
| integer m => m.bitSize
| byteArray len _ => len * 8

/- `m_flags & member_flags::aligned` -/
def aligned : DynamicMember → Bool
| integer m => m.aligned
| byteArray _ aligned => aligned

end DynamicMember

/-
  `dynamic_layout`. A member is known by the name it is
  registered under, and `prev` is its `m_prev`.
-/
structure DynamicLayout (ν : Type) where
  registeredMembers : List (List ν)
  membersMap : ν → Option DynamicMember
  prev : ν → Option ν

namespace DynamicLayout

variable {ν : Type} [DecidableEq ν]

/- A layout without members. -/
def empty : DynamicLayout ν where
  registeredMembers := []
  membersMap := fun _ => none
  prev := fun _ => none

/- Append a name to a group, making the groups up to it. -/
def pushName
    (name : ν) :
    List (List ν) → Nat → List (List ν)
| [], 0 => [[name]]
| [], group + 1 => [] :: pushName name [] group
| g :: groups, 0 => (g ++ [name]) :: groups
| g :: groups, group + 1 => g :: pushName name groups group

/- `dynamic_layout::add_member` -/
def addMember
    (layout : DynamicLayout ν)
    (name : ν)
    (m : DynamicMember)
    (group : Nat) : DynamicLayout ν :=
  { layout with
    registeredMembers :=
      pushName name layout.registeredMembers group
    membersMap :=
      Function.update layout.membersMap name (some m) }

/- The members by group, and by registration in a group. -/
def order
    (layout : DynamicLayout ν) : List ν :=
  layout.registeredMembers.flatten

/- The loop of `fix_layout`, after the member `last`. -/
def linkPrev :
    Option ν → List ν → (ν → Option ν) → ν → Option ν
| _, [], prev => prev
| last, name :: names, prev =>
    linkPrev (some name) names
      (Function.update prev name last)

/- `dynamic_layout::fix_layout` -/
def fixLayout
    (layout : DynamicLayout ν) : DynamicLayout ν :=
  { layout with
    prev := linkPrev none layout.order layout.prev }

/- `operator[]` -/
def member
    (layout : DynamicLayout ν)
    (name : ν) : Except Fault DynamicMember :=
  match layout.membersMap name with
  | none =>
      .error (.assertion
        "Requested member not found in layout")
  | some m => .ok m

/-
  `get_offset`, in bits. It calls itself on the previous
  member, and a layout has no more members than the fuel.
-/
def getOffset
    (layout : DynamicLayout ν) :
    Nat → ν → Except Fault Nat
| 0, _ => .error .diverges
| fuel + 1, name => do
    let m ← layout.member name
    match layout.prev name with
    | none => return 0
    | some prev =>
        let prevOffset ← layout.getOffset fuel prev
        let prevMember ← layout.member prev
        let start := prevOffset + prevMember.size
        return if m.aligned then alignTo start else start

/- The offset of a member in bits. -/
def offset
    (layout : DynamicLayout ν)
    (name : ν) : Except Fault Nat :=
  layout.getOffset layout.order.length name

/- `set_integer` of a member by name -/
def setInteger
    (layout : DynamicLayout ν)
    (name : ν)
    (v : BitVec 64)
    (mem : Memory) : Except Fault Memory := do
  match ← layout.member name with
  | .integer m =>
      let offset ← layout.offset name
      m.setInteger offset mem v
  | .byteArray _ _ =>
      throw (.assertion
        "Set integer not implemented for dynamic member type")

/- `get_integer` of a member by name -/
def getInteger
    (layout : DynamicLayout ν)
    (name : ν)
    (mem : Memory) : Except Fault (BitVec 64) := do
  match ← layout.member name with
  | .integer m =>
      let offset ← layout.offset name
      m.getInteger offset mem
  | .byteArray _ _ =>
      throw (.assertion
        "Get integer not implemented for dynamic member type")

/- `get_total_size`, in bytes -/
def getTotalSize
    (layout : DynamicLayout ν) : Except Fault Nat := do
  match layout.order.getLast? with
  | none => throw .outOfBounds
  | some last =>
      let m ← layout.member last
      let offset ← layout.offset last
      return alignTo (offset + m.size) / 8

/- `group_start_offset`, in bytes -/
def groupStartOffset
    (layout : DynamicLayout ν)
    (group : Nat) : Except Fault Nat :=
  match layout.registeredMembers[group]? with
  | some (name :: _) => do
      let offset ← layout.offset name
      return offset / 8
  | _ => .error .outOfBounds

/- `get_headroom`: the bytes that are not sent -/
def getHeadroom
    (layout : DynamicLayout ν) : Except Fault Nat :=
  layout.groupStartOffset 1

/-
  The layouts the program builds: distinct names are added,
  and then the layout is fixed.
-/
def Built
    (layout : DynamicLayout ν) : Prop :=
  ∃ calls : List (ν × DynamicMember × Nat),
    (calls.map Prod.fst).Nodup ∧
      layout = (calls.foldl (fun layout (name, m, group) =>
        layout.addMember name m group) empty).fixLayout

------------------------------------------------------------
-- The Order of a Built Layout
------------------------------------------------------------

omit [DecidableEq ν] in
theorem pushName_flatten
    (name : ν)
    (groups : List (List ν))
    (group : Nat) :
    (pushName name groups group).flatten.Perm
      (name :: groups.flatten) := by
  induction groups generalizing group with
  | nil =>
      induction group with
      | zero => simp [pushName]
      | succ group ih => simpa [pushName] using ih
  | cons g groups ih =>
      cases group with
      | zero =>
          simp only [pushName, List.flatten_cons,
            List.append_assoc, List.singleton_append]
          exact List.perm_middle
      | succ group =>
          simp only [pushName, List.flatten_cons]
          exact ((ih group).append_left g).trans
            List.perm_middle

/- Names not linked keep their predecessor. -/
theorem linkPrev_of_notMem
    {last : Option ν}
    {names : List ν}
    {prev : ν → Option ν}
    {name : ν}
    (hNotMem : name ∉ names) :
    linkPrev last names prev name = prev name := by
  induction names generalizing last prev with
  | nil => rfl
  | cons n names ih =>
      rw [List.mem_cons, not_or] at hNotMem
      rw [linkPrev, ih hNotMem.2,
        Function.update_of_ne hNotMem.1]

/- Every name is linked to the one before it. -/
theorem linkPrev_append
    (last : Option ν)
    (xs : List ν)
    (name : ν)
    (ys : List ν)
    (prev : ν → Option ν)
    (hNodup : (xs ++ name :: ys).Nodup) :
    linkPrev last (xs ++ name :: ys) prev name =
      xs.getLast?.or last := by
  induction xs generalizing last prev with
  | nil =>
      have hNotMem := (List.nodup_cons.mp hNodup).1
      rw [List.nil_append, linkPrev,
        linkPrev_of_notMem hNotMem, Function.update_self]
      rfl
  | cons x xs ih =>
      rw [List.cons_append, linkPrev,
        ih _ _ (List.nodup_cons.mp hNodup).2]
      simp [List.getLast?_cons]

/- What is known of a layout once it is fixed. -/
structure WellFormed
    (layout : DynamicLayout ν) : Prop where
  nodup : layout.order.Nodup
  mapped : ∀ name,
    name ∈ layout.order ↔ layout.membersMap name ≠ none
  linked : ∀ xs name ys, layout.order = xs ++ name :: ys →
    layout.prev name = xs.getLast?

theorem Built.wellFormed
    {layout : DynamicLayout ν}
    (hBuilt : layout.Built) :
    layout.WellFormed := by
  rcases hBuilt with ⟨calls, hNodup, rfl⟩
  -- before the layout is fixed, no member has a predecessor
  have hCalls : ∀ (calls : List (ν × DynamicMember × Nat))
      (start : DynamicLayout ν),
      (start.order ++ calls.map Prod.fst).Nodup →
      (∀ name, name ∈ start.order ↔
        start.membersMap name ≠ none) →
      let built := calls.foldl (fun layout (name, m, group) =>
        layout.addMember name m group) start
      built.order.Nodup ∧
        (∀ name, name ∈ built.order ↔
          built.membersMap name ≠ none) := by
    intro calls
    induction calls with
    | nil =>
        intro start hNodup hMapped
        exact ⟨by simpa using hNodup, hMapped⟩
    | cons call calls ih =>
        intro start hNodup hMapped
        rcases call with ⟨name, m, group⟩
        have hPerm : (start.addMember name m group).order.Perm
            (name :: start.order) :=
          pushName_flatten name start.registeredMembers group
        apply ih (start.addMember name m group)
        · have hMiddle := hPerm.append_right
            (calls.map Prod.fst)
          rw [hMiddle.nodup_iff]
          exact List.perm_middle.nodup_iff.mp hNodup
        · intro other
          rw [hPerm.mem_iff, List.mem_cons, hMapped other]
          by_cases hEq : other = name
          · simp [hEq, addMember]
          · simp [hEq, addMember]
  rcases hCalls calls empty (by simpa [order, empty] using
      hNodup) (by simp [order, empty]) with
    ⟨hOrder, hMapped⟩
  refine ⟨hOrder, hMapped, ?_⟩
  intro xs name ys hSplit
  simp only [fixLayout, order] at hSplit hOrder ⊢
  rw [hSplit] at hOrder ⊢
  rw [linkPrev_append none xs name ys _ hOrder,
    Option.or_none]

------------------------------------------------------------
-- Offsets
------------------------------------------------------------

/- The size of the member of a name. -/
def sizeOf
    (layout : DynamicLayout ν)
    (name : ν) : Nat :=
  ((layout.membersMap name).map DynamicMember.size).getD 0

/- Whether the member of a name is aligned. -/
def alignedOf
    (layout : DynamicLayout ν)
    (name : ν) : Bool :=
  ((layout.membersMap name).map
    DynamicMember.aligned).getD false

/-
  The offset of a member behind the ones listed, the nearest
  of them first.
-/
def offsetAfter
    (layout : DynamicLayout ν) : List ν → ν → Nat
| [], _ => 0
| prev :: before, name =>
    let start :=
      layout.offsetAfter before prev + layout.sizeOf prev
    if layout.alignedOf name then alignTo start else start

omit [DecidableEq ν] in
/- A member starts behind the ones before it. -/
theorem offsetAfter_ge
    (layout : DynamicLayout ν)
    (between : List ν)
    (other : ν)
    (before : List ν)
    (name : ν) :
    layout.offsetAfter before other + layout.sizeOf other ≤
      layout.offsetAfter (between ++ other :: before)
        name := by
  induction between generalizing name with
  | nil =>
      rw [List.nil_append, offsetAfter]
      split
      · exact le_alignTo _
      · exact le_refl _
  | cons prev between ih =>
      have hPrev := ih prev
      rw [List.cons_append, offsetAfter]
      have hStart := hPrev.trans
        (Nat.le_add_right _ (layout.sizeOf prev))
      split
      · exact hStart.trans (le_alignTo _)
      · exact hStart

namespace WellFormed

variable
    {layout : DynamicLayout ν}
    (hLayout : layout.WellFormed)

include hLayout

omit [DecidableEq ν] in
theorem member_of_mem
    {name : ν}
    (hMem : name ∈ layout.order) :
    ∃ m, layout.member name = .ok m ∧
      layout.sizeOf name = m.size ∧
      layout.alignedOf name = m.aligned := by
  have hMapped := (hLayout.mapped name).mp hMem
  unfold member sizeOf alignedOf
  cases hMember : layout.membersMap name with
  | none => exact absurd hMember hMapped
  | some m => exact ⟨m, rfl, rfl, rfl⟩

omit [DecidableEq ν] in
/- `get_offset` places a member behind the ones before it. -/
theorem getOffset_eq
    {fuel : Nat}
    {before : List ν}
    {name : ν}
    {ys : List ν}
    (hOrder : layout.order = before.reverse ++ name :: ys)
    (hFuel : before.length < fuel) :
    layout.getOffset fuel name =
      .ok (layout.offsetAfter before name) := by
  induction before generalizing fuel name ys with
  | nil =>
      cases fuel with
      | zero => cases hFuel
      | succ fuel =>
          have hPrev := hLayout.linked _ _ _ hOrder
          have hMem : name ∈ layout.order := by simp [hOrder]
          rcases hLayout.member_of_mem hMem with
            ⟨m, hMember, -⟩
          simp only [List.reverse_nil, List.getLast?_nil]
            at hPrev
          rw [getOffset, hMember, ok_bind, hPrev]
          rfl
  | cons prev before ih =>
      cases fuel with
      | zero => cases hFuel
      | succ fuel =>
          have hLink := hLayout.linked _ _ _ hOrder
          rw [List.reverse_cons, List.append_assoc,
            List.singleton_append] at hOrder
          have hOffset := ih hOrder
            (Nat.lt_of_succ_lt_succ hFuel)
          have hMem : name ∈ layout.order := by simp [hOrder]
          have hMemPrev : prev ∈ layout.order := by
            simp [hOrder]
          rcases hLayout.member_of_mem hMem with
            ⟨m, hMember, -, hAligned⟩
          rcases hLayout.member_of_mem hMemPrev with
            ⟨m', hMember', hSize, -⟩
          simp only [List.reverse_cons,
            List.getLast?_concat] at hLink
          rw [getOffset, hMember, ok_bind, hLink]
          simp only [hOffset, hMember', ok_bind, offsetAfter,
            hSize, hAligned]
          rfl

omit [DecidableEq ν] in
/- Every member has an offset. -/
theorem offset_eq
    {xs ys : List ν}
    {name : ν}
    (hOrder : layout.order = xs ++ name :: ys) :
    layout.offset name =
      .ok (layout.offsetAfter xs.reverse name) := by
  have hReversed : layout.order =
      xs.reverse.reverse ++ name :: ys := by
    rw [List.reverse_reverse, hOrder]
  apply hLayout.getOffset_eq hReversed
  · rw [hOrder, List.length_append, List.length_reverse,
      List.length_cons]
    omega

omit [DecidableEq ν] in
/- The bits of different members are apart. -/
theorem offsets_apart
    {name other : ν}
    {o o' : Nat}
    (hMem : name ∈ layout.order)
    (hMem' : other ∈ layout.order)
    (hNe : other ≠ name)
    (hOffset : layout.offset name = .ok o)
    (hOffset' : layout.offset other = .ok o') :
    o' + layout.sizeOf other ≤ o ∨
      o + layout.sizeOf name ≤ o' := by
  rcases List.append_of_mem hMem with ⟨xs, ys, hOrder⟩
  rw [hOrder] at hMem'
  have hSides : other ∈ xs ∨ other ∈ ys := by
    rcases List.mem_append.mp hMem' with hIn | hIn
    · exact Or.inl hIn
    · rcases List.mem_cons.mp hIn with hEq | hIn
      · exact absurd hEq hNe
      · exact Or.inr hIn
  rw [hLayout.offset_eq hOrder] at hOffset
  cases hOffset
  rcases hSides with hBefore | hBehind
  · rcases List.append_of_mem hBefore with ⟨as, bs, rfl⟩
    left
    have hSplit : layout.order =
        as ++ other :: (bs ++ name :: ys) := by
      rw [hOrder]
      simp
    rw [hLayout.offset_eq hSplit] at hOffset'
    cases hOffset'
    rw [List.reverse_append, List.reverse_cons,
      List.append_assoc, List.singleton_append]
    exact layout.offsetAfter_ge _ _ _ _
  · rcases List.append_of_mem hBehind with ⟨as, bs, rfl⟩
    right
    have hSplit : layout.order =
        (xs ++ name :: as) ++ other :: bs := by
      rw [hOrder]
      simp
    rw [hLayout.offset_eq hSplit] at hOffset'
    cases hOffset'
    rw [List.reverse_append, List.reverse_cons,
      List.append_assoc, List.singleton_append]
    exact layout.offsetAfter_ge _ _ _ _

end WellFormed

------------------------------------------------------------
-- Members That Keep Their Values
------------------------------------------------------------

/-
  The value a member is given is read back, no bit outside
  of the member changes, and so no other member does.
-/
structure KeepsAt
    (layout : DynamicLayout ν)
    (name : ν)
    (m : IntegerMember)
    (mem : Memory)
    (v : BitVec 64)
    (mem' : Memory) : Prop where
  value : ∃ x, layout.getInteger name mem' = .ok x ∧
    x.setWidth m.type.bits = v.setWidth m.type.bits
  frame : ∀ o, layout.offset name = .ok o →
    ∀ k, k < o ∨ o + m.bitSize ≤ k → bit mem' k = bit mem k
  others : ∀ other, other ≠ name →
    layout.getInteger other mem' =
      layout.getInteger other mem

/- Every value in range is kept, in every buffer. -/
def Keeps
    (layout : DynamicLayout ν)
    (name : ν)
    (m : IntegerMember) : Prop :=
  ∀ mem v, m.InRange v →
    ∃ mem', layout.setInteger name v mem = .ok mem' ∧
      layout.KeepsAt name m mem v mem'

omit [DecidableEq ν] in
/- A member is read and written at its offset. -/
theorem access_eq
    {layout : DynamicLayout ν}
    {name : ν}
    {m : IntegerMember}
    {o : Nat}
    (hMember : layout.membersMap name = some (.integer m))
    (hOffset : layout.offset name = .ok o) :
    (∀ v mem, layout.setInteger name v mem =
        m.setInteger o mem v) ∧
      ∀ mem, layout.getInteger name mem =
        m.getInteger o mem := by
  have hName : layout.member name = .ok (.integer m) := by
    rw [member, hMember]
  constructor
  · intro v mem
    simp only [setInteger, hName, hOffset, ok_bind]
  · intro mem
    simp only [getInteger, hName, hOffset, ok_bind]

omit [DecidableEq ν] in
/- Members apart from the bits written are read as before. -/
theorem getInteger_of_frame
    {layout : DynamicLayout ν}
    {name other : ν}
    {m : IntegerMember}
    {o : Nat}
    {mem mem' : Memory}
    (hLayout : layout.WellFormed)
    (hMember : layout.membersMap name = some (.integer m))
    (hOffset : layout.offset name = .ok o)
    (hFrame : ∀ k, k < o ∨ o + m.bitSize ≤ k →
      bit mem' k = bit mem k)
    (hNe : other ≠ name) :
    layout.getInteger other mem' =
      layout.getInteger other mem := by
  cases hOther : layout.membersMap other with
  | none => simp [getInteger, member, hOther]
  | some m' =>
      cases m' with
      | byteArray => simp [getInteger, member, hOther]
      | integer m' =>
          have hMem := (hLayout.mapped name).mpr
            (by simp [hMember])
          have hMem' := (hLayout.mapped other).mpr
            (by simp [hOther])
          rcases List.append_of_mem hMem' with
            ⟨xs, ys, hOrder⟩
          have hOffset' := hLayout.offset_eq hOrder
          have hApart := hLayout.offsets_apart hMem hMem' hNe
            hOffset hOffset'
          have hRead := (access_eq hOther hOffset').2
          rw [hRead, hRead]
          apply m'.getInteger_congr
          intro k hFrom hTo
          simp only [sizeOf, hMember, hOther, Option.map_some,
            Option.getD_some, DynamicMember.size] at hApart
          exact hFrame k (by omega)

/-
  A member of a built layout keeps its values exactly when it
  can encode them at its offset.
-/
theorem keeps_iff
    {layout : DynamicLayout ν}
    {name : ν}
    {m : IntegerMember}
    (hBuilt : layout.Built)
    (hMember : layout.membersMap name = some (.integer m)) :
    layout.Keeps name m ↔
      ∃ o, layout.offset name = .ok o ∧ m.CanEncode o := by
  have hLayout := hBuilt.wellFormed
  have hMem := (hLayout.mapped name).mpr (by simp [hMember])
  rcases List.append_of_mem hMem with ⟨xs, ys, hOrder⟩
  have hOffset := hLayout.offset_eq hOrder
  rcases access_eq hMember hOffset with ⟨hWrite, hRead⟩
  rw [hOffset]
  constructor
  · intro hKeeps
    refine ⟨_, rfl, (m.roundTrips_iff _).mp ?_⟩
    intro mem v hRange
    rcases hKeeps mem v hRange with ⟨mem', hSet, hAt⟩
    rcases hAt.value with ⟨x, hX, hValue⟩
    rw [hWrite] at hSet
    rw [hRead] at hX
    exact ⟨mem', hSet, ⟨x, hX, hValue⟩,
      hAt.frame _ hOffset⟩
  · rintro ⟨o, hO, hEncode⟩
    cases hO
    intro mem v hRange
    rcases (m.roundTrips_iff _).mpr hEncode mem v hRange with
      ⟨mem', hSet, ⟨x, hX, hValue⟩, hFrame⟩
    refine ⟨mem', by rw [hWrite, hSet], ?_, ?_, ?_⟩
    · exact ⟨x, by rw [hRead, hX], hValue⟩
    · intro o hO
      cases hOffset.symm.trans hO
      exact hFrame
    · intro other hNe
      exact getInteger_of_frame hLayout hMember hOffset
        hFrame hNe

------------------------------------------------------------
-- Three Members in One Byte
------------------------------------------------------------

/- An `unsigned char` member of a few bits. -/
def bitsMember
    (bits : Nat)
    (hBits : bits ≤ 8) : IntegerMember :=
  .ofBits .unsignedChar bits hBits false

/- A byte shared by members of four, two, and two bits. -/
def sharedByte : DynamicLayout (Fin 3) :=
  (((empty.addMember 0
      (.integer (bitsMember 4 (by decide))) 0).addMember 1
      (.integer (bitsMember 2 (by decide))) 0).addMember 2
      (.integer (bitsMember 2 (by decide))) 0).fixLayout

theorem sharedByte_built : sharedByte.Built :=
  ⟨[(0, .integer (bitsMember 4 (by decide)), 0),
      (1, .integer (bitsMember 2 (by decide)), 0),
      (2, .integer (bitsMember 2 (by decide)), 0)],
    by decide, rfl⟩

/- Setting the second member clears the third one. -/
theorem not_forall_keeps :
    ¬ ∀ (layout : DynamicLayout (Fin 3)) name m,
      layout.Built →
        layout.membersMap name = some (.integer m) →
          layout.Keeps name m := by
  intro hAll
  let ones : Memory := fun _ => 255
  have hRange :
      (bitsMember 2 (by decide)).InRange 3 := by
    simp [IntegerMember.InRange, bitsMember,
      IntegerMember.ofBits, IntegerMember.IsFullSigned,
      IntType.unsignedChar]
  rcases hAll sharedByte 1 _ sharedByte_built rfl ones 3
      hRange with
    ⟨mem', hSet, hAt⟩
  have hCleared :
      (sharedByte.setInteger 1 3 ones >>=
        sharedByte.getInteger 2) = .ok 0 := by
    decide +kernel
  have hKept :
      sharedByte.getInteger 2 ones = .ok 3 := by
    decide +kernel
  rw [hSet, ok_bind, hAt.others 2 (by decide), hKept]
    at hCleared
  exact absurd hCleared (by decide)

/- The first member of the byte is aligned, and keeps. -/
theorem keeps_iff_sharedByte :
    sharedByte.Keeps 0 (bitsMember 4 (by decide)) ↔
      ∃ o, sharedByte.offset 0 = .ok o ∧
        (bitsMember 4 (by decide)).CanEncode o :=
  keeps_iff sharedByte_built rfl

end DynamicLayout

end NetBlocks
