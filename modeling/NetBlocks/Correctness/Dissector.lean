import NetBlocks.Correctness.LayoutGeometry

/-
  The generated dissector: which bytes of a packet it
  highlights for a field, and for which fields those are the
  bytes the field occupies.

  Main declarations:
    * `DynamicLayout.iterateAndGenerate`
    * `IsSmallestRange`
    * `DynamicLayout.highlights_iff`
-/

namespace NetBlocks

open Except

------------------------------------------------------------
-- The Generator
------------------------------------------------------------

/-
  A call of `proto_tree_add_subtree_format` in the generated
  code: the field and its bytes in the wire packet. The text
  that shows the value is left out.
-/
structure SubtreeCall (ν : Type) where
  name : ν
  start : Int
  len : Nat

namespace DynamicLayout

variable {ν : Type} [DecidableEq ν]

/- The call that is generated for a field. -/
def generateField
    (layout : DynamicLayout ν)
    (headroom : Nat)
    (name : ν) : Except Fault (SubtreeCall ν) := do
  let m ← layout.member name
  let offset ← layout.offset name
  return {
    name := name
    start := (offset / 8 : Nat) - headroom
    len := alignTo m.size / 8 }

/- `iterate_and_generate`, over the groups from 1 on -/
def iterateAndGenerate
    (layout : DynamicLayout ν) :
    Except Fault (List (SubtreeCall ν)) := do
  let headroom ← layout.getHeadroom
  layout.registeredMembers.tail.flatten.mapM
    (layout.generateField headroom)

end DynamicLayout

------------------------------------------------------------
-- The Bytes a Field Occupies
------------------------------------------------------------

/-
  All bits of a field, at bit offset `o` of the buffer, are in
  the bytes listed, which are counted from the headroom on.
-/
def HoldsBits
    (headroom o size : Nat)
    (start : Int)
    (len : Nat) : Prop :=
  ∀ k, o ≤ k → k < o + size →
    start ≤ ((k / 8 : Nat) : Int) - headroom ∧
      ((k / 8 : Nat) : Int) - headroom < start + len

/- No range with fewer bytes has all bits of the field. -/
structure IsSmallestRange
    (headroom o size : Nat)
    (start : Int)
    (len : Nat) : Prop where
  holdsBits : HoldsBits headroom o size start len
  least : ∀ start' len', HoldsBits headroom o size start' len' →
    len ≤ len'

/-
  The bytes of the size of a field are those it occupies,
  unless it reaches into one more.
-/
theorem isSmallestRange_iff
    {headroom o size : Nat} :
    IsSmallestRange headroom o size
        ((o / 8 : Nat) - headroom) (alignTo size / 8) ↔
      size = 0 ∨ o % 8 + size ≤ alignTo size := by
  have hAlign : alignTo size = (size + 7) / 8 * 8 := rfl
  constructor
  · intro hSmallest
    by_cases hSize : size = 0
    · exact Or.inl hSize
    · right
      have hLast := (hSmallest.holdsBits (o + size - 1)
        (by omega) (by omega)).2
      omega
  · intro hFits
    refine ⟨?_, ?_⟩
    · intro k hFrom hTo
      omega
    · intro start len hRange
      by_cases hSize : size = 0
      · subst hSize
        exact Nat.zero_le _
      · have hFirst := (hRange o (Nat.le_refl o)
          (by omega)).1
        have hLast := (hRange (o + size - 1) (by omega)
          (by omega)).2
        omega

namespace DynamicLayout

variable {ν : Type} [DecidableEq ν]

section Generate

variable
    {layout : DynamicLayout ν}

omit [DecidableEq ν] in
/- Every field has a call, in their order. -/
theorem WellFormed.generate
    (hLayout : layout.WellFormed)
    (headroom : Nat)
    {names : List ν}
    (hNames : ∀ name ∈ names, name ∈ layout.order) :
    ∃ calls, names.mapM (layout.generateField headroom) =
        .ok calls ∧
      calls.map SubtreeCall.name = names ∧
      ∀ call ∈ calls, ∃ o, layout.offset call.name = .ok o ∧
        call.start = (o / 8 : Nat) - headroom ∧
        call.len = alignTo (layout.sizeOf call.name) / 8 := by
  induction names with
  | nil => exact ⟨[], rfl, rfl, fun _ hMem => by cases hMem⟩
  | cons name names ih =>
      have hMem := hNames name (List.mem_cons_self ..)
      rcases hLayout.member_of_mem hMem with
        ⟨m, hMember, hSize, -⟩
      rcases hLayout.placed hMem with ⟨o, hOffset⟩
      rcases ih (fun other hOther =>
          hNames other (List.mem_cons_of_mem _ hOther)) with
        ⟨calls, hCalls, hListed, hAll⟩
      let shown : SubtreeCall ν :=
        ⟨name, (o / 8 : Nat) - headroom, alignTo m.size / 8⟩
      have hCall : layout.generateField headroom name =
          .ok shown := by
        rw [generateField, hMember, ok_bind, hOffset]
        rfl
      refine ⟨shown :: calls, ?_, ?_, ?_⟩
      · rw [List.mapM_cons, hCall, ok_bind, hCalls]
        rfl
      · rw [List.map_cons, hListed]
      · intro call hIn
        rcases List.mem_cons.mp hIn with rfl | hIn
        · exact ⟨o, hOffset, rfl, by rw [hSize]⟩
        · exact hAll call hIn

/-
  The call generated for a field passes the smallest range of
  bytes of the wire packet with all bits of the field.
-/
def Highlights
    (layout : DynamicLayout ν)
    (name : ν) : Prop :=
  ∃ headroom calls call o,
    layout.getHeadroom = .ok headroom ∧
      layout.iterateAndGenerate = .ok calls ∧
      call ∈ calls ∧ call.name = name ∧
      layout.offset name = .ok o ∧
      IsSmallestRange headroom o (layout.sizeOf name)
        call.start call.len

omit [DecidableEq ν] in
/- The headroom is where the first member of group 1 is. -/
theorem WellFormed.headroom_ok_iff
    (hLayout : layout.WellFormed)
    {name : ν}
    (hField : name ∈ layout.registeredMembers.tail.flatten) :
    (∃ headroom, layout.getHeadroom = .ok headroom) ↔
      layout.registeredMembers[1]? ≠ some [] := by
  rw [getHeadroom, groupStartOffset]
  cases hGroups : layout.registeredMembers with
  | nil =>
      rw [hGroups] at hField
      cases hField
  | cons group groups =>
      rw [hGroups] at hField
      cases groups with
      | nil => cases hField
      | cons fields groups =>
          cases fields with
          | nil => simp
          | cons first rest =>
              have hFirst : first ∈ layout.order := by
                rw [order, hGroups]
                simp
              rcases hLayout.placed hFirst with ⟨o, hOffset⟩
              refine ⟨fun _ => by simp, fun _ => ⟨o / 8, ?_⟩⟩
              change (layout.offset first >>= _) = _
              rw [hOffset]
              rfl

/-
  A field that is sent is highlighted exactly if the headroom
  is known and the field does not reach into one more byte
  than its size needs.
-/
theorem highlights_iff
    {name : ν}
    (hBuilt : layout.Built)
    (hField : name ∈ layout.registeredMembers.tail.flatten) :
    layout.Highlights name ↔
      layout.registeredMembers[1]? ≠ some [] ∧
        ∀ o, layout.offset name = .ok o →
          layout.sizeOf name = 0 ∨
            o % 8 + layout.sizeOf name ≤
              alignTo (layout.sizeOf name) := by
  have hLayout := hBuilt.wellFormed
  have hNames : ∀ name ∈ layout.registeredMembers.tail.flatten,
      name ∈ layout.order := by
    intro name hMem
    rw [order]
    cases hGroups : layout.registeredMembers with
    | nil =>
        rw [hGroups] at hMem
        cases hMem
    | cons group groups =>
        rw [hGroups] at hMem
        exact List.mem_append_right _ hMem
  rw [← hLayout.headroom_ok_iff hField]
  constructor
  · rintro ⟨headroom, calls, call, o, hHeadroom, hCalls, hMem,
      rfl, hOffset, hSmallest⟩
    refine ⟨⟨headroom, hHeadroom⟩, ?_⟩
    rcases hLayout.generate headroom hNames with
      ⟨calls', hCalls', -, hAll⟩
    rw [iterateAndGenerate, hHeadroom, ok_bind, hCalls']
      at hCalls
    cases hCalls
    rcases hAll call hMem with ⟨o', hOffset', hStart, hLen⟩
    cases hOffset.symm.trans hOffset'
    rw [hStart, hLen] at hSmallest
    intro o' hOffset'
    cases hOffset.symm.trans hOffset'
    exact isSmallestRange_iff.mp hSmallest
  · rintro ⟨⟨headroom, hHeadroom⟩, hFits⟩
    rcases hLayout.generate headroom hNames with
      ⟨calls, hCalls, hListed, hAll⟩
    rw [← hListed] at hField
    rcases List.mem_map.mp hField with ⟨call, hMem, rfl⟩
    rcases hAll call hMem with ⟨o, hOffset, hStart, hLen⟩
    refine ⟨headroom, calls, call, o, hHeadroom, ?_, hMem,
      rfl, hOffset, ?_⟩
    · rw [iterateAndGenerate, hHeadroom, ok_bind, hCalls]
    · rw [hStart, hLen]
      exact isSmallestRange_iff.mpr (hFits o hOffset)

end Generate

/- A byte that is not sent, six bits, and eight bits. -/
def straddling : DynamicLayout Nat :=
  (((empty.addMember 0
      (.integer (bitsMember 8 (Nat.le_refl 8))) 0).addMember 1
      (.integer (bitsMember 6 (Nat.le_add_right 6 2))) 1).addMember 2
      (.integer (bitsMember 8 (Nat.le_refl 8))) 1).fixLayout

theorem straddling_built : straddling.Built :=
  ⟨[(0, .integer (bitsMember 8 (Nat.le_refl 8)), 0),
      (1, .integer (bitsMember 6 (Nat.le_add_right 6 2)), 1),
      (2, .integer (bitsMember 8 (Nat.le_refl 8)), 1)],
    by decide, rfl⟩

/- The last field is in two bytes, of which one is shown. -/
theorem not_forall_highlights :
    ¬ ∀ (layout : DynamicLayout Nat) name,
      layout.Built →
      name ∈ layout.registeredMembers.tail.flatten →
        layout.Highlights name := by
  intro hAll
  rcases hAll straddling 2 straddling_built (by decide) with
    ⟨headroom, calls, call, o, hHeadroom, hCalls, hMem, hName,
      hOffset, hSmallest⟩
  have hFirst : straddling.getHeadroom = .ok 1 := by decide
  have hAllCalls : straddling.iterateAndGenerate =
      .ok [⟨1, 0, 1⟩, ⟨2, 0, 1⟩] := rfl
  have hAt : straddling.offset 2 = .ok 14 := by decide
  cases hFirst.symm.trans hHeadroom
  cases hAllCalls.symm.trans hCalls
  cases hAt.symm.trans hOffset
  have hCall : call = ⟨2, 0, 1⟩ := by
    rcases List.mem_cons.mp hMem with rfl | hMem
    · exact absurd hName (by decide)
    · exact List.mem_singleton.mp hMem
  subst hCall
  have hLast := (hSmallest.holdsBits 16 (by decide)
    (by decide)).2
  exact absurd hLast (by decide)

/- The field before it is shown as it is. -/
theorem highlights_iff_straddling :
    straddling.Highlights 1 ↔
      straddling.registeredMembers[1]? ≠ some [] ∧
        ∀ o, straddling.offset 1 = .ok o →
          straddling.sizeOf 1 = 0 ∨
            o % 8 + straddling.sizeOf 1 ≤
              alignTo (straddling.sizeOf 1) :=
  highlights_iff straddling_built (by decide)

end DynamicLayout

end NetBlocks
