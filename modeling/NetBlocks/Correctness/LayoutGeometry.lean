import NetBlocks.Core.Layout
import Mathlib.Order.Bounds.Defs

/-
  Where a fixed layout puts its members: one behind the other
  in the order of registration, with gaps of less than a byte,
  in as few bytes as they need.

  Main declarations:
    * `DynamicLayout.Precedes` and `DynamicLayout.Covers`
    * `DynamicLayout.Geometry`
    * `DynamicLayout.geometry_of_built`
-/

namespace NetBlocks

namespace DynamicLayout

open Except

variable {ν : Type} [DecidableEq ν]

------------------------------------------------------------
-- Places of Members
------------------------------------------------------------

/- The bits of a member end before those of another start. -/
def Precedes
    (layout : DynamicLayout ν)
    (name other : ν) : Prop :=
  ∃ o o', layout.offset name = .ok o ∧
    layout.offset other = .ok o' ∧
    o + layout.sizeOf name ≤ o'

/- The first `n` bytes have room for all members. -/
def Covers
    (layout : DynamicLayout ν)
    (n : Nat) : Prop :=
  ∀ name ∈ layout.order, ∀ o, layout.offset name = .ok o →
    o + layout.sizeOf name ≤ 8 * n

/- What other computations rely on of a layout's places. -/
structure Geometry
    (layout : DynamicLayout ν) : Prop where
  placed : ∀ name ∈ layout.order,
    ∃ o, layout.offset name = .ok o
  increasing : layout.order.Pairwise layout.Precedes
  aligned : ∀ name ∈ layout.order,
    layout.alignedOf name = true →
      ∀ o, layout.offset name = .ok o → o % 8 = 0
  first : ∀ name, layout.order.head? = some name →
    layout.offset name = .ok 0
  gaps : ∀ xs name other ys,
    layout.order = xs ++ name :: other :: ys →
      ∀ o o', layout.offset name = .ok o →
        layout.offset other = .ok o' →
          o' < o + layout.sizeOf name + 8
  total : layout.order ≠ [] →
    ∃ n, layout.getTotalSize = .ok n ∧
      IsLeast {n | layout.Covers n} n
  headroom : ∀ group first rest groups,
    layout.registeredMembers =
        group :: (first :: rest) :: groups →
      (∀ name ∈ group, layout.alignedOf name = true ∧
        8 ∣ layout.sizeOf name) →
      ∃ n, layout.getHeadroom = .ok n ∧
        layout.offset first = .ok (n * 8)
  last : ∀ name, layout.order.getLast? = some name →
    layout.alignedOf name = true → layout.sizeOf name = 8 →
      ∃ n, layout.offset name = .ok (8 * n) ∧
        layout.getTotalSize = .ok (n + 1)

------------------------------------------------------------
-- Offsets in the Order of Members
------------------------------------------------------------

theorem alignTo_mod
    (v : Nat) :
    alignTo v % 8 = 0 := by
  unfold alignTo
  omega

theorem alignTo_lt
    (v : Nat) :
    alignTo v < v + 8 := by
  unfold alignTo
  omega

theorem alignTo_of_dvd
    {v : Nat}
    (hBytes : v % 8 = 0) :
    alignTo v = v := by
  unfold alignTo
  omega

/- A pair in a list splits it. -/
theorem pairwise_of_splits
    {α : Type}
    {R : α → α → Prop}
    {xs : List α}
    (hSplits : ∀ as a bs b cs,
      xs = as ++ a :: (bs ++ b :: cs) → R a b) :
    xs.Pairwise R := by
  rw [List.pairwise_iff_forall_sublist]
  intro a b hSublist
  rcases List.cons_sublist_iff.mp hSublist with
    ⟨ys, zs, rfl, hFirst, hSecond⟩
  rcases List.append_of_mem hFirst with ⟨as, bs, rfl⟩
  rcases List.append_of_mem
      (List.singleton_sublist.mp hSecond) with
    ⟨bs', cs, rfl⟩
  exact hSplits as a (bs ++ bs') b cs (by simp)

namespace WellFormed

variable
    {layout : DynamicLayout ν}
    (hLayout : layout.WellFormed)

include hLayout

omit [DecidableEq ν] in
theorem placed
    {name : ν}
    (hMem : name ∈ layout.order) :
    ∃ o, layout.offset name = .ok o := by
  rcases List.append_of_mem hMem with ⟨xs, ys, hOrder⟩
  exact ⟨_, hLayout.offset_eq hOrder⟩

omit [DecidableEq ν] in
theorem precedes
    {as bs cs : List ν}
    {name other : ν}
    (hOrder : layout.order =
      as ++ name :: (bs ++ other :: cs)) :
    layout.Precedes name other := by
  have hSplit : layout.order =
      (as ++ name :: bs) ++ other :: cs := by
    rw [hOrder]
    simp
  refine ⟨_, _, hLayout.offset_eq hOrder,
    hLayout.offset_eq hSplit, ?_⟩
  rw [List.reverse_append, List.reverse_cons,
    List.append_assoc, List.singleton_append]
  exact layout.offsetAfter_ge _ _ _ _

omit [DecidableEq ν] in
/- A member follows the one before it. -/
theorem offset_succ
    {xs ys : List ν}
    {name other : ν}
    (hOrder : layout.order = xs ++ name :: other :: ys) :
    ∃ o, layout.offset name = .ok o ∧
      layout.offset other =
        .ok (if layout.alignedOf other then
          alignTo (o + layout.sizeOf name)
        else
          o + layout.sizeOf name) := by
  have hSplit : layout.order =
      (xs ++ [name]) ++ other :: ys := by
    rw [hOrder]
    simp
  refine ⟨_, hLayout.offset_eq hOrder, ?_⟩
  rw [hLayout.offset_eq hSplit, List.reverse_append]
  rfl

omit [DecidableEq ν] in
theorem aligned
    {name : ν}
    {o : Nat}
    (hMem : name ∈ layout.order)
    (hAligned : layout.alignedOf name = true)
    (hOffset : layout.offset name = .ok o) :
    o % 8 = 0 := by
  rcases List.append_of_mem hMem with ⟨xs, ys, hOrder⟩
  rcases xs.eq_nil_or_concat with rfl | ⟨before, prev, rfl⟩
  · rw [hLayout.offset_eq hOrder] at hOffset
    cases hOffset
    rfl
  · have hSplit : layout.order =
        before ++ prev :: name :: ys := by
      rw [hOrder, List.concat_eq_append]
      simp
    rcases hLayout.offset_succ hSplit with
      ⟨o', -, hOffset'⟩
    rw [hOffset', if_pos hAligned] at hOffset
    cases hOffset
    exact alignTo_mod _

omit [DecidableEq ν] in
theorem gap
    {xs ys : List ν}
    {name other : ν}
    {o o' : Nat}
    (hOrder : layout.order = xs ++ name :: other :: ys)
    (hOffset : layout.offset name = .ok o)
    (hOffset' : layout.offset other = .ok o') :
    o' < o + layout.sizeOf name + 8 := by
  rcases hLayout.offset_succ hOrder with ⟨p, hP, hNext⟩
  cases hOffset.symm.trans hP
  cases hOffset'.symm.trans hNext
  split
  · exact alignTo_lt _
  · omega

omit [DecidableEq ν] in
/- The total size is that of the last member's end. -/
theorem getTotalSize_eq
    {name : ν}
    {o : Nat}
    (hLast : layout.order.getLast? = some name)
    (hOffset : layout.offset name = .ok o) :
    layout.getTotalSize =
      .ok (alignTo (o + layout.sizeOf name) / 8) := by
  rcases hLayout.member_of_mem (List.mem_of_getLast? hLast)
    with ⟨m, hMember, hSize, -⟩
  simp only [getTotalSize, hLast, hMember, hOffset, ok_bind,
    hSize]
  rfl

omit [DecidableEq ν] in
/- Every member ends before the last one does. -/
theorem covers_iff
    {name : ν}
    {o n : Nat}
    (hLast : layout.order.getLast? = some name)
    (hOffset : layout.offset name = .ok o) :
    layout.Covers n ↔ o + layout.sizeOf name ≤ 8 * n := by
  constructor
  · intro hCovers
    exact hCovers name (List.mem_of_getLast? hLast) o hOffset
  · intro hEnd other hMem o' hOffset'
    rcases List.getLast?_eq_some_iff.mp hLast with
      ⟨xs, hOrder⟩
    rw [hOrder] at hMem
    rcases List.mem_append.mp hMem with hBefore | hSelf
    · rcases List.append_of_mem hBefore with ⟨as, bs, rfl⟩
      have hSplit : layout.order =
          as ++ other :: (bs ++ name :: []) := by
        rw [hOrder]
        simp
      rcases hLayout.precedes hSplit with
        ⟨p, p', hP, hP', hLe⟩
      cases hOffset'.symm.trans hP
      cases hOffset.symm.trans hP'
      omega
    · rw [List.mem_singleton.mp hSelf] at hOffset' ⊢
      cases hOffset.symm.trans hOffset'
      exact hEnd

omit [DecidableEq ν] in
theorem total
    (hSome : layout.order ≠ []) :
    ∃ n, layout.getTotalSize = .ok n ∧
      IsLeast {n | layout.Covers n} n := by
  have hLast := List.getLast?_eq_some_getLast hSome
  rcases hLayout.placed (List.mem_of_getLast? hLast) with
    ⟨o, hOffset⟩
  refine ⟨_, hLayout.getTotalSize_eq hLast hOffset, ?_, ?_⟩
  · apply (hLayout.covers_iff hLast hOffset).mpr
    unfold alignTo
    omega
  · intro n hCovers
    have hEnd := (hLayout.covers_iff hLast hOffset).mp hCovers
    unfold alignTo
    omega

omit [DecidableEq ν] hLayout in
/- Whole bytes are followed by whole bytes. -/
theorem offsetAfter_mod
    {before : List ν}
    (hBytes : ∀ name ∈ before, 8 ∣ layout.sizeOf name)
    (name : ν) :
    layout.offsetAfter before name % 8 = 0 := by
  induction before generalizing name with
  | nil => rfl
  | cons prev before ih =>
      have hRest := ih (fun other hMem =>
        hBytes other (List.mem_cons_of_mem _ hMem)) prev
      have hSize := hBytes prev (List.mem_cons_self ..)
      rw [offsetAfter]
      split
      · exact alignTo_mod _
      · omega

omit [DecidableEq ν] in
theorem headroom
    {group rest : List ν}
    {first : ν}
    {groups : List (List ν)}
    (hGroups : layout.registeredMembers =
      group :: (first :: rest) :: groups)
    (hBytes : ∀ name ∈ group, 8 ∣ layout.sizeOf name) :
    ∃ n, layout.getHeadroom = .ok n ∧
      layout.offset first = .ok (n * 8) := by
  have hOrder : layout.order =
      group ++ first :: (rest ++ groups.flatten) := by
    rw [order, hGroups]
    simp
  have hOffset := hLayout.offset_eq hOrder
  have hMod : layout.offsetAfter group.reverse first % 8 = 0 :=
    offsetAfter_mod (fun name hMem =>
      hBytes name (List.mem_reverse.mp hMem)) first
  refine ⟨layout.offsetAfter group.reverse first / 8, ?_, ?_⟩
  · rw [getHeadroom, groupStartOffset, hGroups]
    change (layout.offset first >>= _) = _
    rw [hOffset]
    rfl
  · rw [hOffset]
    congr 1
    omega

omit [DecidableEq ν] in
theorem last
    {name : ν}
    (hLast : layout.order.getLast? = some name)
    (hAligned : layout.alignedOf name = true)
    (hSize : layout.sizeOf name = 8) :
    ∃ n, layout.offset name = .ok (8 * n) ∧
      layout.getTotalSize = .ok (n + 1) := by
  have hMem := List.mem_of_getLast? hLast
  rcases hLayout.placed hMem with ⟨o, hOffset⟩
  have hMod := hLayout.aligned hMem hAligned hOffset
  have hBytes : 8 * (o / 8) = o := by omega
  refine ⟨o / 8, by rw [hBytes, hOffset], ?_⟩
  rw [hLayout.getTotalSize_eq hLast hOffset, hSize]
  congr 1
  unfold alignTo
  omega

end WellFormed

------------------------------------------------------------
-- Built Layouts
------------------------------------------------------------

/- Every built layout has the places described. -/
theorem geometry_of_built
    {layout : DynamicLayout ν}
    (hBuilt : layout.Built) :
    layout.Geometry := by
  have hLayout := hBuilt.wellFormed
  exact
    { placed := fun _ hMem => hLayout.placed hMem
      increasing := pairwise_of_splits
        (fun _ _ _ _ _ hOrder => hLayout.precedes hOrder)
      aligned := fun _ hMem hAligned _ hOffset =>
        hLayout.aligned hMem hAligned hOffset
      first := by
        intro name hHead
        rcases List.head?_eq_some_iff.mp hHead with
          ⟨ys, hOrder⟩
        have hFirst : layout.order = [] ++ name :: ys := hOrder
        exact hLayout.offset_eq hFirst
      gaps := fun _ _ _ _ hOrder _ _ hOffset hOffset' =>
        hLayout.gap hOrder hOffset hOffset'
      total := hLayout.total
      headroom := fun _ _ _ _ hGroups hBytes =>
        hLayout.headroom hGroups
          (fun name hMem => (hBytes name hMem).2)
      last := fun _ hLast hAligned hSize =>
        hLayout.last hLast hAligned hSize }

/- A layout without members has no last one to look at. -/
theorem not_forall_total :
    ¬ ∀ layout : DynamicLayout (Fin 1), layout.Built →
      ∃ n, layout.getTotalSize = .ok n ∧
        IsLeast {n | layout.Covers n} n := by
  intro hAll
  rcases hAll empty.fixLayout ⟨[], List.nodup_nil, rfl⟩ with
    ⟨n, hSize, -⟩
  cases hSize

theorem geometry_of_built_sharedByte :
    sharedByte.Geometry :=
  geometry_of_built sharedByte_built

end DynamicLayout

end NetBlocks
