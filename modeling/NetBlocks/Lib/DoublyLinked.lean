import Mathlib.Logic.Function.Basic
import Mathlib.Data.List.Nodup
import Mathlib.Tactic.Common

/-
  Intrusive doubly linked lists over an arena of nodes: the
  two link functions, the head pointer, and the sequence of
  nodes they represent.

  Main declarations:
    * `Links`, `Links.Linked`, and `Links.Lists`
    * `Links.linkBetween_lists`
    * `Links.unlink_lists`
    * `Chain` for lists linked in one direction only
-/

------------------------------------------------------------
-- Links and Represented Lists
------------------------------------------------------------

namespace DoublyLinked

/- The link fields of every node, and the list's head. -/
structure Links (ι : Type) where
  next : ι → Option ι
  prev : ι → Option ι
  head : Option ι

namespace Links

variable {ι : Type} [DecidableEq ι]

/-
  The nodes are linked in order, the first one back to
  `before` and the last one on to `after`.
-/
def Linked
    (L : Links ι)
    (before : Option ι) :
    List ι → Option ι → Prop
| [], _ => True
| x :: xs, after =>
    L.prev x = before ∧ L.next x = xs.head?.or after ∧
      L.Linked (some x) xs after

/- The whole list hanging from the head is `nodes`. -/
def Lists
    (L : Links ι)
    (nodes : List ι) : Prop :=
  L.head = nodes.head? ∧ L.Linked none nodes none

/- Linked nodes split wherever their list does. -/
omit [DecidableEq ι] in
theorem linked_append_iff
    (L : Links ι)
    (xs ys : List ι)
    (before after : Option ι) :
    L.Linked before (xs ++ ys) after ↔
      L.Linked before xs (ys.head?.or after) ∧
        L.Linked (xs.getLast?.or before) ys after := by
  induction xs generalizing before with
  | nil => simp [Linked]
  | cons x xs ih =>
      have hHead :
          (xs ++ ys).head?.or after =
            xs.head?.or (ys.head?.or after) := by
        cases xs <;> simp
      have hLast :
          (x :: xs).getLast?.or before =
            xs.getLast?.or (some x) := by
        cases xs <;> simp [List.getLast?_cons]
      simp only [List.cons_append, Linked, ih, hHead, hLast,
        and_assoc]

/- The first of some linked nodes links back out. -/
omit [DecidableEq ι] in
theorem Linked.prev_of_head?
    {L : Links ι}
    {before after : Option ι}
    {nodes : List ι}
    {x : ι}
    (hLinked : L.Linked before nodes after)
    (hHead : nodes.head? = some x) :
    L.prev x = before := by
  cases nodes with
  | nil => cases hHead
  | cons y ys =>
      have hEq : y = x := by simpa using hHead
      exact hEq ▸ hLinked.1

/- The last of some linked nodes links on out. -/
omit [DecidableEq ι] in
theorem Linked.next_of_getLast?
    {L : Links ι}
    {before after : Option ι}
    {nodes : List ι}
    {x : ι}
    (hLinked : L.Linked before nodes after)
    (hLast : nodes.getLast? = some x) :
    L.next x = after := by
  induction nodes generalizing before with
  | nil => cases hLast
  | cons y ys ih =>
      cases ys with
      | nil =>
          have hEq : y = x := by simpa using hLast
          simpa [hEq] using hLinked.2.1
      | cons z zs =>
          exact ih hLinked.2.2
            (by rwa [List.getLast?_cons_cons] at hLast)

/- Only the links of its own nodes matter to a list. -/
omit [DecidableEq ι] in
theorem Linked.congr
    {L M : Links ι}
    {before after : Option ι}
    {nodes : List ι}
    (hNext : ∀ x ∈ nodes, M.next x = L.next x)
    (hPrev : ∀ x ∈ nodes, M.prev x = L.prev x)
    (hLinked : L.Linked before nodes after) :
    M.Linked before nodes after := by
  induction nodes generalizing before with
  | nil => trivial
  | cons x xs ih =>
      rcases hLinked with ⟨hBefore, hAfter, hRest⟩
      refine ⟨?_, ?_, ?_⟩
      · rw [hPrev x (by simp), hBefore]
      · rw [hNext x (by simp), hAfter]
      · exact ih (fun y hy => hNext y (by simp [hy]))
          (fun y hy => hPrev y (by simp [hy])) hRest

/-
  Linked nodes stay linked between new neighbours when only
  the outer links are redirected to them.
-/
theorem Linked.retarget
    {L M : Links ι}
    {before after before' after' : Option ι}
    {nodes : List ι}
    (hNodup : nodes.Nodup)
    (hNext : ∀ x ∈ nodes, M.next x =
      if nodes.getLast? = some x then after' else L.next x)
    (hPrev : ∀ x ∈ nodes, M.prev x =
      if nodes.head? = some x then before' else L.prev x)
    (hLinked : L.Linked before nodes after) :
    M.Linked before' nodes after' := by
  induction nodes generalizing before before' with
  | nil => trivial
  | cons x xs ih =>
      rcases hLinked with ⟨hBefore, hAfter, hRest⟩
      rcases List.nodup_cons.mp hNodup with
        ⟨hNotMem, hNodupRest⟩
      refine ⟨by simpa using hPrev x (by simp), ?_, ?_⟩
      · cases xs with
        | nil => simpa using hNext x (by simp)
        | cons y ys =>
            have hNe :
                (x :: y :: ys).getLast? ≠ some x := by
              intro hLast
              exact hNotMem
                (List.mem_of_getLast? (by simpa using hLast))
            rw [hNext x (by simp), if_neg hNe, hAfter]
            rfl
      · apply ih hNodupRest ?_ ?_ hRest
        · intro y hy
          rw [hNext y (by simp [hy])]
          cases xs with
          | nil => cases hy
          | cons z zs => rw [List.getLast?_cons_cons]
        · intro y hy
          have hNe : x ≠ y := by
            intro hEq
            exact hNotMem (hEq ▸ hy)
          rw [hPrev y (by simp [hy])]
          simp only [List.head?_cons, Option.some.injEq, hNe,
            if_false]
          cases xs with
          | nil => cases hy
          | cons z zs =>
              by_cases hHead : z = y
              · subst hHead
                simpa using hRest.1
              · simp [hHead]

end Links

------------------------------------------------------------
-- Linking and Unlinking
------------------------------------------------------------

namespace Links

variable {ι : Type} [DecidableEq ι]

/- Assign one node's `next` link. -/
def setNext
    (L : Links ι)
    (x : ι)
    (target : Option ι) : Links ι :=
  { L with next := Function.update L.next x target }

/- Assign one node's `prev` link. -/
def setPrev
    (L : Links ι)
    (x : ι)
    (target : Option ι) : Links ι :=
  { L with prev := Function.update L.prev x target }

/-
  Put `t` between two neighbours; a missing left neighbour
  makes `t` the head.
-/
def linkBetween
    (L : Links ι)
    (t : ι)
    (left right : Option ι) : Links ι :=
  let linked :=
    match left with
    | none => { L with head := some t }.setNext t right
    | some q =>
        ((L.setNext q (some t)).setNext t right).setPrev t
          (some q)
  match right with
  | none => linked
  | some n => linked.setPrev n (some t)

/- Link the node after `t` back to the one before it. -/
def bypassNext
    (L : Links ι)
    (t : ι) : Links ι :=
  match L.next t with
  | none => L
  | some n => L.setPrev n (L.prev t)

/- Link the node before `t`, or the head, past `t`. -/
def bypassPrev
    (L : Links ι)
    (t : ι) : Links ι :=
  match L.prev t with
  | some p => L.setNext p (L.next t)
  | none => { L with head := L.next t }

/- Take `t` out: its neighbours are linked to each other. -/
def unlink
    (L : Links ι)
    (t : ι) : Links ι :=
  (((L.bypassNext t).bypassPrev t).setNext t none).setPrev
    t none

@[simp] theorem linkBetween_head
    (L : Links ι)
    (t : ι)
    (left right : Option ι) :
    (L.linkBetween t left right).head =
      if left = none then some t else L.head := by
  cases left <;> cases right <;>
    simp [linkBetween, setNext, setPrev]

/- After linking, `t` and its left neighbour link right. -/
theorem linkBetween_next
    (L : Links ι)
    (t x : ι)
    (left right : Option ι) :
    (L.linkBetween t left right).next x =
      if x = t then right
      else if left = some x then some t
      else L.next x := by
  cases left <;> cases right <;>
    simp [linkBetween, setNext, setPrev,
      Function.update_apply, eq_comm]

/-
  After linking, `t` and its right neighbour link left. At
  the head `t` keeps the `prev` it came with.
-/
theorem linkBetween_prev
    (L : Links ι)
    (t x : ι)
    (left right : Option ι) :
    (L.linkBetween t left right).prev x =
      if right = some x then some t
      else if x = t ∧ left ≠ none then left
      else L.prev x := by
  cases left <;> cases right <;>
    simp [linkBetween, setNext, setPrev,
      Function.update_apply, eq_comm]

theorem unlink_head
    (L : Links ι)
    (t : ι)
    (hNext : L.next t ≠ some t) :
    (L.unlink t).head =
      if L.prev t = none then L.next t else L.head := by
  cases hN : L.next t with
  | none =>
      cases hP : L.prev t <;>
        simp [unlink, bypassNext, bypassPrev, setNext,
          setPrev, hN, hP]
  | some n =>
      have hNe : t ≠ n := by
        intro hEq
        exact hNext (by rw [hN, hEq])
      cases hP : L.prev t <;>
        simp [unlink, bypassNext, bypassPrev, setNext,
          setPrev, hN, hP, hNe]

theorem unlink_next
    (L : Links ι)
    (t x : ι)
    (hNext : L.next t ≠ some t) :
    (L.unlink t).next x =
      if x = t then none
      else if L.prev t = some x then L.next t
      else L.next x := by
  cases hN : L.next t with
  | none =>
      cases hP : L.prev t <;>
        simp [unlink, bypassNext, bypassPrev, setNext,
          setPrev, hN, hP,
          Function.update_apply, eq_comm]
  | some n =>
      have hNe : t ≠ n := by
        intro hEq
        exact hNext (by rw [hN, hEq])
      cases hP : L.prev t <;>
        simp [unlink, bypassNext, bypassPrev, setNext,
          setPrev, hN, hP,
          Function.update_apply, hNe, eq_comm]

theorem unlink_prev
    (L : Links ι)
    (t x : ι)
    (hNext : L.next t ≠ some t) :
    (L.unlink t).prev x =
      if x = t then none
      else if L.next t = some x then L.prev t
      else L.prev x := by
  cases hN : L.next t with
  | none =>
      cases hP : L.prev t <;>
        simp [unlink, bypassNext, bypassPrev, setNext,
          setPrev, hN, hP,
          Function.update_apply]
  | some n =>
      have hNe : t ≠ n := by
        intro hEq
        exact hNext (by rw [hN, hEq])
      cases hP : L.prev t <;>
        simp [unlink, bypassNext, bypassPrev, setNext,
          setPrev, hN, hP,
          Function.update_apply, hNe, eq_comm]

/-
  Linking a fresh node between the two parts of a list
  inserts it there. The node's `prev` must have been
  cleared: the head case does not write it.
-/
theorem linkBetween_lists
    {L : Links ι}
    {xs ys : List ι}
    {t : ι}
    (hLists : L.Lists (xs ++ ys))
    (hNodup : (xs ++ ys).Nodup)
    (hFresh : t ∉ xs ++ ys)
    (hCleared : L.prev t = none) :
    (L.linkBetween t xs.getLast? ys.head?).Lists
      (xs ++ t :: ys) := by
  rcases hLists with ⟨hHead, hLinked⟩
  rcases (linked_append_iff L xs ys _ _).mp hLinked with
    ⟨hLeft, hRight⟩
  simp only [List.mem_append, not_or] at hFresh
  rcases hFresh with ⟨hFreshX, hFreshY⟩
  rcases List.nodup_append.mp hNodup with
    ⟨hNodupX, hNodupY, hDisjoint⟩
  have hHeadNotX : ∀ x ∈ xs, ys.head? ≠ some x := by
    intro x hx hHead
    exact hDisjoint x hx x (List.mem_of_head? hHead) rfl
  have hLastNotY : ∀ y ∈ ys, xs.getLast? ≠ some y := by
    intro y hy hLast
    exact hDisjoint y (List.mem_of_getLast? hLast) y hy rfl
  constructor
  · rw [linkBetween_head]
    cases xs with
    | nil => simp
    | cons x xs => simpa [List.getLast?_cons] using hHead
  · apply (linked_append_iff _ xs (t :: ys) _ _).mpr
    refine ⟨?_, ?_, ?_, ?_⟩
    · -- the left part now ends in a link to `t`
      apply hLeft.retarget hNodupX
      · intro x hx
        have hNe : x ≠ t := fun hEq => hFreshX (hEq ▸ hx)
        rw [linkBetween_next, if_neg hNe]
        rfl
      · intro x hx
        have hNe : x ≠ t := fun hEq => hFreshX (hEq ▸ hx)
        rw [linkBetween_prev, if_neg (hHeadNotX x hx)]
        by_cases hFirst : xs.head? = some x
        · simp [hNe, hFirst, hLeft.prev_of_head? hFirst]
        · simp [hNe, hFirst]
    · rw [linkBetween_prev]
      have hNotHead : ys.head? ≠ some t := by
        intro hHeadT
        exact hFreshY (List.mem_of_head? hHeadT)
      rw [if_neg hNotHead]
      cases hLast : xs.getLast? with
      | none => simp [hCleared]
      | some q => simp
    · rw [linkBetween_next, if_pos rfl]
      simp
    · -- the right part now starts with a link to `t`
      apply hRight.retarget hNodupY
      · intro y hy
        have hNe : y ≠ t := fun hEq => hFreshY (hEq ▸ hy)
        rw [linkBetween_next, if_neg hNe,
          if_neg (hLastNotY y hy)]
        by_cases hLast : ys.getLast? = some y
        · rw [if_pos hLast, hRight.next_of_getLast? hLast]
        · rw [if_neg hLast]
      · intro y hy
        have hNe : y ≠ t := fun hEq => hFreshY (hEq ▸ hy)
        rw [linkBetween_prev]
        simp [hNe]

/- Unlinking a node of a list removes it from the list. -/
theorem unlink_lists
    {L : Links ι}
    {xs ys : List ι}
    {t : ι}
    (hLists : L.Lists (xs ++ t :: ys))
    (hNodup : (xs ++ t :: ys).Nodup) :
    (L.unlink t).Lists (xs ++ ys) := by
  rcases hLists with ⟨hHead, hLinked⟩
  rcases (linked_append_iff L xs (t :: ys) _ _).mp hLinked
    with ⟨hLeft, hPrevT, hNextT, hRight⟩
  simp only [Option.or_none] at hPrevT hNextT
  rcases List.nodup_append.mp hNodup with
    ⟨hNodupX, hNodupTY, hDisjoint⟩
  rcases List.nodup_cons.mp hNodupTY with
    ⟨hNotMemY, hNodupY⟩
  have hNotMemX : t ∉ xs := by
    intro hMem
    exact hDisjoint t hMem t (by simp) rfl
  have hNoLoop : L.next t ≠ some t := by
    intro hLoop
    exact hNotMemY
      (List.mem_of_head? (hNextT.symm.trans hLoop))
  have hHeadNotX : ∀ x ∈ xs, ys.head? ≠ some x := by
    intro x hx hHeadX
    exact hDisjoint x hx x
      (List.mem_cons_of_mem _ (List.mem_of_head? hHeadX)) rfl
  have hLastNotY : ∀ y ∈ ys, xs.getLast? ≠ some y := by
    intro y hy hLast
    exact hDisjoint y (List.mem_of_getLast? hLast) y
      (List.mem_cons_of_mem _ hy) rfl
  constructor
  · rw [unlink_head L t hNoLoop, hPrevT, hNextT, hHead]
    cases xs with
    | nil => simp
    | cons x xs => simp [List.getLast?_cons]
  · apply (linked_append_iff _ xs ys _ _).mpr
    constructor
    · apply hLeft.retarget hNodupX
      · intro x hx
        have hNe : x ≠ t := fun hEq => hNotMemX (hEq ▸ hx)
        rw [unlink_next L t x hNoLoop, if_neg hNe, hPrevT,
          hNextT]
        simp
      · intro x hx
        have hNe : x ≠ t := fun hEq => hNotMemX (hEq ▸ hx)
        rw [unlink_prev L t x hNoLoop, if_neg hNe, hNextT,
          if_neg (hHeadNotX x hx)]
        by_cases hFirst : xs.head? = some x
        · rw [if_pos hFirst, hLeft.prev_of_head? hFirst]
        · rw [if_neg hFirst]
    · apply hRight.retarget hNodupY
      · intro y hy
        have hNe : y ≠ t := fun hEq => hNotMemY (hEq ▸ hy)
        rw [unlink_next L t y hNoLoop, if_neg hNe, hPrevT,
          if_neg (hLastNotY y hy)]
        by_cases hLast : ys.getLast? = some y
        · rw [if_pos hLast, hRight.next_of_getLast? hLast]
        · rw [if_neg hLast]
      · intro y hy
        have hNe : y ≠ t := fun hEq => hNotMemY (hEq ▸ hy)
        rw [unlink_prev L t y hNoLoop, if_neg hNe, hNextT,
          hPrevT]
        simp

end Links

------------------------------------------------------------
-- Chains
------------------------------------------------------------

/- Following `next` from `head` visits exactly the nodes. -/
def Chain
    {ι : Type}
    (next : ι → Option ι) :
    Option ι → List ι → Prop
| head, [] => head = none
| head, x :: xs => head = some x ∧ Chain next (next x) xs

/- A chain depends only on the links of its own nodes. -/
theorem Chain.congr
    {ι : Type}
    {next next' : ι → Option ι}
    {head : Option ι}
    {nodes : List ι}
    (hNext : ∀ x ∈ nodes, next' x = next x)
    (hChain : Chain next head nodes) :
    Chain next' head nodes := by
  induction nodes generalizing head with
  | nil => exact hChain
  | cons x xs ih =>
      refine ⟨hChain.1, ?_⟩
      rw [hNext x (by simp)]
      exact ih (fun y hy => hNext y (by simp [hy])) hChain.2

/- A chain from a given head is unique. -/
theorem Chain.unique
    {ι : Type}
    {next : ι → Option ι}
    {head : Option ι}
    {nodes nodes' : List ι}
    (hChain : Chain next head nodes)
    (hChain' : Chain next head nodes') :
    nodes = nodes' := by
  induction nodes generalizing head nodes' with
  | nil =>
      cases nodes' with
      | nil => rfl
      | cons x xs => cases hChain.symm.trans hChain'.1
  | cons x xs ih =>
      cases nodes' with
      | nil => cases hChain'.symm.trans hChain.1
      | cons y ys =>
          cases hChain.1.symm.trans hChain'.1
          rw [ih hChain.2 hChain'.2]

/- The `next` links of a doubly linked list are a chain. -/
theorem Links.Lists.chain
    {ι : Type} [DecidableEq ι]
    {L : Links ι}
    {nodes : List ι}
    (hLists : L.Lists nodes) :
    Chain L.next L.head nodes := by
  have hGeneral :
      ∀ (nodes : List ι) (before head : Option ι),
        head = nodes.head? → L.Linked before nodes none →
          Chain L.next head nodes := by
    intro nodes
    induction nodes with
    | nil => exact fun _ _ hHead _ => hHead
    | cons x xs ih =>
        rintro before head hHead ⟨-, hNext, hRest⟩
        exact ⟨hHead, ih _ _ (by simpa using hNext) hRest⟩
  exact hGeneral nodes none L.head hLists.1 hLists.2

end DoublyLinked
