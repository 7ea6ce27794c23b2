import Mathlib.Data.List.Perm.Basic
import Mathlib.Tactic.Common

/-
  A loop that takes elements out of a list, and each time puts
  the last one in the gap and looks at it next.

  Main declarations:
    * `removeAt` and `removeAt_perm`
    * `sweep`, `sweep_perm` and `sweep_all`
-/

namespace SwapRemoval

variable {α : Type}

------------------------------------------------------------
-- Removing One Element
------------------------------------------------------------

/- The last element takes the place of the one at an index. -/
def removeAt
    (q : List α)
    (i : Nat) : List α :=
  match q.getLast? with
  | none => q
  | some last => (q.set i last).dropLast

theorem removeAt_append_singleton
    (q : List α)
    (last : α)
    (i : Nat) :
    removeAt (q ++ [last]) i =
      ((q ++ [last]).set i last).dropLast := by
  rw [removeAt, List.getLast?_concat]

/- It is gone, and all others are still there. -/
theorem removeAt_perm
    {q : List α}
    {i : Nat}
    {x : α}
    (hx : q[i]? = some x) :
    (x :: removeAt q i).Perm q := by
  rcases q.eq_nil_or_concat' with rfl | ⟨init, last, rfl⟩
  · cases hx
  · rw [removeAt_append_singleton]
    rcases Nat.lt_trichotomy i init.length with
      hLt | rfl | hGt
    · rw [List.set_append_left _ _ hLt, List.dropLast_concat]
      rw [List.getElem?_append_left hLt] at hx
      -- the gap is in front of the last element
      have hSplit := List.set_eq_take_append_cons_drop
        (l := init) (i := i) (a := last)
      have hOld : init = init.take i ++ x ::
          init.drop (i + 1) := by
        rcases List.getElem?_eq_some_iff.mp hx with ⟨h, rfl⟩
        rw [← List.drop_eq_getElem_cons h,
          List.take_append_drop]
      rw [hSplit, if_pos hLt]
      have hMove : (x :: (init.take i ++ last ::
          init.drop (i + 1))).Perm
          (last :: (init.take i ++ x ::
            init.drop (i + 1))) := by
        refine (List.Perm.cons x List.perm_middle).trans ?_
        refine (List.Perm.swap last x _).trans ?_
        exact List.Perm.cons last List.perm_middle.symm
      rw [← hOld] at hMove
      exact hMove.trans
        (List.perm_append_singleton last init).symm
    · -- the last element itself is removed
      have hEq : last = x := by
        rw [List.getElem?_concat_length] at hx
        exact Option.some.inj hx
      subst hEq
      rw [List.set_append_right _ _ (Nat.le_refl _),
        Nat.sub_self, List.set_cons_zero,
        List.dropLast_concat]
      exact (List.perm_append_singleton last init).symm
    · rw [List.getElem?_eq_none (by
        rw [List.length_append, List.length_singleton]
        omega)] at hx
      cases hx

/- Nothing new is put in. -/
theorem mem_of_mem_removeAt
    {q : List α}
    {i : Nat}
    {x : α}
    (hx : x ∈ removeAt q i) :
    x ∈ q := by
  cases hLast : q.getLast? with
  | none =>
      rw [removeAt, hLast] at hx
      exact hx
  | some last =>
      rw [removeAt, hLast] at hx
      rcases List.mem_or_eq_of_mem_set
          ((List.dropLast_sublist _).subset hx) with hx | hx
      · exact hx
      · rw [hx]
        exact List.mem_of_getLast? hLast

theorem length_removeAt
    {q : List α}
    {i : Nat}
    (hLt : i < q.length) :
    (removeAt q i).length + 1 = q.length :=
  (removeAt_perm (List.getElem?_eq_getElem hLt)).length_eq

/- The elements in front of the gap stay. -/
theorem take_removeAt
    {q : List α}
    {i : Nat}
    (hLt : i < q.length) :
    (removeAt q i).take i = q.take i := by
  rcases q.eq_nil_or_concat' with rfl | ⟨init, last, rfl⟩
  · cases hLt
  · rw [removeAt_append_singleton]
    rw [List.length_append, List.length_singleton] at hLt
    apply List.ext_getElem?
    intro j
    rw [List.getElem?_take, List.getElem?_take]
    split
    · next hj =>
        rw [List.getElem?_dropLast, List.length_set,
          List.length_append, List.length_singleton,
          if_pos (by omega),
          List.getElem?_set_ne (by omega)]
    · rfl

/- And so do those behind it, though not in their order. -/
theorem drop_removeAt_perm
    {q : List α}
    {i : Nat}
    (hLt : i < q.length) :
    ((removeAt q i).drop i).Perm (q.drop (i + 1)) := by
  have hAll := removeAt_perm (List.getElem?_eq_getElem hLt)
  have hNew : removeAt q i =
      q.take i ++ (removeAt q i).drop i := by
    rw [← take_removeAt hLt, List.take_append_drop]
  have hOld : q = q.take i ++ q[i] :: q.drop (i + 1) := by
    rw [← List.drop_eq_getElem_cons hLt,
      List.take_append_drop]
  have hSame : (q.take i ++ q[i] ::
      (removeAt q i).drop i).Perm
      (q.take i ++ q[i] :: q.drop (i + 1)) := by
    rw [← hOld]
    apply List.perm_middle.trans
    rw [← hNew]
    exact hAll
  exact ((List.perm_append_left_iff _).mp hSame).cons_inv

theorem map_removeAt
    {β : Type}
    (f : α → β)
    (q : List α)
    (i : Nat) :
    (removeAt q i).map f = removeAt (q.map f) i := by
  rcases q.eq_nil_or_concat' with rfl | ⟨init, last, rfl⟩
  · rfl
  · rw [List.map_append, List.map_singleton,
      removeAt_append_singleton, removeAt_append_singleton,
      List.map_dropLast, List.map_set, List.map_append,
      List.map_singleton]

/- An element that is put behind takes its old place again. -/
theorem removeAt_append_self
    {q : List α}
    {i : Nat}
    {x : α}
    (hx : q[i]? = some x) :
    removeAt (q ++ [x]) i = q := by
  rcases List.getElem?_eq_some_iff.mp hx with ⟨hLt, rfl⟩
  rw [removeAt_append_singleton, List.set_append_left _ _ hLt,
    List.set_getElem_self, List.dropLast_concat]

------------------------------------------------------------
-- Removing All of a Kind
------------------------------------------------------------

/-
  From an index on, take out the elements of a kind. They are
  listed in the order taken, with the list that is left.
-/
def sweep
    (kind : α → Bool) :
    Nat → Nat → List α → List α × List α
| 0, _, q => ([], q)
| fuel + 1, i, q =>
    match q[i]? with
    | none => ([], q)
    | some x =>
        if kind x then
          (x :: (sweep kind fuel i (removeAt q i)).1,
            (sweep kind fuel i (removeAt q i)).2)
        else
          sweep kind fuel (i + 1) q

section Sweep

variable
    {kind : α → Bool}
    {q : List α}
    {i fuel : Nat}
    {x : α}

theorem sweep_none
    (hx : q[i]? = none) :
    sweep kind (fuel + 1) i q = ([], q) := by
  rw [sweep, hx]

theorem sweep_takes
    (hx : q[i]? = some x)
    (hKind : kind x = true) :
    sweep kind (fuel + 1) i q =
      (x :: (sweep kind fuel i (removeAt q i)).1,
        (sweep kind fuel i (removeAt q i)).2) := by
  rw [sweep, hx]
  exact if_pos hKind

theorem sweep_leaves
    (hx : q[i]? = some x)
    (hKind : kind x = false) :
    sweep kind (fuel + 1) i q =
      sweep kind fuel (i + 1) q := by
  rw [sweep, hx]
  exact if_neg (by rw [hKind]; exact Bool.false_ne_true)

/-
  What is taken are the elements of the kind, and what is
  left are all others, each as often as before.
-/
theorem sweep_perm
    (hFuel : q.length < fuel + i)
    (hBefore : ∀ y ∈ q.take i, kind y = false) :
    (sweep kind fuel i q).1.Perm (q.filter kind) ∧
      (sweep kind fuel i q).2.Perm
        (q.filter (fun y => !kind y)) := by
  -- all elements in front of the index are of other kinds
  have hEnd : ∀ {q : List α} {i : Nat}, q.length ≤ i →
      (∀ y ∈ q.take i, kind y = false) →
      ([] : List α).Perm (q.filter kind) ∧
        q.Perm (q.filter (fun y => !kind y)) := by
    intro q i hLe hBefore
    rw [List.take_of_length_le hLe] at hBefore
    have hNone : q.filter kind = [] := by
      rw [List.filter_eq_nil_iff]
      intro y hy
      simp [hBefore y hy]
    have hAll : q.filter (fun y => !kind y) = q := by
      rw [List.filter_eq_self]
      intro y hy
      simp [hBefore y hy]
    rw [hNone, hAll]
    exact ⟨.refl _, .refl _⟩
  induction fuel generalizing i q with
  | zero => exact hEnd (by omega) hBefore
  | succ fuel ih =>
      cases hx : q[i]? with
      | none =>
          rw [sweep_none hx]
          exact hEnd (List.getElem?_eq_none_iff.mp hx) hBefore
      | some x =>
          have hLt : i < q.length :=
            (List.getElem?_eq_some_iff.mp hx).1
          cases hKind : kind x with
          | true =>
              have hPerm := removeAt_perm hx
              have hLength := length_removeAt hLt
              have hRest := ih (q := removeAt q i) (i := i)
                (by omega)
                (by rw [take_removeAt hLt]; exact hBefore)
              rw [sweep_takes hx hKind]
              refine ⟨?_, ?_⟩
              · refine (List.Perm.cons x hRest.1).trans ?_
                have hFilter := hPerm.filter kind
                rw [List.filter_cons_of_pos hKind] at hFilter
                exact hFilter
              · refine hRest.2.trans ?_
                have hFilter := hPerm.filter
                  (fun y => !kind y)
                rw [List.filter_cons_of_neg (by simp [hKind])]
                  at hFilter
                exact hFilter
          | false =>
              rw [sweep_leaves hx hKind]
              apply ih (by omega)
              intro y hy
              rw [List.take_add_one, hx, List.mem_append] at hy
              rcases hy with hy | hy
              · exact hBefore y hy
              · rw [Option.toList_some, List.mem_singleton]
                  at hy
                rw [hy, hKind]

/- Fuel for the whole list is enough. -/
theorem sweep_fuel
    {more : Nat}
    (hFuel : q.length < fuel + i)
    (hMore : q.length < more + i) :
    sweep kind fuel i q = sweep kind more i q := by
  induction fuel generalizing i q more with
  | zero =>
      have hEnd : q[i]? = none :=
        List.getElem?_eq_none (by omega)
      cases more with
      | zero => rfl
      | succ more =>
          rw [sweep_none hEnd]
          rfl
  | succ fuel ih =>
      cases hx : q[i]? with
      | none =>
          rw [sweep_none hx]
          cases more with
          | zero => rfl
          | succ more => rw [sweep_none hx]
      | some x =>
          have hLt : i < q.length :=
            (List.getElem?_eq_some_iff.mp hx).1
          have hLength := length_removeAt hLt
          cases more with
          | zero => omega
          | succ more =>
              cases hKind : kind x with
              | true =>
                  have hRest : sweep kind fuel i
                      (removeAt q i) =
                      sweep kind more i (removeAt q i) :=
                    ih (by omega) (by omega)
                  rw [sweep_takes hx hKind,
                    sweep_takes hx hKind, hRest]
              | false =>
                  rw [sweep_leaves hx hKind,
                    sweep_leaves hx hKind]
                  exact ih (by omega) (by omega)

/-
  If all are of the kind, the first is taken, and then the
  others from the last one on.
-/
theorem sweep_all
    {l : List α}
    (hFuel : l.length + 1 < fuel)
    (hAll : ∀ y ∈ x :: l, kind y = true) :
    sweep kind fuel 0 (x :: l) = (x :: l.reverse, []) := by
  induction fuel generalizing x l with
  | zero => omega
  | succ fuel ih =>
      rw [sweep_takes rfl (hAll x List.mem_cons_self)]
      rcases l.eq_nil_or_concat' with rfl | ⟨init, last, rfl⟩
      · have hEmpty : removeAt [x] 0 = [] := rfl
        rw [hEmpty]
        cases fuel with
        | zero => rfl
        | succ fuel =>
            rw [sweep_none rfl]
            rfl
      · have hLast : removeAt (x :: (init ++ [last])) 0 =
            last :: init := by
          rw [← List.cons_append, removeAt_append_singleton,
            List.cons_append, List.set_cons_zero,
            ← List.cons_append, List.dropLast_concat]
        rw [List.length_append, List.length_singleton]
          at hFuel
        rw [hLast, ih (by omega) (by
          intro y hy
          apply hAll
          simp only [List.mem_cons, List.mem_append,
            List.not_mem_nil, or_false] at hy ⊢
          tauto), List.reverse_append]
        rfl

end Sweep

end SwapRemoval
