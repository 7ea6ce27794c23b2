import Mathlib.Data.Fintype.Order
import Mathlib.Data.List.Nodup

/-
  Finite dependency graphs, and orders that put every node
  behind the nodes it depends on.

  Main declarations:
    * `Acyclic`, `Closed`, and `Sorted`
    * `Acyclic.exists_source`
    * `Sorted.acyclic`
-/

namespace TopologicalOrder

open Relation

variable {α : Type}

/- A node of the graph depends on another node. -/
def DependsOn
    (depends : α → List α)
    (nodes : List α)
    (a b : α) : Prop :=
  a ∈ nodes ∧ b ∈ depends a

/- No node depends on itself, over any number of nodes. -/
def Acyclic
    (depends : α → List α)
    (nodes : List α) : Prop :=
  ∀ a, ¬ TransGen (DependsOn depends nodes) a a

/- Nodes depend on nodes of the graph only. -/
def Closed
    (depends : α → List α)
    (nodes : List α) : Prop :=
  ∀ a ∈ nodes, ∀ b ∈ depends a, b ∈ nodes

instance
    [DecidableEq α]
    (depends : α → List α)
    (nodes : List α) :
    Decidable (Closed depends nodes) := by
  unfold Closed
  infer_instance

/- Every element comes after all that it depends on. -/
def Sorted
    (depends : α → List α)
    (order : List α) : Prop :=
  ∀ before a after, order = before ++ a :: after →
    ∀ b ∈ depends a, b ∈ before

variable
    {depends : α → List α}
    {nodes order : List α}

theorem sorted_nil : Sorted depends [] := by
  intro before a after hSplit
  cases before <;> cases hSplit

/- A node goes to the end behind what it depends on. -/
theorem Sorted.concat
    {a : α}
    (hSorted : Sorted depends order)
    (hBehind : ∀ b ∈ depends a, b ∈ order) :
    Sorted depends (order ++ [a]) := by
  intro before c after hSplit b hb
  rcases List.eq_nil_or_concat after with
    rfl | ⟨rest, last, rfl⟩
  · rcases List.append_inj' hSplit rfl with ⟨rfl, hLast⟩
    cases hLast
    exact hBehind b hb
  · have hInner : order ++ [a] =
        (before ++ c :: rest) ++ [last] := by
      rw [hSplit]
      simp
    rcases List.append_inj' hInner rfl with ⟨hOrder, -⟩
    exact hSorted before c rest hOrder b hb

/- Ranks that decrease along dependencies exclude cycles. -/
theorem acyclic_of_rank
    (rank : α → Nat)
    (hRank : ∀ a ∈ nodes, ∀ b ∈ depends a,
      rank b < rank a) :
    Acyclic depends nodes := by
  have hPath : ∀ a b,
      TransGen (DependsOn depends nodes) a b →
        rank b < rank a := by
    intro a b hDepends
    induction hDepends with
    | single hEdge => exact hRank _ hEdge.1 _ hEdge.2
    | tail _ hEdge ih =>
        exact (hRank _ hEdge.1 _ hEdge.2).trans ih
  intro a hCycle
  exact Nat.lt_irrefl _ (hPath a a hCycle)

/-
  Among any nodes of an acyclic graph, one depends on none
  of them.
-/
theorem Acyclic.exists_source
    {pending : List α}
    (hAcyclic : Acyclic depends nodes)
    (hPending : pending ⊆ nodes)
    (hNonempty : pending ≠ []) :
    ∃ a ∈ pending, ∀ b ∈ depends a, b ∉ pending := by
  let Pending := { a // a ∈ pending }
  let before : Pending → Pending → Prop := fun b a =>
    TransGen (DependsOn depends nodes) a.val b.val
  have hFinite : Finite Pending :=
    Set.Finite.to_subtype (List.finite_toSet pending)
  have hTrans : IsTrans Pending before :=
    ⟨fun _ _ _ hFirst hSecond => hSecond.trans hFirst⟩
  have hIrrefl : Std.Irrefl before :=
    ⟨fun a => hAcyclic a.val⟩
  have hWellFounded : WellFounded before :=
    Finite.wellFounded_of_trans_of_irrefl before
  rcases List.exists_mem_of_ne_nil pending hNonempty with
    ⟨x, hx⟩
  rcases hWellFounded.has_min Set.univ ⟨⟨x, hx⟩, trivial⟩
    with ⟨⟨a, ha⟩, -, hMin⟩
  refine ⟨a, ha, ?_⟩
  intro b hb hIn
  exact hMin ⟨b, hIn⟩ trivial
    (.single ⟨hPending ha, hb⟩)

/- A graph with a sorted order has no cycles. -/
theorem Sorted.acyclic
    [DecidableEq α]
    (hSorted : Sorted depends order)
    (hNodup : order.Nodup)
    (hOrder : nodes ⊆ order) :
    Acyclic depends nodes := by
  apply acyclic_of_rank order.idxOf
  intro a ha b hb
  rcases List.append_of_mem (hOrder ha) with
    ⟨before, after, hSplit⟩
  have hBefore := hSorted before a after hSplit b hb
  rw [hSplit] at hNodup ⊢
  have hNotBefore : a ∉ before := by
    intro hIn
    exact (List.nodup_append.mp hNodup).2.2 a hIn a
      (List.mem_cons_self ..) rfl
  rw [List.idxOf_append_of_mem hBefore,
    List.idxOf_append_of_notMem hNotBefore,
    List.idxOf_cons_self]
  exact (List.idxOf_lt_length_of_mem hBefore).trans_le
    (Nat.le_add_right _ _)

end TopologicalOrder
