import NetBlocks.Lib.Runs
import Mathlib.Logic.Function.Basic

/-
  Nodes that take steps of their own and exchange messages
  over a network that loses, repeats and reorders them, and
  an induction rule for what each node may assume of the
  messages it receives.

  Main declarations:
    * `Nodes` and `Nodes.Steps`
    * `Nodes.Guarantees`
    * `Nodes.Guarantees.invariant_of_run`
-/

namespace MessageNetwork

open TransitionSystem

variable {ι S L M R : Type}

------------------------------------------------------------
-- Nodes
------------------------------------------------------------

/-
  A kind of node: its steps, the message that a step receives,
  and all that a node sent so far. A message `x` may arrive as
  any `y` that copies it.
-/
structure Nodes (S L M R : Type) where
  step : S → L → S → Prop
  receives : L → Option R
  sent : S → List M
  copies : M → R → Prop

namespace Nodes

/- A message that some node sent, as it may arrive. -/
def OnAir
    (nodes : Nodes S L M R)
    (n : ι → S)
    (y : R) : Prop :=
  ∃ i, ∃ x ∈ nodes.sent (n i), nodes.copies x y

/-
  One node takes a step. What it receives was sent; it stays
  on the air, and need not arrive at all.
-/
inductive Steps
    [DecidableEq ι]
    (nodes : Nodes S L M R)
    (n : ι → S) : ι × L → (ι → S) → Prop
| step {i : ι} {label : L} {s' : S} :
    nodes.step (n i) label s' →
    (∀ y, nodes.receives label = some y →
      nodes.OnAir n y) →
    Steps nodes n (i, label) (Function.update n i s')

------------------------------------------------------------
-- Assumptions and Guarantees
------------------------------------------------------------

/-
  Messages have a known origin, which is never forgotten. A
  node whose invariant rests on the known messages keeps it
  when it receives a known one, and sends only such that are
  known by then.
-/
structure Guarantees
    [DecidableEq ι]
    (nodes : Nodes S L M R)
    (known : (ι → S) → R → Prop)
    (inv : (R → Prop) → S → Prop) : Prop where
  grows : ∀ n i label s', nodes.step (n i) label s' →
    ∀ y, known n y → known (Function.update n i s') y
  weakens : ∀ (before after : R → Prop) s,
    (∀ y, before y → after y) → inv before s → inv after s
  sends : ∀ n i, inv (known n) (n i) →
    ∀ x ∈ nodes.sent (n i), ∀ y, nodes.copies x y → known n y
  keeps : ∀ n i label s', inv (known n) (n i) →
    nodes.step (n i) label s' →
    (∀ y, nodes.receives label = some y → known n y) →
    inv (known (Function.update n i s')) s'

section Rule

variable
    [DecidableEq ι]
    {nodes : Nodes S L M R}
    {known : (ι → S) → R → Prop}
    {inv : (R → Prop) → S → Prop}
    {n n' : ι → S}
    {label : ι × L}

/- Whatever is on the air is known. -/
theorem Guarantees.onAir
    {y : R}
    (hGuarantees : nodes.Guarantees known inv)
    (hInv : ∀ i, inv (known n) (n i))
    (hAir : nodes.OnAir n y) :
    known n y := by
  rcases hAir with ⟨i, x, hSent, hCopies⟩
  exact hGuarantees.sends n i (hInv i) x hSent y hCopies

/- One step keeps the invariants of all nodes. -/
theorem Guarantees.step
    (hGuarantees : nodes.Guarantees known inv)
    (hInv : ∀ i, inv (known n) (n i))
    (hStep : nodes.Steps n label n') :
    ∀ i, inv (known n') (n' i) := by
  cases hStep with
  | @step i label s' hLocal hReceives =>
      intro j
      by_cases hEq : j = i
      · subst hEq
        rw [Function.update_self]
        apply hGuarantees.keeps n j label s' (hInv j) hLocal
        intro y hy
        exact hGuarantees.onAir hInv (hReceives y hy)
      · rw [Function.update_of_ne hEq]
        apply hGuarantees.weakens (known n) _ (n j) _ (hInv j)
        exact hGuarantees.grows n i label s' hLocal

/- So does a run. -/
theorem Guarantees.invariant_of_run
    {labels : List (ι × L)}
    (hGuarantees : nodes.Guarantees known inv)
    (hInit : ∀ i, inv (known n) (n i))
    (hRun : Run nodes.Steps n labels n') :
    ∀ i, inv (known n') (n' i) := by
  let holds : (ι → S) → Prop :=
    fun n => ∀ i, inv (known n) (n i)
  have hStep : ∀ n₁ label n₂, holds n₁ →
      nodes.Steps n₁ label n₂ → holds n₂ :=
    fun _ _ _ hInv hStep => hGuarantees.step hInv hStep
  exact hRun.invariant hStep hInit

end Rule

end Nodes

end MessageNetwork
