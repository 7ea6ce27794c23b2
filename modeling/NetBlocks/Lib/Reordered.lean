import Mathlib.Data.List.Basic

/-
  Lists up to swaps of neighbours, where no element takes
  part in two swaps.

  Main declarations:
    * `Reordered`
    * `Reordered.of_map`
-/

variable {α β : Type}

/-
  `Reordered xs ys` holds when `ys` is `xs` with some of its
  elements swapped with the one behind them.
-/
inductive Reordered : List α → List α → Prop
| nil : Reordered [] []
| keep (a : α) {xs ys : List α} :
    Reordered xs ys → Reordered (a :: xs) (a :: ys)
| swap (a b : α) {xs ys : List α} :
    Reordered xs ys →
    Reordered (a :: b :: xs) (b :: a :: ys)

namespace Reordered

theorem length_eq
    {xs ys : List α}
    (hReordered : Reordered xs ys) :
    ys.length = xs.length := by
  induction hReordered with
  | nil => rfl
  | keep a _ ih => simp [ih]
  | swap a b _ ih => simp [ih]

/- What is done to the images was done to the elements. -/
theorem of_map
    {f : α → β}
    {xs : List α}
    {ys : List β}
    (hReordered : Reordered (xs.map f) ys) :
    ∃ zs, Reordered xs zs ∧ ys = zs.map f := by
  generalize hImage : xs.map f = images at hReordered
  induction hReordered generalizing xs with
  | nil =>
      rw [List.map_eq_nil_iff] at hImage
      subst hImage
      exact ⟨[], .nil, rfl⟩
  | keep a _ ih =>
      rcases List.map_eq_cons_iff.mp hImage with
        ⟨x, xs, rfl, rfl, hRest⟩
      rcases ih hRest with ⟨zs, hZs, rfl⟩
      exact ⟨x :: zs, .keep x hZs, rfl⟩
  | swap a b _ ih =>
      rcases List.map_eq_cons_iff.mp hImage with
        ⟨x, xs₁, rfl, rfl, hTail⟩
      rcases List.map_eq_cons_iff.mp hTail with
        ⟨y, xs₂, rfl, rfl, hRest⟩
      rcases ih hRest with ⟨zs, hZs, rfl⟩
      exact ⟨y :: x :: zs, .swap x y hZs, rfl⟩

end Reordered
