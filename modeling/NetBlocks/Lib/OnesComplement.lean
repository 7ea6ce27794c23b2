import Mathlib.Algebra.Order.Ring.Nat
import Mathlib.Tactic.Common

/-
  One's-complement arithmetic on the numbers up to `m`, where
  `m` is the largest one: a carry out of the top is added in
  again at the bottom.

  Main declarations:
    * `add` and `sum`
    * `sum_eq`
    * `fold` and `fold_fold_le`
    * `norm_complement`
-/

namespace OnesComplement

variable {m : Nat}

------------------------------------------------------------
-- Sums with the Carry Added Around
------------------------------------------------------------

/- Addition with end-around carry. -/
def add
    (m a b : Nat) : Nat :=
  if m < a + b then a + b - m else a + b

/- The sum of a list, from zero on. -/
def sum
    (m : Nat)
    (xs : List Nat) : Nat :=
  xs.foldl (add m) 0

/- The number up to `m` that a sum comes to. -/
def norm
    (m n : Nat) : Nat :=
  if n = 0 then 0 else (n - 1) % m + 1

theorem norm_of_le
    {n : Nat}
    (hLe : n ≤ m) :
    norm m n = n := by
  unfold norm
  split
  · next hZero => exact hZero.symm
  · rw [Nat.mod_eq_of_lt (by omega)]
    omega

/- Multiples of `m` do not matter, above zero. -/
theorem norm_add_mul
    {n : Nat}
    (hPos : 0 < n)
    (k : Nat) :
    norm m (n + m * k) = norm m n := by
  have hShift : n + m * k - 1 = n - 1 + m * k := by omega
  rw [norm, norm, if_neg (by omega), if_neg (by omega),
    hShift, Nat.add_mul_mod_self_left]

/- A sum goes on from the number it came to. -/
theorem add_norm
    {n b : Nat}
    (hPos : 0 < m)
    (hLe : b ≤ m) :
    add m (norm m n) b = norm m (n + b) := by
  by_cases hZero : n = 0
  · rw [hZero, Nat.zero_add, norm_of_le hLe,
      norm_of_le (Nat.zero_le m), add, Nat.zero_add,
      if_neg (by omega)]
  · let r := (n - 1) % m + 1
    have hMod : (n - 1) % m < m := Nat.mod_lt _ hPos
    have hSplit : n + b = r + b + m * ((n - 1) / m) := by
      have hDiv := Nat.mod_add_div (n - 1) m
      omega
    have hNorm : norm m n = r := if_neg hZero
    rw [hSplit, norm_add_mul (by omega), hNorm, add]
    split
    · -- the carry is what is left of `m`
      have hCarry : r + b = r + b - m + m * 1 := by omega
      rw [hCarry, norm_add_mul (by omega),
        norm_of_le (by omega), Nat.mul_one,
        Nat.add_sub_cancel]
    · rw [norm_of_le (by omega)]

theorem sum_eq
    {xs : List Nat}
    (hPos : 0 < m)
    (hLe : ∀ x ∈ xs, x ≤ m) :
    sum m xs = norm m xs.sum := by
  have hFold : ∀ n, xs.foldl (add m) (norm m n) =
      norm m (n + xs.sum) := by
    induction xs with
    | nil => intro n; rfl
    | cons x xs ih =>
        intro n
        have hFirst := hLe x (List.mem_cons_self ..)
        have hRest := ih (fun y hy =>
          hLe y (List.mem_cons_of_mem _ hy))
        rw [List.foldl_cons, add_norm hPos hFirst, hRest,
          List.sum_cons, Nat.add_assoc]
  have hStart := hFold 0
  rw [norm_of_le (Nat.zero_le m), Nat.zero_add] at hStart
  exact hStart

------------------------------------------------------------
-- Folding
------------------------------------------------------------

/- The low part and the carries above it, added up. -/
def fold
    (m n : Nat) : Nat :=
  n % (m + 1) + n / (m + 1)

/- Folding takes multiples of `m` away. -/
theorem exists_fold
    (m n : Nat) :
    ∃ k, n = fold m n + m * k := by
  refine ⟨n / (m + 1), ?_⟩
  have hDiv := Nat.mod_add_div n (m + 1)
  rw [Nat.add_mul, Nat.one_mul] at hDiv
  unfold fold
  omega

/- What fits into two parts fits into one, folded twice. -/
theorem fold_fold_le
    {n : Nat}
    (hLt : n < (m + 1) * (m + 1)) :
    fold m (fold m n) ≤ m := by
  have hLow : n % (m + 1) < m + 1 :=
    Nat.mod_lt _ (Nat.succ_pos m)
  have hHigh : n / (m + 1) < m + 1 :=
    Nat.div_lt_of_lt_mul hLt
  have hOnce : fold m n ≤ 2 * m := by
    unfold fold
    omega
  have hDiv := Nat.mod_add_div (fold m n) (m + 1)
  have hAgain : fold m n % (m + 1) < m + 1 :=
    Nat.mod_lt _ (Nat.succ_pos m)
  by_cases hCarry : fold m n < m + 1
  · rw [fold, Nat.mod_eq_of_lt hCarry,
      Nat.div_eq_of_lt hCarry]
    omega
  · have hQuot : fold m n / (m + 1) = 1 :=
      Nat.div_eq_of_lt_le (by omega) (by omega)
    rw [hQuot, Nat.mul_one] at hDiv
    rw [fold, hQuot]
    omega

/-
  A sum and the complement of what it folds to come to the
  largest number.
-/
theorem norm_complement
    {n : Nat}
    (hPos : 0 < m)
    (hLt : n < (m + 1) * (m + 1)) :
    norm m (n + (m - fold m (fold m n))) = m := by
  have hLe := fold_fold_le hLt
  rcases exists_fold m n with ⟨k, hOnce⟩
  rcases exists_fold m (fold m n) with ⟨k', hTwice⟩
  have hSum : n + (m - fold m (fold m n)) =
      m + m * (k' + k) := by
    rw [Nat.mul_add]
    omega
  rw [hSum, norm_add_mul hPos, norm_of_le (Nat.le_refl m)]

end OnesComplement
