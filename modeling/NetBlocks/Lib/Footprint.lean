import Mathlib.Data.Set.Piecewise

/-
  Footprints of fallible steps on a memory: the places that a
  step looks at and changes.

  A step acts on a set of places if the other places, whatever
  they hold, have no part in it: they do not change the result,
  and are not changed.

  Main declarations:
    * `Reads`, `Writes`, `ActsOn`, and `Confined`
    * `ActsOn.read`, `ActsOn.write`, and `ActsOn.bind`
    * `Confined.read`, `Confined.write`, and `ActsOn.confined`
    * `ActsOn.spares`
-/

namespace Footprint

universe u v

variable
    {A V α β : Type u}
    {ε : Type v}

------------------------------------------------------------
-- Steps
------------------------------------------------------------

section Steps

variable
    (S : Set A)
    [∀ a, Decidable (a ∈ S)]

/- What is read is in the places. -/
def Reads
    (get : (A → V) → Except ε α)
    (s : A → V)
    (v : α) : Prop :=
  ∀ s', Set.EqOn s' s S → get s' = .ok v

/- What is written is in the places, and depends on them. -/
def Writes
    (set : (A → V) → Except ε (A → V))
    (s t : A → V) : Prop :=
  ∀ s', Set.EqOn s' s S → set s' = .ok (S.piecewise t s')

/- A step with a result. -/
def ActsOn
    (step : (A → V) → Except ε (α × (A → V)))
    (s : A → V)
    (v : α)
    (t : A → V) : Prop :=
  ∀ s', Set.EqOn s' s S →
    step s' = .ok (v, S.piecewise t s')

/- A step with some result. -/
def Confined
    (step : (A → V) → Except ε (α × (A → V)))
    (s : A → V) : Prop :=
  ∃ v t, ActsOn S step s v t

end Steps

variable
    {S : Set A}
    [∀ a, Decidable (a ∈ S)]
    {s t u : A → V}
    {v : α}
    {w : β}

------------------------------------------------------------
-- Rules
------------------------------------------------------------

theorem ActsOn.self
    {step : (A → V) → Except ε (α × (A → V))}
    (hActs : ActsOn S step s v t) :
    step s = .ok (v, S.piecewise t s) :=
  hActs s (Set.eqOn_refl s S)

/- The second of two changes counts. -/
theorem piecewise_piecewise
    (s' : A → V) :
    S.piecewise u (S.piecewise t s') = S.piecewise u s' := by
  funext a
  by_cases hMem : a ∈ S
  · simp [hMem]
  · simp [hMem]

theorem actsOn_pure
    (s : A → V)
    (v : α) :
    ActsOn S (fun s => (pure (v, s) :
      Except ε (α × (A → V)))) s v s := by
  intro s' hSame
  have hSelf : S.piecewise s s' = s' := by
    funext a
    by_cases hMem : a ∈ S
    · rw [Set.piecewise_eq_of_mem _ _ _ hMem, hSame hMem]
    · exact Set.piecewise_eq_of_notMem _ _ _ hMem
  rw [hSelf]
  rfl

/- What follows acts on what was left. -/
theorem ActsOn.bind
    {first : (A → V) → Except ε (α × (A → V))}
    (second : α → (A → V) → Except ε (β × (A → V)))
    (hFirst : ActsOn S first s v t)
    (hSecond : ActsOn S (second v) t w u) :
    ActsOn S (fun s => first s >>= fun r => second r.1 r.2) s
      w u := by
  intro s' hSame
  have hRest := hSecond (S.piecewise t s')
    (Set.piecewise_eqOn S t s')
  rw [piecewise_piecewise] at hRest
  simp only [hFirst s' hSame]
  exact hRest

/- A value that was read is the same in every memory. -/
theorem ActsOn.read
    {get : (A → V) → Except ε α}
    {step : α → (A → V) → Except ε (β × (A → V))}
    (hRead : Reads S get s v)
    (hStep : ActsOn S (step v) s w t) :
    ActsOn S (fun s => get s >>= fun v => step v s) s w t := by
  intro s' hSame
  simp only [hRead s' hSame]
  exact hStep s' hSame

theorem ActsOn.write
    {set : (A → V) → Except ε (A → V)}
    {step : (A → V) → Except ε (β × (A → V))}
    (hWrite : Writes S set s t)
    (hStep : ActsOn S step t w u) :
    ActsOn S (fun s => set s >>= step) s w u := by
  intro s' hSame
  have hRest := hStep (S.piecewise t s')
    (Set.piecewise_eqOn S t s')
  rw [piecewise_piecewise] at hRest
  simp only [hWrite s' hSame]
  exact hRest

/- A step with nothing but a change. -/
theorem Writes.actsOn
    {set : (A → V) → Except ε (A → V)}
    (hWrite : Writes S set s t)
    (v : α) :
    ActsOn S (fun s => set s >>= fun s =>
      (pure (v, s) : Except ε (α × (A → V)))) s v t :=
  ActsOn.write hWrite (actsOn_pure t v)

/- A read of something, and what is written of it. -/
theorem Writes.read
    {get : (A → V) → Except ε α}
    {set : α → (A → V) → Except ε (A → V)}
    (hRead : Reads S get s v)
    (hWrite : Writes S (set v) s t) :
    Writes S (fun s => get s >>= fun v => set v s) s t := by
  intro s' hSame
  simp only [hRead s' hSame]
  exact hWrite s' hSame

theorem confined_pure
    (s : A → V)
    (v : α) :
    Confined S (fun s => (pure (v, s) :
      Except ε (α × (A → V)))) s :=
  ⟨v, s, actsOn_pure s v⟩

theorem Confined.read
    {get : (A → V) → Except ε α}
    {step : α → (A → V) → Except ε (β × (A → V))}
    (hRead : Reads S get s v)
    (hStep : Confined S (step v) s) :
    Confined S (fun s => get s >>= fun v => step v s) s := by
  rcases hStep with ⟨w, t, hActs⟩
  exact ⟨w, t, ActsOn.read hRead hActs⟩

theorem Confined.write
    {set : (A → V) → Except ε (A → V)}
    {step : (A → V) → Except ε (β × (A → V))}
    (hWrite : Writes S set s t)
    (hStep : Confined S step t) :
    Confined S (fun s => set s >>= step) s := by
  rcases hStep with ⟨w, u, hActs⟩
  exact ⟨w, u, ActsOn.write hWrite hActs⟩

theorem ActsOn.confined
    {first : (A → V) → Except ε (α × (A → V))}
    (second : α → (A → V) → Except ε (β × (A → V)))
    (hFirst : ActsOn S first s v t)
    (hSecond : Confined S (second v) t) :
    Confined S (fun s => first s >>= fun r =>
      second r.1 r.2) s := by
  rcases hSecond with ⟨w, u, hActs⟩
  exact ⟨w, u, hFirst.bind second hActs⟩

/- Changes in the places, made from equal places. -/
theorem writes_of_congr
    {set : (A → V) → Except ε (A → V)}
    {change : (A → V) → A → V}
    (hSet : ∀ s', set s' = .ok (change s'))
    (hInside : ∀ s', Set.EqOn s' s S →
      Set.EqOn (change s') (change s) S)
    (hOutside : ∀ s', Set.EqOn s' s S →
      ∀ a, a ∉ S → change s' a = s' a) :
    Writes S set s (change s) := by
  intro s' hSame
  rw [hSet]
  congr 1
  funext a
  by_cases hMem : a ∈ S
  · rw [Set.piecewise_eq_of_mem _ _ _ hMem]
    exact hInside s' hSame hMem
  · rw [Set.piecewise_eq_of_notMem _ _ _ hMem]
    exact hOutside s' hSame a hMem

/- The other places are not changed. -/
theorem ActsOn.spares
    {step : (A → V) → Except ε (α × (A → V))}
    {s' out : A → V}
    {v' : α}
    (hActs : ActsOn S step s v t)
    (hSame : Set.EqOn s' s S)
    (hStep : step s' = .ok (v', out))
    {a : A}
    (hNot : a ∉ S) :
    out a = s' a := by
  rw [hActs s' hSame] at hStep
  cases hStep
  exact Set.piecewise_eq_of_notMem _ _ _ hNot

end Footprint
