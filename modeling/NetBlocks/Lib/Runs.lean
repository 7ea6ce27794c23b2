import Mathlib.Tactic.Common

/-
  Finite runs of a labelled transition relation, and the
  induction rules for what holds along them.

  Main declarations:
    * `Run` and `Guarded`
    * `Run.invariant` and `Run.history`
    * `Run.simulate`
    * `Run.append`
    * `Except.bind_eq_ok_iff`
-/

------------------------------------------------------------
-- Runs
------------------------------------------------------------

namespace TransitionSystem

variable {S E : Type}

/-
  `Run step s labels s'` holds when the labels, taken in
  order from `s`, can lead to `s'`.
-/
inductive Run
    (step : S → E → S → Prop) :
    S → List E → S → Prop where
| nil (s : S) : Run step s [] s
| cons {s t u : S} {e : E} {labels : List E} :
    step s e t → Run step t labels u →
      Run step s (e :: labels) u

/- The steps of a relation that also satisfy a condition. -/
def Guarded
    (guard : S → E → Prop)
    (step : S → E → S → Prop) :
    S → E → S → Prop :=
  fun s e t => guard s e ∧ step s e t

namespace Run

variable {step : S → E → S → Prop}

/- What every step preserves, every run preserves. -/
theorem invariant
    {inv : S → Prop}
    (hStep : ∀ s e t, inv s → step s e t → inv t)
    {s t : S}
    {labels : List E}
    (hInit : inv s)
    (hRun : Run step s labels t) :
    inv t := by
  induction hRun with
  | nil s => exact hInit
  | cons hFirst _ ih =>
      exact ih (hStep _ _ _ hInit hFirst)

/-
  A property of the states and of the labels up to them, if
  every step preserves it.
-/
theorem history
    {inv : List E → S → Prop}
    (hStep : ∀ past s e t, inv past s → step s e t →
      inv (past ++ [e]) t)
    {s t : S}
    {past labels : List E}
    (hInit : inv past s)
    (hRun : Run step s labels t) :
    inv (past ++ labels) t := by
  induction hRun generalizing past with
  | nil s =>
      rw [List.append_nil]
      exact hInit
  | cons hFirst _ ih =>
      rw [List.append_cons]
      exact ih (hStep _ _ _ _ hInit hFirst)

/- Runs compose. -/
theorem append
    {s t u : S}
    {first second : List E}
    (hFirst : Run step s first t)
    (hSecond : Run step t second u) :
    Run step s (first ++ second) u := by
  induction hFirst with
  | nil s => exact hSecond
  | cons hStep _ ih => exact Run.cons hStep (ih hSecond)

/- A run from behind a step, as one from before it. -/
theorem exists_cons
    {p : S → Prop}
    {s t : S}
    {e : E}
    {labels : List E}
    (hStep : step s e t)
    (hRest : ∃ u, Run step t labels u ∧ p u) :
    ∃ u, Run step s (e :: labels) u ∧ p u := by
  rcases hRest with ⟨u, hRun, hEnd⟩
  exact ⟨u, Run.cons hStep hRun, hEnd⟩

/- A run whose labels all satisfy a condition -/
theorem guard
    {condition : E → Prop}
    {s t : S}
    {labels : List E}
    (hAll : ∀ e ∈ labels, condition e)
    (hRun : Run step s labels t) :
    Run (Guarded (fun _ => condition) step) s labels t := by
  induction hRun with
  | nil s => exact Run.nil s
  | cons hStep _ ih =>
      apply Run.cons ⟨hAll _ List.mem_cons_self, hStep⟩
      exact ih (fun e he => hAll e (List.mem_cons_of_mem _ he))

/- A run over steps that satisfy more is a run. -/
theorem mono
    {step' : S → E → S → Prop}
    (hSteps : ∀ s e t, step s e t → step' s e t)
    {s t : S}
    {labels : List E}
    (hRun : Run step s labels t) :
    Run step' s labels t := by
  induction hRun with
  | nil s => exact Run.nil s
  | cons hStep _ ih => exact Run.cons (hSteps _ _ _ hStep) ih

/- A run as one of another relation that simulates it. -/
theorem map
    {S' E' : Type}
    {step' : S' → E' → S' → Prop}
    {f : S → S'}
    {g : E → E'}
    (hSteps : ∀ s e t, step s e t →
      step' (f s) (g e) (f t))
    {s t : S}
    {labels : List E}
    (hRun : Run step s labels t) :
    Run step' (f s) (labels.map g) (f t) := by
  induction hRun with
  | nil s => exact Run.nil (f s)
  | cons hStep _ ih => exact Run.cons (hSteps _ _ _ hStep) ih

/-
  A forward simulation: if each step is matched by a run over
  the labels that it stands for, then so is each run.
-/
theorem simulate
    {S' E' : Type}
    {step' : S' → E' → S' → Prop}
    {related : S → S' → Prop}
    {shows : E → List E'}
    (hSteps : ∀ s e t s', related s s' → step s e t →
      ∃ t', Run step' s' (shows e) t' ∧ related t t')
    {s t : S}
    {s' : S'}
    {labels : List E}
    (hRelated : related s s')
    (hRun : Run step s labels t) :
    ∃ t', Run step' s' (labels.flatMap shows) t' ∧
      related t t' := by
  induction hRun generalizing s' with
  | nil s => exact ⟨s', Run.nil s', hRelated⟩
  | cons hFirst _ ih =>
      rcases hSteps _ _ _ _ hRelated hFirst with
        ⟨u', hShown, hBetween⟩
      rcases ih hBetween with ⟨t', hRest, hEnd⟩
      exact ⟨t', hShown.append hRest, hEnd⟩

end Run

end TransitionSystem

------------------------------------------------------------
-- Fallible Computations
------------------------------------------------------------

namespace Except

variable {ε α β : Type}

/- A sequenced computation succeeds when both parts do. -/
theorem bind_eq_ok_iff
    {first : Except ε α}
    {next : α → Except ε β}
    {result : β} :
    (first >>= next) = .ok result ↔
      ∃ value, first = .ok value ∧
        next value = .ok result := by
  cases first with
  | error fault =>
      constructor
      · intro hBind
        cases hBind
      · rintro ⟨value, hValue, -⟩
        cases hValue
  | ok value =>
      constructor
      · intro hBind
        exact ⟨value, rfl, hBind⟩
      · rintro ⟨value', hValue, hNext⟩
        cases hValue
        exact hNext

/- Sequencing after a success runs the continuation. -/
@[simp] theorem ok_bind
    (value : α)
    (next : α → Except ε β) :
    ((Except.ok value : Except ε α) >>= next) =
      next value :=
  rfl

/- Sequencing after a failure is that failure. -/
@[simp] theorem error_bind
    (fault : ε)
    (next : α → Except ε β) :
    ((Except.error fault : Except ε α) >>= next) =
      .error fault :=
  rfl

/- A continuation that cannot fail maps the value. -/
theorem bind_ok_eq_map
    (first : Except ε α)
    (next : α → β) :
    (first >>= fun value => .ok (next value)) =
      first.map next := by
  cases first <;> rfl

theorem map_eq_ok_iff
    {first : Except ε α}
    {next : α → β}
    {result : β} :
    first.map next = .ok result ↔
      ∃ value, first = .ok value ∧ next value = result := by
  cases first <;> simp [Except.map]

@[simp] theorem pure_eq_ok
    (value : α) :
    (pure value : Except ε α) = .ok value :=
  rfl

@[simp] theorem throw_eq_error
    (fault : ε) :
    (throw fault : Except ε α) = .error fault :=
  rfl

end Except
