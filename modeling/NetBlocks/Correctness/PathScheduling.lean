import NetBlocks.Core.FinalizePaths

/-
  Path scheduling: whether `finalize_paths` sorts the modules
  of each path topologically.

  Repeated, the sweeps over the modules do. The function
  itself stops after the first one, for every list that has a
  module in it.

  Main declarations:
    * `SortsPaths`
    * `sweeps_sort`
    * `sortsPaths_iff`
-/

namespace NetBlocks

open Except TopologicalOrder

------------------------------------------------------------
-- Topological Paths
------------------------------------------------------------

section Paths

variable {M : Type} [DecidableEq M]

/- The dependency lists of the paths, one after the other. -/
def Depends.paths
    (depends : Depends M) : List (M → List M) :=
  [depends.establish, depends.destablish, depends.send,
    depends.ingress]

/- The paths of a framework, in the same order. -/
def Framework.paths
    (fw : Framework M) : List (List M) :=
  [fw.establishPath, fw.destablishPath, fw.sendPath,
    fw.ingressPath]

/- A path runs every registered module in a fitting order. -/
def IsTopological
    (modules : List M)
    (depends : M → List M)
    (path : List M) : Prop :=
  path.Perm modules ∧ Sorted depends path

/-
  What the scheduling is for: paths that run every registered
  module in a fitting order if there are such, and the
  assertion about circular dependencies otherwise.
-/
structure SortsPaths
    (depends : Depends M)
    (fw : Framework M) : Prop where
  sorted : (∀ ds ∈ depends.paths,
      Acyclic ds fw.registeredModules) →
    ∃ fw', finalizePaths depends fw = .ok fw' ∧
      List.Forall₂ (IsTopological fw.registeredModules)
        depends.paths fw'.paths
  circular : (∃ ds ∈ depends.paths,
      ¬ Acyclic ds fw.registeredModules) →
    finalizePaths depends fw = .error (.assertion
      "Circular dependency while scheduling\n")

------------------------------------------------------------
-- Repeated Sweeps
------------------------------------------------------------

variable
    {depends : M → List M}
    {modules : List M}

/- What a number of sweeps make of a path. -/
def sweeps
    (depends : M → List M)
    (modules : List M)
    (n : Nat)
    (s : PathState M) : PathState M :=
  (sweepModules depends modules)^[n] s

theorem sweeps_succ
    (n : Nat)
    (s : PathState M) :
    sweeps depends modules (n + 1) s =
      sweepModules depends modules
        (sweeps depends modules n s) :=
  Function.iterate_succ_apply' _ _ _

theorem sweeps_scheduled
    {s : PathState M}
    (hClosed : Closed depends modules)
    (hScheduled : Scheduled depends modules s)
    (n : Nat) :
    Scheduled depends modules
      (sweeps depends modules n s) := by
  induction n with
  | zero => exact hScheduled
  | succ n ih =>
      rw [sweeps_succ]
      exact sweepModules_scheduled hClosed
        (List.Subset.refl _) ih

/- After `n` sweeps `n` modules are scheduled, or all. -/
theorem sweeps_length
    {s : PathState M}
    (hClosed : Closed depends modules)
    (hAcyclic : Acyclic depends modules)
    (hScheduled : Scheduled depends modules s)
    (n : Nat) :
    n ≤ (sweeps depends modules n s).path.length ∨
      modules ⊆ (sweeps depends modules n s).path := by
  induction n with
  | zero => exact Or.inl (Nat.zero_le _)
  | succ n ih =>
      rw [sweeps_succ]
      by_cases hAll :
          modules ⊆ (sweeps depends modules n s).path
      · exact Or.inr (List.Subset.trans hAll
          (sweepModules_grows depends modules _).subset)
      · have hMore := sweepModules_progress hClosed hAcyclic
          (sweeps_scheduled hClosed hScheduled n) hAll
        exact Or.inl (Nat.succ_le_of_lt
          ((ih.resolve_right hAll).trans_lt hMore))

/- A path as long as the modules holds all of them. -/
theorem Scheduled.perm
    {s : PathState M}
    (hScheduled : Scheduled depends modules s)
    (hLength : modules.length ≤ s.path.length) :
    s.path.Perm modules :=
  (List.subperm_of_subset hScheduled.nodup
    hScheduled.registered).perm_of_length_le hLength

/-
  As many sweeps as there are modules sort the modules of an
  acyclic graph, and no number of sweeps schedules all of
  them when there is a cycle.
-/
theorem sweeps_sort
    (hNodup : modules.Nodup)
    (hClosed : Closed depends modules)
    (markScheduled : M → Bool) :
    let start : PathState M :=
      ⟨[], clearMarks modules markScheduled⟩
    (Acyclic depends modules →
      IsTopological modules depends
        (sweeps depends modules modules.length start).path) ∧
    (¬ Acyclic depends modules →
      ∀ n, (sweeps depends modules n start).path.length <
        modules.length) := by
  intro start
  have hSwept := sweeps_scheduled hClosed
    (scheduled_clear depends modules markScheduled)
  constructor
  · intro hAcyclic
    have hScheduled := hSwept modules.length
    have hLength : modules.length ≤
        (sweeps depends modules modules.length
          start).path.length := by
      rcases sweeps_length hClosed hAcyclic
          (scheduled_clear depends modules markScheduled)
          modules.length with hLength | hAll
      · exact hLength
      · exact (List.subperm_of_subset hNodup hAll).length_le
    exact ⟨hScheduled.perm hLength, hScheduled.sorted⟩
  · intro hCyclic n
    have hScheduled := hSwept n
    by_contra hNot
    have hAll := (hScheduled.perm
      (Nat.le_of_not_lt hNot)).symm.subset
    exact hCyclic
      (hScheduled.sorted.acyclic hScheduled.nodup hAll)

------------------------------------------------------------
-- The Function
------------------------------------------------------------

theorem finalizePath_nil
    (depends : M → List M)
    (markScheduled : M → Bool) :
    finalizePath depends [] markScheduled =
      .ok ⟨[], markScheduled⟩ :=
  rfl

/- With a module to schedule, the assertion is reached. -/
theorem finalizePath_cons
    (depends : M → List M)
    (m : M)
    (modules : List M)
    (markScheduled : M → Bool) :
    finalizePath depends (m :: modules) markScheduled =
      .error (.assertion
        "Circular dependency while scheduling\n") :=
  rfl

theorem finalizePaths_error
    {depends : Depends M}
    {fw : Framework M}
    (hModules : fw.registeredModules ≠ []) :
    finalizePaths depends fw = .error (.assertion
      "Circular dependency while scheduling\n") := by
  unfold finalizePaths
  cases hList : fw.registeredModules with
  | nil => exact absurd hList hModules
  | cons m modules =>
      dsimp only
      rw [finalizePath_cons]
      rfl

/-
  The modules are sorted exactly if there are none, and
  cycles are told exactly because nothing else is.
-/
theorem sortsPaths_iff
    (depends : Depends M)
    (fw : Framework M) :
    SortsPaths depends fw ↔
      fw.registeredModules = [] ∨
        ∃ ds ∈ depends.paths,
          ¬ Acyclic ds fw.registeredModules := by
  constructor
  · intro hSorts
    by_contra hNot
    rw [not_or, not_exists] at hNot
    have hAcyclic : ∀ ds ∈ depends.paths,
        Acyclic ds fw.registeredModules := by
      intro ds hds
      by_contra hCyclic
      exact hNot.2 ds ⟨hds, hCyclic⟩
    rcases hSorts.sorted hAcyclic with ⟨fw', hOk, -⟩
    rw [finalizePaths_error hNot.1] at hOk
    cases hOk
  · rintro (hNone | hCyclic)
    · have hOk : finalizePaths depends fw = .ok { fw with
          establishPath := []
          destablishPath := []
          sendPath := []
          ingressPath := [] } := by
        unfold finalizePaths
        rw [hNone]
        rfl
      refine ⟨fun _ => ⟨_, hOk, ?_⟩, ?_⟩
      · have hEmpty : ∀ ds : M → List M,
            IsTopological fw.registeredModules ds [] := by
          intro ds
          rw [hNone]
          exact ⟨List.Perm.refl _, sorted_nil⟩
        simp [Depends.paths, Framework.paths, hEmpty]
      · rintro ⟨ds, -, hCyclic⟩
        rw [hNone] at hCyclic
        exact absurd (acyclic_of_rank (fun _ => 0)
          (by simp)) hCyclic
    · refine ⟨?_, ?_⟩
      · intro hAcyclic
        rcases hCyclic with ⟨ds, hds, hNot⟩
        exact absurd (hAcyclic ds hds) hNot
      · intro _
        apply finalizePaths_error
        intro hNone
        rcases hCyclic with ⟨ds, -, hNot⟩
        rw [hNone] at hNot
        exact hNot (acyclic_of_rank (fun _ => 0) (by simp))

end Paths

------------------------------------------------------------
-- The Modules of the Repository
------------------------------------------------------------

/- Where a module is in the order of the send path. -/
def Module.rank : Module → Nat
| .payload => 0
| .inorder => 1
| .reliable => 2
| .identifier => 3
| .checksum => 4
| .network => 5
| .signaling => 6
| .signalingAfter => 7
| .routing => 8

/- The stack with every option, before paths are built. -/
def fullStack : Framework Module where
  registeredModules := registeredModules
    ⟨.srcDstIdentifier, .holdForever, true, true, true, true⟩
  establishPath := []
  destablishPath := []
  sendPath := []
  ingressPath := []
  markScheduled := fun _ => false

/- The modules of the stack could be scheduled. -/
theorem fullStack_acyclic :
    fullStack.registeredModules.Nodup ∧
      ∀ ds ∈ Module.depends.paths,
        Closed ds fullStack.registeredModules ∧
          Acyclic ds fullStack.registeredModules := by
  have hOutward : Acyclic Module.depends.outward
      fullStack.registeredModules := by
    apply acyclic_of_rank Module.rank
    intro m _ d hd
    cases m <;> revert d <;> decide
  have hIngress : Acyclic Module.depends.ingress
      fullStack.registeredModules := by
    apply acyclic_of_rank (fun m => 8 - m.rank)
    intro m _ d hd
    cases m <;> revert d <;> decide
  refine ⟨by decide, ?_⟩
  intro ds hds
  simp only [Depends.paths, List.mem_cons, List.not_mem_nil,
    or_false] at hds
  rcases hds with rfl | rfl | rfl | rfl
  · exact ⟨by decide, hOutward⟩
  · exact ⟨by decide, hOutward⟩
  · exact ⟨by decide, hOutward⟩
  · exact ⟨by decide, hIngress⟩

/- The modules of the stack are not scheduled. -/
theorem not_forall_sortsPaths :
    ¬ ∀ (depends : Depends Module) (fw : Framework Module),
      fw.registeredModules.Nodup →
        (∀ ds ∈ depends.paths,
          Closed ds fw.registeredModules) →
        SortsPaths depends fw := by
  intro hAll
  rcases fullStack_acyclic with ⟨hNodup, hDepends⟩
  have hSorts := hAll Module.depends fullStack hNodup
    (fun ds hds => (hDepends ds hds).1)
  rcases hSorts.sorted (fun ds hds => (hDepends ds hds).2)
    with ⟨fw', hOk, -⟩
  rw [finalizePaths_error (by decide)] at hOk
  cases hOk

end NetBlocks
