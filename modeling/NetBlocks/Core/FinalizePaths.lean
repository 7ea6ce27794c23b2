import NetBlocks.Core.SendPath
import NetBlocks.Lib.TopologicalOrder

/-
  The scheduling of the four paths from the dependencies of
  the registered modules, and what a sweep over the modules
  adds to a path.

  Main declarations:
    * `finalizePaths`
    * `Module.depends`
    * `Scheduled` and `sweepModules_scheduled`
    * `sweepModules_progress`
-/

namespace NetBlocks

open Except TopologicalOrder

variable {M : Type} [DecidableEq M]

------------------------------------------------------------
-- The Four Paths
------------------------------------------------------------

/- The four dependency lists of each module. -/
structure Depends (M : Type) where
  establish : M → List M
  destablish : M → List M
  send : M → List M
  ingress : M → List M

/-
  The members of `framework` that hold the registered modules
  and the paths, and the flag `mark_scheduled` of each module.
-/
structure Framework (M : Type) where
  registeredModules : List M
  establishPath : List M
  destablishPath : List M
  sendPath : List M
  ingressPath : List M
  markScheduled : M → Bool

/- A path under construction, with the flags. -/
structure PathState (M : Type) where
  path : List M
  markScheduled : M → Bool

/- The loop that clears the flags before a path is built. -/
def clearMarks
    (modules : List M)
    (markScheduled : M → Bool) : M → Bool :=
  modules.foldl
    (fun marks m => Function.update marks m false)
    markScheduled

/- `all_satisfied`, with the loop that breaks early. -/
def allSatisfied
    (markScheduled : M → Bool) : List M → Bool
| [] => true
| d :: depends =>
    if markScheduled d = false then
      false
    else
      allSatisfied markScheduled depends

/- The body of a sweep, for one module. -/
def scheduleModule
    (depends : M → List M)
    (s : PathState M)
    (m : M) : PathState M :=
  if s.markScheduled m = false then
    if allSatisfied s.markScheduled (depends m) then
      { path := s.path ++ [m]
        markScheduled :=
          Function.update s.markScheduled m true }
    else
      s
  else
    s

/- A sweep over the registered modules. -/
def sweepModules
    (depends : M → List M)
    (modules : List M)
    (s : PathState M) : PathState M :=
  modules.foldl (scheduleModule depends) s

/-
  The loop that builds a path. The assertion ends its body,
  behind the sweep and under no condition, so that no round
  is followed by another one.
-/
def schedulePath
    (depends : M → List M)
    (modules : List M) :
    Nat → PathState M → Except Fault (PathState M)
| 0, _ => .error .diverges
| fuel + 1, s =>
    if s.path.length < modules.length then do
      let s := sweepModules depends modules s
      let _ ← (throw (.assertion
        "Circular dependency while scheduling\n") :
          Except Fault Unit)
      schedulePath depends modules fuel s
    else
      .ok s

/- Clear the flags and build one path. -/
def finalizePath
    (depends : M → List M)
    (modules : List M)
    (markScheduled : M → Bool) :
    Except Fault (PathState M) :=
  schedulePath depends modules (modules.length + 1)
    { path := []
      markScheduled := clearMarks modules markScheduled }

/- `framework::finalize_paths` -/
def finalizePaths
    (depends : Depends M)
    (fw : Framework M) : Except Fault (Framework M) := do
  let modules := fw.registeredModules
  let establish ← finalizePath depends.establish modules
    fw.markScheduled
  let destablish ← finalizePath depends.destablish modules
    establish.markScheduled
  let send ← finalizePath depends.send modules
    destablish.markScheduled
  let ingress ← finalizePath depends.ingress modules
    send.markScheduled
  return { fw with
    establishPath := establish.path
    destablishPath := destablish.path
    sendPath := send.path
    ingressPath := ingress.path
    markScheduled := ingress.markScheduled }

------------------------------------------------------------
-- The Modules of the Stack
------------------------------------------------------------

/-
  The dependencies that `init_module` of each module
  declares. The four modules that declare some depend on the
  same modules for the first three paths.
-/
def Module.depends : Depends Module where
  establish := outward
  destablish := outward
  send := outward
  ingress
  | .payload => [.inorder]
  | .inorder => [.reliable]
  | .reliable => [.identifier]
  | .identifier => [.checksum]
  | .checksum => [.network]
  | _ => []
where
  outward : Module → List Module
  | .inorder => [.payload]
  | .reliable => [.inorder]
  | .identifier => [.reliable]
  | .checksum => [.identifier]
  | .network => [.checksum]
  | _ => []

------------------------------------------------------------
-- What a Sweep Adds
------------------------------------------------------------

section Sweeps

variable
    {depends : M → List M}
    {modules : List M}
    {s : PathState M}

theorem allSatisfied_iff
    {markScheduled : M → Bool}
    {ds : List M} :
    allSatisfied markScheduled ds = true ↔
      ∀ d ∈ ds, markScheduled d = true := by
  induction ds with
  | nil => simp [allSatisfied]
  | cons d ds ih =>
      rw [allSatisfied, List.forall_mem_cons, ← ih]
      cases markScheduled d <;> simp

/-
  A path under construction: it holds registered modules,
  the ones that are marked, each behind its dependencies.
-/
structure Scheduled
    (depends : M → List M)
    (modules : List M)
    (s : PathState M) : Prop where
  nodup : s.path.Nodup
  registered : s.path ⊆ modules
  marked : ∀ m ∈ modules,
    s.markScheduled m = true ↔ m ∈ s.path
  sorted : Sorted depends s.path

theorem clearMarks_eq_false
    {markScheduled : M → Bool}
    {m : M}
    (hMem : m ∈ modules ∨ markScheduled m = false) :
    clearMarks modules markScheduled m = false := by
  induction modules generalizing markScheduled with
  | nil => simpa [clearMarks] using hMem
  | cons first rest ih =>
      rw [clearMarks, List.foldl_cons]
      apply ih
      by_cases hFirst : m = first
      · right
        rw [hFirst, Function.update_self]
      · rw [Function.update_of_ne hFirst]
        rw [List.mem_cons, or_assoc] at hMem
        exact hMem.resolve_left hFirst

/- Nothing is scheduled once the flags are cleared. -/
theorem scheduled_clear
    (depends : M → List M)
    (modules : List M)
    (markScheduled : M → Bool) :
    Scheduled depends modules
      ⟨[], clearMarks modules markScheduled⟩ where
  nodup := List.nodup_nil
  registered := List.nil_subset _
  marked m hm := by
    simp [clearMarks_eq_false (Or.inl hm)]
  sorted := sorted_nil

theorem scheduleModule_scheduled
    {m : M}
    (hClosed : Closed depends modules)
    (hMem : m ∈ modules)
    (hScheduled : Scheduled depends modules s) :
    Scheduled depends modules (scheduleModule depends s m) := by
  unfold scheduleModule
  split
  · next hFree =>
      split
      · next hAll =>
          have hNotIn : m ∉ s.path := by
            rw [← hScheduled.marked m hMem, hFree]
            decide
          have hBehind : ∀ d ∈ depends m, d ∈ s.path := by
            intro d hd
            rw [← hScheduled.marked d (hClosed m hMem d hd)]
            exact allSatisfied_iff.mp hAll d hd
          refine ⟨?_, ?_, ?_,
            hScheduled.sorted.concat hBehind⟩
          · exact List.nodup_append.mpr
              ⟨hScheduled.nodup, List.nodup_singleton m, by
                intro a ha b hb hEq
                rw [List.mem_singleton] at hb
                exact hNotIn (hb ▸ hEq ▸ ha)⟩
          · exact List.append_subset.mpr
              ⟨hScheduled.registered, by simpa using hMem⟩
          · intro x hx
            by_cases hEq : x = m
            · simp [hEq]
            · simp [Function.update_of_ne hEq, hEq,
                hScheduled.marked x hx]
      · exact hScheduled
  · exact hScheduled

/- A sweep keeps a path as it should be. -/
theorem sweepModules_scheduled
    {ms : List M}
    (hClosed : Closed depends modules)
    (hSubset : ms ⊆ modules)
    (hScheduled : Scheduled depends modules s) :
    Scheduled depends modules (sweepModules depends ms s) := by
  induction ms generalizing s with
  | nil => exact hScheduled
  | cons m ms ih =>
      rw [List.cons_subset] at hSubset
      exact ih hSubset.2
        (scheduleModule_scheduled hClosed hSubset.1 hScheduled)

theorem scheduleModule_grows
    (m : M) :
    s.path <+: (scheduleModule depends s m).path := by
  unfold scheduleModule
  split
  · split
    · exact List.prefix_append _ _
    · exact List.prefix_refl _
  · exact List.prefix_refl _

/- A sweep only appends to the path. -/
theorem sweepModules_grows
    (depends : M → List M)
    (ms : List M)
    (s : PathState M) :
    s.path <+: (sweepModules depends ms s).path := by
  induction ms generalizing s with
  | nil => exact List.prefix_refl _
  | cons m ms ih =>
      exact (scheduleModule_grows m).trans (ih _)

/-
  A module whose dependencies are all scheduled is scheduled
  by the next sweep.
-/
theorem mem_sweepModules
    {ms : List M}
    {m : M}
    (hClosed : Closed depends modules)
    (hSubset : ms ⊆ modules)
    (hScheduled : Scheduled depends modules s)
    (hMem : m ∈ ms)
    (hBehind : ∀ d ∈ depends m, d ∈ s.path) :
    m ∈ (sweepModules depends ms s).path := by
  induction ms generalizing s with
  | nil => cases hMem
  | cons x ms ih =>
      rw [List.cons_subset] at hSubset
      have hNext := scheduleModule_scheduled hClosed hSubset.1
        hScheduled
      rcases List.mem_cons.mp hMem with rfl | hMem
      · apply (sweepModules_grows depends ms _).subset
        unfold scheduleModule
        by_cases hFree : s.markScheduled m = false
        · have hAll : allSatisfied s.markScheduled
              (depends m) = true := by
            rw [allSatisfied_iff]
            intro d hd
            rw [hScheduled.marked d
              (hClosed m hSubset.1 d hd)]
            exact hBehind d hd
          rw [if_pos hFree, if_pos hAll]
          exact List.mem_append_right _
            (List.mem_singleton_self m)
        · rw [if_neg hFree, ← hScheduled.marked m hSubset.1]
          simpa using hFree
      · apply ih hSubset.2 hNext hMem
        intro d hd
        exact (scheduleModule_grows x).subset (hBehind d hd)

/-
  The sweeps over an acyclic graph make progress: each one
  schedules a module, as long as one is left.
-/
theorem sweepModules_progress
    (hClosed : Closed depends modules)
    (hAcyclic : Acyclic depends modules)
    (hScheduled : Scheduled depends modules s)
    (hLeft : ¬ modules ⊆ s.path) :
    s.path.length <
      (sweepModules depends modules s).path.length := by
  let pending := modules.filter (fun m => m ∉ s.path)
  have hPending : pending ⊆ modules :=
    List.filter_subset' ..
  have hNonempty : pending ≠ [] := by
    intro hNone
    apply hLeft
    intro m hm
    by_contra hNot
    have hIn : m ∈ pending :=
      List.mem_filter.mpr ⟨hm, by simpa using hNot⟩
    rw [hNone] at hIn
    cases hIn
  rcases hAcyclic.exists_source hPending hNonempty with
    ⟨m, hm, hSource⟩
  rcases List.mem_filter.mp hm with ⟨hRegistered, hNotIn⟩
  have hBehind : ∀ d ∈ depends m, d ∈ s.path := by
    intro d hd
    by_contra hNot
    exact hSource d hd (List.mem_filter.mpr
      ⟨hClosed m hRegistered d hd, by simpa using hNot⟩)
  have hAdded := mem_sweepModules hClosed
    (List.Subset.refl modules) hScheduled hRegistered hBehind
  have hPrefix := sweepModules_grows depends modules s
  apply lt_of_le_of_ne hPrefix.length_le
  intro hLength
  rw [← hPrefix.eq_of_length hLength] at hAdded
  simp [hAdded] at hNotIn

end Sweeps

end NetBlocks
