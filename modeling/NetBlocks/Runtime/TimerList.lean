import NetBlocks.Runtime.Timer
import NetBlocks.Lib.DoublyLinked
import Mathlib.Data.Fintype.Card
import Mathlib.Data.List.FinRange

/-
  The timer pool as two lists of timers, the active one
  sorted by timeout, and what each pool operation does to
  them.

  Main declarations:
    * `TimerPool.Represents`
    * `TimerPool.insertTimer_represents`
    * `TimerPool.removeTimer_represents`
    * `TimerPool.initTimers_represents`
    * `TimerPool.IsActive` and `TimerPool.IsFree`
-/

namespace NetBlocks

open DoublyLinked

namespace TimerPool

------------------------------------------------------------
-- The Two Lists of a Pool
------------------------------------------------------------

/- The link fields of the pool's timers. -/
def links
    (pool : TimerPool) : Links TimerPtr where
  next t := (pool.allocatedTimers t).next
  prev t := (pool.allocatedTimers t).prev
  head := pool.timersHead

/-
  The active list is `active`, in increasing order of
  timeout; the free list is `free`; no timer is on both.
-/
structure Represents
    (pool : TimerPool)
    (active free : List TimerPtr) : Prop where
  active_lists : pool.links.Lists active
  free_chain :
    Chain pool.links.next pool.timerFreeList free
  nodup : (active ++ free).Nodup
  sorted : active.Pairwise (fun a b =>
    (pool.allocatedTimers a).timeout ≤
      (pool.allocatedTimers b).timeout)

@[simp] theorem modify_self
    (pool : TimerPool)
    (t : TimerPtr)
    (assign : Timer → Timer) :
    (pool.modify t assign).allocatedTimers t =
      assign (pool.allocatedTimers t) := by
  simp [modify]

theorem modify_of_ne
    (pool : TimerPool)
    {t x : TimerPtr}
    (assign : Timer → Timer)
    (hNe : x ≠ t) :
    (pool.modify t assign).allocatedTimers x =
      pool.allocatedTimers x := by
  simp [modify, hNe]

@[simp] theorem modify_timersHead
    (pool : TimerPool)
    (t : TimerPtr)
    (assign : Timer → Timer) :
    (pool.modify t assign).timersHead = pool.timersHead :=
  rfl

@[simp] theorem modify_timerFreeList
    (pool : TimerPool)
    (t : TimerPtr)
    (assign : Timer → Timer) :
    (pool.modify t assign).timerFreeList =
      pool.timerFreeList :=
  rfl

/- An assignment to `next` alone changes that link. -/
theorem links_modify_next
    (pool : TimerPool)
    (t : TimerPtr)
    (target : Option TimerPtr) :
    (pool.modify t (fun timer =>
      { timer with next := target })).links =
        pool.links.setNext t target := by
  simp only [links, Links.setNext, modify,
    Links.mk.injEq, and_true]
  constructor <;> funext x <;>
    by_cases hEq : x = t <;>
      simp [hEq]

/- An assignment to `prev` alone changes that link. -/
theorem links_modify_prev
    (pool : TimerPool)
    (t : TimerPtr)
    (target : Option TimerPtr) :
    (pool.modify t (fun timer =>
      { timer with prev := target })).links =
        pool.links.setPrev t target := by
  simp only [links, Links.setPrev, modify,
    Links.mk.injEq, and_true]
  constructor <;> funext x <;>
    by_cases hEq : x = t <;>
      simp [hEq]

/-
  What a timer carries besides its links: its callback,
  argument, and timeout.
-/
def load
    (pool : TimerPool)
    (t : TimerPtr) :
    TimerCallback × PacketPtr × BitVec 64 :=
  ((pool.allocatedTimers t).callback,
    (pool.allocatedTimers t).argument,
    (pool.allocatedTimers t).timeout)

theorem timeout_eq_of_load_eq
    {pool pool' : TimerPool}
    {t : TimerPtr}
    (hLoad : pool'.load t = pool.load t) :
    (pool'.allocatedTimers t).timeout =
      (pool.allocatedTimers t).timeout := by
  simp only [load, Prod.mk.injEq] at hLoad
  exact hLoad.2.2

theorem argument_eq_of_load_eq
    {pool pool' : TimerPool}
    {t : TimerPtr}
    (hLoad : pool'.load t = pool.load t) :
    (pool'.allocatedTimers t).argument =
      (pool.allocatedTimers t).argument := by
  simp only [load, Prod.mk.injEq] at hLoad
  exact hLoad.2.1

/- An assignment that keeps the load keeps every load. -/
theorem load_modify
    (pool : TimerPool)
    (t x : TimerPtr)
    (assign : Timer → Timer)
    (hKeeps : ∀ timer : Timer,
      (assign timer).callback = timer.callback ∧
        (assign timer).argument = timer.argument ∧
          (assign timer).timeout = timer.timeout) :
    (pool.modify t assign).load x = pool.load x := by
  by_cases hEq : x = t
  · subst hEq
    simp [load, hKeeps]
  · simp [load, modify_of_ne _ _ hEq]

theorem load_modify_of_ne
    (pool : TimerPool)
    {t x : TimerPtr}
    (assign : Timer → Timer)
    (hNe : x ≠ t) :
    (pool.modify t assign).load x = pool.load x := by
  simp [load, modify_of_ne _ _ hNe]

/- Both lists only look at links and timeouts. -/
theorem Represents.congr
    {pool pool' : TimerPool}
    {active free : List TimerPtr}
    (hRepresents : pool.Represents active free)
    (hHead : pool'.timersHead = pool.timersHead)
    (hFree : pool'.timerFreeList = pool.timerFreeList)
    (hNext : ∀ t ∈ active ++ free,
      pool'.links.next t = pool.links.next t)
    (hPrev : ∀ t ∈ active,
      pool'.links.prev t = pool.links.prev t)
    (hLoad : ∀ t ∈ active, pool'.load t = pool.load t) :
    pool'.Represents active free where
  active_lists :=
    ⟨hHead.trans hRepresents.active_lists.1,
      hRepresents.active_lists.2.congr
        (fun t ht => hNext t (by simp [ht])) hPrev⟩
  free_chain := by
    rw [hFree]
    exact hRepresents.free_chain.congr
      (fun t ht => hNext t (by simp [ht]))
  nodup := hRepresents.nodup
  sorted := by
    apply hRepresents.sorted.imp_of_mem
    intro a b ha hb hLe
    rw [timeout_eq_of_load_eq (hLoad a ha),
      timeout_eq_of_load_eq (hLoad b hb)]
    exact hLe

theorem Represents.length_le
    {pool : TimerPool}
    {active free : List TimerPtr}
    (hRepresents : pool.Represents active free) :
    active.length ≤ maxTimerAllocs := by
  have hNodup := (List.nodup_append.mp hRepresents.nodup).1
  simpa using hNodup.length_le_card

/- A timer on neither list can be written freely. -/
theorem Represents.modify
    {pool : TimerPool}
    {active free : List TimerPtr}
    {t : TimerPtr}
    (hRepresents : pool.Represents active free)
    (hOff : t ∉ active ++ free)
    (assign : Timer → Timer) :
    (pool.modify t assign).Represents active free := by
  have hNe : ∀ x ∈ active ++ free, x ≠ t := by
    rintro x hx rfl
    exact hOff hx
  apply hRepresents.congr (modify_timersHead _ _ _)
    (modify_timerFreeList _ _ _)
  · intro x hx
    simp only [links, modify_of_ne _ _ (hNe x hx)]
  · intro x hx
    simp only [links,
      modify_of_ne _ _ (hNe x (by simp [hx]))]
  · intro x hx
    exact load_modify_of_ne _ _ (hNe x (by simp [hx]))

------------------------------------------------------------
-- Insertion
------------------------------------------------------------

/- Where `nb__insert_timer` puts a timer in a list. -/
def insertInto
    (pool : TimerPool)
    (timeout : BitVec 64)
    (t : TimerPtr) :
    List TimerPtr → List TimerPtr
| [] => [t]
| x :: xs =>
    if (pool.allocatedTimers x).timeout ≤ timeout then
      x :: pool.insertInto timeout t xs
    else
      t :: x :: xs

/-
  The new timer splits the list behind the timers that
  expire no later than it does.
-/
theorem insertInto_split
    (pool : TimerPool)
    (timeout : BitVec 64)
    (t : TimerPtr)
    (active : List TimerPtr) :
    ∃ xs ys, active = xs ++ ys ∧
      pool.insertInto timeout t active = xs ++ t :: ys ∧
      (∀ x ∈ xs,
        (pool.allocatedTimers x).timeout ≤ timeout) ∧
      ∀ y, ys.head? = some y →
        ¬ (pool.allocatedTimers y).timeout ≤ timeout := by
  induction active with
  | nil => exact ⟨[], [], by simp [insertInto]⟩
  | cons x active ih =>
      by_cases hDue :
          (pool.allocatedTimers x).timeout ≤ timeout
      · rcases ih with ⟨xs, ys, hSplit, hInsert, hXs, hYs⟩
        refine ⟨x :: xs, ys, by simp [hSplit], ?_, ?_, hYs⟩
        · simp [insertInto, hDue, hInsert]
        · intro z hz
          rcases List.mem_cons.mp hz with rfl | hz
          · exact hDue
          · exact hXs z hz
      · refine ⟨[], x :: active, rfl, ?_, ?_, ?_⟩
        · simp only [insertInto, if_neg hDue,
            List.nil_append]
        · intro z hz
          cases hz
        · intro y hy
          have hEq : x = y := by simpa using hy
          exact hEq ▸ hDue

theorem insertInto_perm
    (pool : TimerPool)
    (timeout : BitVec 64)
    (t : TimerPtr)
    (active : List TimerPtr) :
    (pool.insertInto timeout t active).Perm
      (t :: active) := by
  rcases pool.insertInto_split timeout t active with
    ⟨xs, ys, hSplit, hInsert, -, -⟩
  rw [hInsert, hSplit]
  exact List.perm_middle

/-
  The search stops between the timers that expire no later
  than the new one and the rest.
-/
theorem findCurr_eq
    (pool : TimerPool)
    (timeout : BitVec 64)
    {fuel : Nat}
    {prev curr : Option TimerPtr}
    {xs ys : List TimerPtr}
    (hChain : Chain pool.links.next curr (xs ++ ys))
    (hXs : ∀ x ∈ xs,
      (pool.allocatedTimers x).timeout ≤ timeout)
    (hYs : ∀ y, ys.head? = some y →
      ¬ (pool.allocatedTimers y).timeout ≤ timeout)
    (hFuel : xs.length < fuel) :
    pool.findCurr timeout fuel prev curr =
      .ok (xs.getLast?.or prev, ys.head?) := by
  induction xs generalizing fuel prev curr with
  | nil =>
      cases fuel with
      | zero => cases hFuel
      | succ fuel =>
          cases ys with
          | nil =>
              have hCurr : curr = none := hChain
              subst hCurr
              rfl
          | cons y ys =>
              rcases hChain with ⟨rfl, -⟩
              have hGt :
                  (pool.allocatedTimers y).timeout >
                    timeout := by
                simpa using hYs y rfl
              rw [findCurr, if_pos hGt]
              rfl
  | cons x xs ih =>
      rcases hChain with ⟨rfl, hRest⟩
      cases fuel with
      | zero => cases hFuel
      | succ fuel =>
          have hNotGt :
              ¬ (pool.allocatedTimers x).timeout >
                timeout := by
            simpa using hXs x (by simp)
          have hTail : pool.findCurr timeout fuel (some x) _ =
              _ := ih hRest
            (fun z hz => hXs z (by simp [hz]))
            (by simpa using hFuel)
          rw [findCurr, if_neg hNotGt]
          simp only [links] at hTail
          rw [hTail]
          simp [List.getLast?_cons]

theorem links_linkTimer
    (pool : TimerPool)
    (t : TimerPtr)
    (prev curr : Option TimerPtr) :
    (pool.linkTimer t prev curr).links =
      pool.links.linkBetween t prev curr := by
  cases prev <;> cases curr <;>
    simp only [linkTimer, links_modify_prev,
      links_modify_next, Links.linkBetween] <;> rfl

theorem load_linkTimer
    (pool : TimerPool)
    (t x : TimerPtr)
    (prev curr : Option TimerPtr) :
    (pool.linkTimer t prev curr).load x = pool.load x := by
  cases prev <;> cases curr <;>
    simp only [linkTimer] <;>
    repeat rw [load_modify _ _ _ _ (by simp)]
  all_goals rfl

@[simp] theorem linkTimer_timerFreeList
    (pool : TimerPool)
    (t : TimerPtr)
    (prev curr : Option TimerPtr) :
    (pool.linkTimer t prev curr).timerFreeList =
      pool.timerFreeList := by
  cases prev <;> cases curr <;> rfl

/-
  `nb__insert_timer` on a timer of neither list puts it into
  the active list behind the timers that expire no later,
  with its new load, and keeps every other timer's load.
-/
theorem insertTimer_represents
    {pool : TimerPool}
    {active free : List TimerPtr}
    {t : TimerPtr}
    (timeout : BitVec 64)
    (callback : TimerCallback)
    (argument : PacketPtr)
    (hRepresents : pool.Represents active free)
    (hOff : t ∉ active ++ free) :
    ∃ pool',
      pool.insertTimer (some t) timeout callback argument =
          .ok pool' ∧
        pool'.Represents
          (pool.insertInto timeout t active) free ∧
        pool'.load t = (callback, argument, timeout) ∧
        ∀ x, x ≠ t → pool'.load x = pool.load x := by
  rcases pool.insertInto_split timeout t active with
    ⟨xs, ys, rfl, hInsert, hXs, hYs⟩
  let timer : Timer :=
    { callback, argument, timeout, next := none, prev := none }
  let cleared := pool.modify t (fun _ => timer)
  have hCleared : cleared.Represents (xs ++ ys) free :=
    hRepresents.modify hOff _
  have hOffActive : t ∉ xs ++ ys := by
    intro hMem
    exact hOff (List.mem_append_left _ hMem)
  have hNeActive : ∀ x ∈ xs ++ ys, x ≠ t := by
    rintro x hx rfl
    exact hOffActive hx
  have hTimeout : ∀ x ∈ xs ++ ys,
      (cleared.allocatedTimers x).timeout =
        (pool.allocatedTimers x).timeout := by
    intro x hx
    rw [modify_of_ne _ _ (hNeActive x hx)]
  have hXsCleared : ∀ x ∈ xs,
      (cleared.allocatedTimers x).timeout ≤ timeout := by
    intro x hx
    rw [hTimeout x (by simp [hx])]
    exact hXs x hx
  have hYsCleared : ∀ y, ys.head? = some y →
      ¬ (cleared.allocatedTimers y).timeout ≤ timeout := by
    intro y hy
    rw [hTimeout y
      (List.mem_append_right _ (List.mem_of_head? hy))]
    exact hYs y hy
  have hFind :
      cleared.findCurr timeout (maxTimerAllocs + 1) none
          cleared.timersHead =
        .ok (xs.getLast?, ys.head?) := by
    have hLength := hRepresents.length_le
    rw [List.length_append] at hLength
    have hEq : cleared.findCurr timeout
        (maxTimerAllocs + 1) none _ = _ :=
      cleared.findCurr_eq timeout
        hCleared.active_lists.chain hXsCleared hYsCleared
        (by omega)
    rw [Option.or_none] at hEq
    exact hEq
  let linked := cleared.linkTimer t xs.getLast? ys.head?
  have hLoadT : cleared.load t =
      (callback, argument, timeout) := by
    simp [cleared, timer, load]
  have hLinkedLoad : ∀ x, linked.load x = cleared.load x :=
    fun x => cleared.load_linkTimer t x _ _
  refine ⟨linked, ?_, ?_, ?_, ?_⟩
  · change (cleared.findCurr timeout (maxTimerAllocs + 1)
      none cleared.timersHead >>= _) = .ok linked
    rw [hFind]
    rfl
  · have hNodup := List.nodup_append.mp hCleared.nodup
    rw [hInsert]
    refine ⟨?_, ?_, ?_, ?_⟩
    · rw [links_linkTimer]
      apply Links.linkBetween_lists hCleared.active_lists
        hNodup.1 hOffActive
      simp [links, cleared, timer]
    · rw [linkTimer_timerFreeList]
      apply hCleared.free_chain.congr
      intro x hx
      have hNe : x ≠ t := by
        rintro rfl
        exact hOff (List.mem_append_right _ hx)
      have hNotLast : xs.getLast? ≠ some x := by
        intro hLast
        exact hNodup.2.2 x (List.mem_append_left _
          (List.mem_of_getLast? hLast)) x hx rfl
      rw [links_linkTimer, Links.linkBetween_next,
        if_neg hNe, if_neg hNotLast]
    · have hPerm : (xs ++ t :: ys ++ free).Perm
          (t :: (xs ++ ys ++ free)) := by
        simp
      exact hPerm.nodup_iff.mpr
        (List.nodup_cons.mpr ⟨hOff, hCleared.nodup⟩)
    · have hSorted := hCleared.sorted
      have hLe : ∀ a b : TimerPtr,
          (linked.allocatedTimers a).timeout ≤
              (linked.allocatedTimers b).timeout ↔
            (cleared.allocatedTimers a).timeout ≤
              (cleared.allocatedTimers b).timeout := by
        intro a b
        rw [timeout_eq_of_load_eq (hLinkedLoad a),
          timeout_eq_of_load_eq (hLinkedLoad b)]
      have hTimeoutT :
          (cleared.allocatedTimers t).timeout = timeout := by
        simp [cleared, timer]
      rw [List.pairwise_append] at hSorted ⊢
      rcases hSorted with ⟨hSortedX, hSortedY, hAcross⟩
      simp only [hLe]
      refine ⟨hSortedX, List.pairwise_cons.mpr
        ⟨?_, hSortedY⟩, ?_⟩
      · -- everything behind the new timer expires later
        intro y hy
        rw [hTimeoutT]
        cases ys with
        | nil => cases hy
        | cons z zs =>
            have hAfter := hYsCleared z rfl
            rcases List.mem_cons.mp hy with rfl | hMem
            · exact BitVec.le_of_lt (by simpa using hAfter)
            · have hLeY :=
                (List.pairwise_cons.mp hSortedY).1 y hMem
              have hLtZ : timeout <
                  (cleared.allocatedTimers z).timeout := by
                simpa using hAfter
              bv_omega
      · intro x hx y hy
        rcases List.mem_cons.mp hy with rfl | hy
        · rw [hTimeoutT]
          exact hXsCleared x hx
        · exact hAcross x hx y hy
  · rw [hLinkedLoad, hLoadT]
  · intro x hNe
    rw [hLinkedLoad]
    exact load_modify_of_ne _ _ hNe

------------------------------------------------------------
-- Removal, Allocation, and Initialization
------------------------------------------------------------

/-
  A timer on the active list never links to itself.
-/
theorem Represents.next_ne
    {pool : TimerPool}
    {xs ys free : List TimerPtr}
    {t : TimerPtr}
    (hRepresents : pool.Represents (xs ++ t :: ys) free) :
    pool.links.next t ≠ some t := by
  have hLinked := (Links.linked_append_iff _ xs (t :: ys)
    _ _).mp hRepresents.active_lists.2
  have hNodup :=
    (List.nodup_append.mp hRepresents.nodup).1
  have hNotMem := (List.nodup_cons.mp
    (List.nodup_append.mp hNodup).2.1).1
  intro hLoop
  rw [hLinked.2.2.1, Option.or_none] at hLoop
  exact hNotMem (List.mem_of_head? hLoop)

theorem links_bypassNext
    (pool : TimerPool)
    (t : TimerPtr) :
    (pool.bypassNext t).links =
      pool.links.bypassNext t := by
  simp only [bypassNext, Links.bypassNext]
  cases hNext : pool.links.next t <;>
    simp only [links] at hNext <;> rw [hNext]
  · exact links_modify_prev _ _ _

theorem links_bypassPrev
    (pool : TimerPool)
    (t : TimerPtr) :
    (pool.bypassPrev t).links =
      pool.links.bypassPrev t := by
  simp only [bypassPrev, Links.bypassPrev]
  cases hPrev : pool.links.prev t <;>
    simp only [links] at hPrev <;> rw [hPrev]
  · rfl
  · exact links_modify_next _ _ _

/- What `nb__remove_timer` does to the links. -/
theorem links_removeTimer
    (pool : TimerPool)
    (t : TimerPtr) :
    (pool.removeTimer t).links = pool.links.unlink t := by
  have hClear : ∀ p : TimerPool,
      (p.modify t (fun timer =>
        { timer with
          next := none, prev := none
          timeout := BitVec.allOnes 64 })).links =
        (p.links.setNext t none).setPrev t none := by
    intro p
    simp only [links, Links.setNext, Links.setPrev, modify,
      Links.mk.injEq, and_true]
    constructor <;> funext x <;>
      by_cases hEq : x = t <;> simp [hEq]
  rw [removeTimer, hClear, Links.unlink, links_bypassPrev,
    links_bypassNext]

theorem load_bypassNext
    (pool : TimerPool)
    (t x : TimerPtr) :
    (pool.bypassNext t).load x = pool.load x := by
  unfold bypassNext
  split
  · rfl
  · exact load_modify _ _ _ _ (by simp)

theorem load_bypassPrev
    (pool : TimerPool)
    (t x : TimerPtr) :
    (pool.bypassPrev t).load x = pool.load x := by
  unfold bypassPrev
  split
  · exact load_modify _ _ _ _ (by simp)
  · rfl

@[simp] theorem removeTimer_timerFreeList
    (pool : TimerPool)
    (t : TimerPtr) :
    (pool.removeTimer t).timerFreeList =
      pool.timerFreeList := by
  unfold removeTimer bypassPrev bypassNext
  rw [modify_timerFreeList]
  cases (pool.allocatedTimers t).next <;> dsimp only <;>
    split <;> rfl

/- Removing a timer keeps every other timer's load. -/
theorem load_removeTimer_of_ne
    (pool : TimerPool)
    {t x : TimerPtr}
    (hNe : x ≠ t) :
    (pool.removeTimer t).load x = pool.load x := by
  rw [removeTimer, load_modify_of_ne _ _ hNe,
    load_bypassPrev, load_bypassNext]

/- A removed timer keeps its argument. -/
theorem argument_removeTimer
    (pool : TimerPool)
    (t x : TimerPtr) :
    ((pool.removeTimer t).allocatedTimers x).argument =
      (pool.allocatedTimers x).argument := by
  have hBypassed : ∀ y,
      ((pool.bypassNext t).bypassPrev t).load y =
        pool.load y := by
    intro y
    rw [load_bypassPrev, load_bypassNext]
  by_cases hEq : x = t
  · subst hEq
    rw [removeTimer, modify_self]
    exact argument_eq_of_load_eq (hBypassed x)
  · exact argument_eq_of_load_eq
      (load_removeTimer_of_ne pool hEq)

/-
  `nb__remove_timer` on an active timer takes it off the
  active list.
-/
theorem removeTimer_represents
    {pool : TimerPool}
    {xs ys free : List TimerPtr}
    {t : TimerPtr}
    (hRepresents : pool.Represents (xs ++ t :: ys) free) :
    (pool.removeTimer t).Represents (xs ++ ys) free := by
  have hNoLoop := hRepresents.next_ne
  have hNodup := hRepresents.nodup
  have hLinked := (Links.linked_append_iff _ xs (t :: ys)
    _ _).mp hRepresents.active_lists.2
  have hPrevT : pool.links.prev t = xs.getLast? := by
    simpa using hLinked.2.1
  have hPerm : (xs ++ t :: ys ++ free).Perm
      (t :: (xs ++ ys ++ free)) := by
    simp
  have hNodupT := List.nodup_cons.mp
    (hPerm.nodup_iff.mp hNodup)
  have hNe : ∀ x ∈ xs ++ ys ++ free, x ≠ t := by
    rintro x hx rfl
    exact hNodupT.1 hx
  refine ⟨?_, ?_, hNodupT.2, ?_⟩
  · rw [links_removeTimer]
    exact Links.unlink_lists hRepresents.active_lists
      (List.nodup_append.mp hNodup).1
  · rw [removeTimer_timerFreeList]
    apply hRepresents.free_chain.congr
    intro x hx
    have hNotPrev : pool.links.prev t ≠ some x := by
      intro hPrev
      have hMem := List.mem_of_getLast?
        (hPrevT.symm.trans hPrev)
      exact (List.nodup_append.mp hNodup).2.2 x
        (List.mem_append_left _ hMem) x hx rfl
    rw [links_removeTimer,
      Links.unlink_next _ _ _ hNoLoop,
      if_neg (hNe x (by simp [hx])), if_neg hNotPrev]
  · have hSublist : (xs ++ ys).Sublist (xs ++ t :: ys) :=
      (List.sublist_cons_self t ys).append_left xs
    apply (hRepresents.sorted.sublist hSublist).imp_of_mem
    intro a b ha hb hLe
    have hNeA : a ≠ t := hNe a (List.mem_append_left _ ha)
    have hNeB : b ≠ t := hNe b (List.mem_append_left _ hb)
    rw [timeout_eq_of_load_eq
        (load_removeTimer_of_ne pool hNeA),
      timeout_eq_of_load_eq
        (load_removeTimer_of_ne pool hNeB)]
    exact hLe

/-
  `nb__return_timer` puts a timer of neither list on the
  free list.
-/
theorem returnTimer_represents
    {pool : TimerPool}
    {active free : List TimerPtr}
    {t : TimerPtr}
    (hRepresents : pool.Represents active free)
    (hOff : t ∉ active ++ free) :
    (pool.returnTimer t).Represents active (t :: free) := by
  have hWritten := hRepresents.modify hOff (fun timer =>
    { timer with next := pool.timerFreeList })
  have hNextT :
      (pool.returnTimer t).links.next t =
        pool.timerFreeList := by
    simp [returnTimer, links]
  refine ⟨hWritten.active_lists, ⟨rfl, ?_⟩, ?_,
    hWritten.sorted⟩
  · rw [hNextT]
    exact hWritten.free_chain
  · have hPerm : (active ++ t :: free).Perm
        (t :: (active ++ free)) := List.perm_middle
    exact hPerm.nodup_iff.mpr
      (List.nodup_cons.mpr ⟨hOff, hRepresents.nodup⟩)

theorem load_returnTimer
    (pool : TimerPool)
    (t x : TimerPtr) :
    (pool.returnTimer t).load x = pool.load x :=
  load_modify pool t x
    (fun timer => { timer with next := pool.timerFreeList })
    (fun _ => ⟨rfl, rfl, rfl⟩)

theorem argument_returnTimer
    (pool : TimerPool)
    (t x : TimerPtr) :
    ((pool.returnTimer t).allocatedTimers x).argument =
      (pool.allocatedTimers x).argument :=
  argument_eq_of_load_eq (load_returnTimer pool t x)

/- `nb__alloc_timer` fails exactly on an empty free list. -/
theorem allocTimer_nil
    {pool : TimerPool}
    {active : List TimerPtr}
    (hRepresents : pool.Represents active []) :
    pool.allocTimer = (none, pool) := by
  have hFree : pool.timerFreeList = none :=
    hRepresents.free_chain
  rw [allocTimer, hFree]

/- `nb__alloc_timer` takes the first timer off the list. -/
theorem allocTimer_cons
    {pool : TimerPool}
    {active free : List TimerPtr}
    {t : TimerPtr}
    (hRepresents : pool.Represents active (t :: free)) :
    ∃ pool', pool.allocTimer = (some t, pool') ∧
      pool'.Represents active free ∧
      t ∉ active ++ free ∧
      ∀ x, pool'.load x = pool.load x := by
  have hFree : pool.timerFreeList = some t :=
    hRepresents.free_chain.1
  have hPerm : (active ++ t :: free).Perm
      (t :: (active ++ free)) := List.perm_middle
  have hNodup := List.nodup_cons.mp
    (hPerm.nodup_iff.mp hRepresents.nodup)
  refine ⟨{ pool with
      timerFreeList := (pool.allocatedTimers t).next },
    by rw [allocTimer, hFree], ?_, hNodup.1, fun _ => rfl⟩
  exact
    { active_lists := hRepresents.active_lists
      free_chain := hRepresents.free_chain.2
      nodup := hNodup.2
      sorted := hRepresents.sorted }

/-
  `nb__init_timers` puts every timer on the free list. It
  leaves the head of the active list, so it only sets up a
  pool on which no timer is active.
-/
theorem initTimers_represents
    {pool : TimerPool}
    (hHead : pool.timersHead = none) :
    pool.initTimers.Represents []
      (List.finRange maxTimerAllocs) := by
  have hNext : ∀ t : TimerPtr,
      pool.initTimers.links.next t =
        if h : t.val + 1 < maxTimerAllocs then
          some ⟨t.val + 1, h⟩
        else
          none := fun _ => rfl
  -- `rest` is a variable so that no step computes the list
  have hChain : ∀ k n rest, k + n = maxTimerAllocs →
      rest = (List.finRange maxTimerAllocs).drop n →
      Chain pool.initTimers.links.next
        (if h : n < maxTimerAllocs then some ⟨n, h⟩ else none)
        rest := by
    intro k
    induction k with
    | zero =>
        intro n rest hSum hRest
        have hEnd : ¬ n < maxTimerAllocs := by omega
        rw [List.drop_eq_nil_of_le
          (by rw [List.length_finRange]; omega)] at hRest
        rw [dif_neg hEnd, hRest]
        rfl
    | succ k ih =>
        intro n rest hSum hRest
        have hLt : n < maxTimerAllocs := by omega
        rw [List.drop_eq_getElem_cons
          (by rw [List.length_finRange]; exact hLt),
          List.getElem_finRange] at hRest
        rw [dif_pos hLt, hRest]
        refine ⟨rfl, ?_⟩
        rw [hNext]
        generalize hTail :
          (List.finRange maxTimerAllocs).drop (n + 1) = tail
        exact ih (n + 1) tail (by omega) hTail.symm
  have hSize : maxTimerAllocs + 0 = maxTimerAllocs := by
    omega
  obtain ⟨all, hAll⟩ :
      ∃ all, all = List.finRange maxTimerAllocs := ⟨_, rfl⟩
  rw [← hAll]
  have hFree := hChain maxTimerAllocs 0 all hSize
    (by rw [List.drop_zero, hAll])
  rw [dif_pos (by decide)] at hFree
  refine ⟨⟨hHead, trivial⟩, hFree, ?_, List.Pairwise.nil⟩
  rw [List.nil_append, hAll]
  exact List.nodup_finRange maxTimerAllocs

------------------------------------------------------------
-- Where a Timer Is
------------------------------------------------------------

/- Following the links from the head reaches the timer. -/
def IsActive
    (pool : TimerPool)
    (t : TimerPtr) : Prop :=
  ∃ ts, Chain pool.links.next pool.timersHead ts ∧ t ∈ ts

/- The timer is on the free list. -/
def IsFree
    (pool : TimerPool)
    (t : TimerPtr) : Prop :=
  ∃ ts, Chain pool.links.next pool.timerFreeList ts ∧ t ∈ ts

theorem Represents.isActive_iff
    {pool : TimerPool}
    {active free : List TimerPtr}
    (hRepresents : pool.Represents active free)
    {t : TimerPtr} :
    pool.IsActive t ↔ t ∈ active := by
  have hChain := hRepresents.active_lists.chain
  constructor
  · rintro ⟨ts, hChain', hMem⟩
    exact hChain.unique hChain' ▸ hMem
  · intro hMem
    exact ⟨active, hChain, hMem⟩

theorem Represents.isFree_iff
    {pool : TimerPool}
    {active free : List TimerPtr}
    (hRepresents : pool.Represents active free)
    {t : TimerPtr} :
    pool.IsFree t ↔ t ∈ free := by
  constructor
  · rintro ⟨ts, hChain, hMem⟩
    exact hRepresents.free_chain.unique hChain ▸ hMem
  · intro hMem
    exact ⟨free, hRepresents.free_chain, hMem⟩

end TimerPool

end NetBlocks
