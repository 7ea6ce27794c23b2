import NetBlocks.Core.Packet
import Mathlib.Logic.Function.Basic

/-
  The timer pool of `nb_timer.c`: a fixed array of timer
  objects threaded into a free list and an active list.

  The active list is kept in increasing order of timeout; a
  new timer goes behind the ones that expire with it.

  Main declarations:
    * `TimerPool` and its operations
    * `toUll` and `toTimerPtr`
-/

------------------------------------------------------------
-- Timer Objects
------------------------------------------------------------

namespace NetBlocks

/- `MAX_TIMER_ALLOCS` -/
def maxTimerAllocs : Nat := 1024

/- Address of a timer; `NULL` is `none`. -/
abbrev TimerPtr := Fin maxTimerAllocs

/- The only function the program installs as a callback. -/
inductive TimerCallback where
| reliableRedeliveryTimerCb
deriving DecidableEq, Repr

/- `struct nb__timer_obj` -/
structure Timer where
  callback : TimerCallback
  argument : PacketPtr
  next : Option TimerPtr
  prev : Option TimerPtr
  timeout : BitVec 64
deriving DecidableEq, Repr

/- The static state of `nb_timer.c`. -/
structure TimerPool where
  allocatedTimers : TimerPtr → Timer
  timerFreeList : Option TimerPtr
  timersHead : Option TimerPtr

/-
  A timer's address as `to_ull` stores it in a packet
  header. Addresses are numbered from one.
-/
def toUll : TimerPtr → BitVec 64 :=
  fun t => BitVec.ofNat 64 (t.val + 1)

/- The timer a stored address points at, if it does. -/
def toTimerPtr
    (address : BitVec 64) : Option TimerPtr :=
  if h : address.toNat - 1 < maxTimerAllocs ∧
      0 < address.toNat then
    some ⟨address.toNat - 1, h.1⟩
  else
    none

@[simp] theorem toTimerPtr_toUll
    (t : TimerPtr) :
    toTimerPtr (toUll t) = some t := by
  have hBound : t.val < 1024 := t.isLt
  have hAddress : (toUll t).toNat = t.val + 1 := by
    simp only [toUll, BitVec.toNat_ofNat]
    omega
  unfold toTimerPtr
  rw [dif_pos (by rw [hAddress]; exact ⟨by simp, by omega⟩)]
  simp [hAddress]

namespace TimerPool

/- Assign fields of one timer object. -/
def modify
    (pool : TimerPool)
    (t : TimerPtr)
    (assign : Timer → Timer) : TimerPool :=
  { pool with
    allocatedTimers :=
      Function.update pool.allocatedTimers t
        (assign (pool.allocatedTimers t)) }

------------------------------------------------------------
-- Pool Operations
------------------------------------------------------------

/- `nb__alloc_timer` -/
def allocTimer
    (pool : TimerPool) : Option TimerPtr × TimerPool :=
  match pool.timerFreeList with
  | none => (none, pool)
  | some toRet =>
      (some toRet,
        { pool with
          timerFreeList :=
            (pool.allocatedTimers toRet).next })

/- `nb__return_timer` -/
def returnTimer
    (pool : TimerPool)
    (t : TimerPtr) : TimerPool :=
  { pool.modify t
      (fun timer =>
        { timer with next := pool.timerFreeList }) with
    timerFreeList := some t }

/-
  The search loop of `nb__insert_timer`: the last timer with
  a timeout of at most `timeout`, and the one after it. A list
  that is not a cycle is at most as long as the pool, which
  bounds the fuel.
-/
def findCurr
    (pool : TimerPool)
    (timeout : BitVec 64) :
    Nat → Option TimerPtr → Option TimerPtr →
      Except Fault (Option TimerPtr × Option TimerPtr)
| 0, _, _ => .error .diverges
| _ + 1, prev, none => .ok (prev, none)
| fuel + 1, prev, some curr =>
    if (pool.allocatedTimers curr).timeout > timeout then
      .ok (prev, some curr)
    else
      pool.findCurr timeout fuel (some curr)
        (pool.allocatedTimers curr).next

/-
  The end of `nb__insert_timer`: link `t` between the two
  timers the search stopped at.
-/
def linkTimer
    (pool : TimerPool)
    (t : TimerPtr)
    (prev curr : Option TimerPtr) : TimerPool :=
  let linked :=
    match prev with
    | none =>
        -- the timer is being inserted at the beginning
        { pool with timersHead := some t }.modify t
          (fun timer => { timer with next := curr })
    | some p =>
        ((pool.modify p
          (fun timer => { timer with next := some t })
          ).modify t
          (fun timer => { timer with next := curr })
          ).modify t
          (fun timer => { timer with prev := some p })
  match curr with
  | none => linked
  | some n =>
      linked.modify n
        (fun timer => { timer with prev := some t })

/-
  `nb__insert_timer`. The timer is null when the pool was
  exhausted, and the first assignment goes through it.
-/
def insertTimer
    (pool : TimerPool)
    (timer : Option TimerPtr)
    (timeout : BitVec 64)
    (callback : TimerCallback)
    (argument : PacketPtr) :
    Except Fault TimerPool :=
  match timer with
  | none => .error .nullPointer
  | some t => do
      let pool := pool.modify t (fun _ =>
        { callback, argument, timeout,
          next := none, prev := none })
      let (prev, curr) ←
        pool.findCurr timeout (maxTimerAllocs + 1) none
          pool.timersHead
      return pool.linkTimer t prev curr

/- `nb__remove_timer`: link the next timer past `t`. -/
def bypassNext
    (pool : TimerPool)
    (t : TimerPtr) : TimerPool :=
  match (pool.allocatedTimers t).next with
  | none => pool
  | some n =>
      pool.modify n (fun timer =>
        { timer with prev := (pool.allocatedTimers t).prev })

/-
  `nb__remove_timer`: link the previous timer, or the head,
  past `t`.
-/
def bypassPrev
    (pool : TimerPool)
    (t : TimerPtr) : TimerPool :=
  match (pool.allocatedTimers t).prev with
  | some p =>
      pool.modify p (fun timer =>
        { timer with next := (pool.allocatedTimers t).next })
  | none =>
      { pool with
        timersHead := (pool.allocatedTimers t).next }

/- `nb__remove_timer` -/
def removeTimer
    (pool : TimerPool)
    (t : TimerPtr) : TimerPool :=
  ((pool.bypassNext t).bypassPrev t).modify t
    (fun timer =>
      { timer with
        next := none, prev := none
        timeout := BitVec.allOnes 64 })

/-
  `nb__init_timers`: every timer goes on the free list, in
  order of address. The head of the active list is not
  touched. The time of the last check is never read again
  and is left out.
-/
def initTimers
    (pool : TimerPool) : TimerPool :=
  { pool with
    timerFreeList := some ⟨0, by decide⟩
    allocatedTimers := fun t =>
      { pool.allocatedTimers t with
        next :=
          if h : t.val + 1 < maxTimerAllocs then
            some ⟨t.val + 1, h⟩
          else
            none } }

end TimerPool

end NetBlocks
