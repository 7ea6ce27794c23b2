import Mathlib.Data.Finset.Lattice.Fold
import Mathlib.Data.Fintype.Basic
import NetBlocks.Core.TimerCalls
import NetBlocks.Correctness.ConnectionTable

/-
  One run of `nb__check_timers`: it ends, fires the timers
  that are due, each once and in order, and leaves all timers
  active with timeouts that are still to come.

  Main declarations:
    * `TimerPool.InOrder`
    * `firedTimers`
    * `FiresDue` and `checkTimers_firesDue`
-/

namespace NetBlocks

open Except

variable {P : Type}

------------------------------------------------------------
-- Order of Expiry and Insertion
------------------------------------------------------------

namespace TimerPool

/-
  Timers that expire earlier come first, and of those that
  expire together the one inserted first.
-/
def InOrder
    (pool : TimerPool)
    (stamp : TimerPtr → Nat)
    (ts : List TimerPtr) : Prop :=
  ts.Pairwise (fun a b =>
    (pool.allocatedTimers a).timeout <
        (pool.allocatedTimers b).timeout ∨
      (pool.allocatedTimers a).timeout =
          (pool.allocatedTimers b).timeout ∧
        stamp a < stamp b)

section Insertion

variable
    {pool pool' : TimerPool}
    {stamp : TimerPtr → Nat}
    {timeout : BitVec 64}
    {t : TimerPtr}
    {n : Nat}

/- A timer goes behind the ones that expire no later. -/
theorem insertInto_append
    {xs : List TimerPtr}
    (hXs : ∀ x ∈ xs,
      (pool.allocatedTimers x).timeout ≤ timeout)
    (ys : List TimerPtr) :
    pool.insertInto timeout t (xs ++ ys) =
      xs ++ pool.insertInto timeout t ys := by
  induction xs with
  | nil => rfl
  | cons x xs ih =>
      rw [List.cons_append, insertInto,
        if_pos (hXs x (List.mem_cons_self ..)),
        ih (fun y hy => hXs y (List.mem_cons_of_mem _ hy))]
      rfl

/- The timer inserted last is last among equal ones. -/
theorem insertInto_inOrder
    {active : List TimerPtr}
    (hOrder : pool.InOrder stamp active)
    (hOff : t ∉ active)
    (hNewest : ∀ x ∈ active, stamp x < n)
    (hOwn : (pool'.allocatedTimers t).timeout = timeout)
    (hOthers : ∀ x ∈ active,
      (pool'.allocatedTimers x).timeout =
        (pool.allocatedTimers x).timeout) :
    pool'.InOrder (Function.update stamp t n)
      (pool.insertInto timeout t active) := by
  have hNe : ∀ x ∈ active, x ≠ t := by
    rintro x hx rfl
    exact hOff hx
  have hKept : ∀ xs : List TimerPtr, (∀ x ∈ xs, x ∈ active) →
      pool.InOrder stamp xs →
        pool'.InOrder (Function.update stamp t n) xs := by
    intro xs hIn hXs
    apply hXs.imp_of_mem
    intro a b ha hb hBefore
    rw [hOthers a (hIn a ha), hOthers b (hIn b hb),
      Function.update_of_ne (hNe a (hIn a ha)),
      Function.update_of_ne (hNe b (hIn b hb))]
    exact hBefore
  rcases pool.insertInto_split timeout t active with
    ⟨xs, ys, rfl, hInsert, hXs, hYs⟩
  rcases List.pairwise_append.mp hOrder with
    ⟨hFirst, hSecond, hAcross⟩
  rw [hInsert]
  refine List.pairwise_append.mpr ⟨?_, ?_, ?_⟩
  · exact hKept xs (fun x hx => List.mem_append_left _ hx)
      hFirst
  · refine List.pairwise_cons.mpr ⟨?_, ?_⟩
    · -- the first of the later ones expires later
      intro y hy
      left
      rw [hOwn, hOthers y (List.mem_append_right _ hy)]
      cases ys with
      | nil => cases hy
      | cons z zs =>
          have hZ := BitVec.not_le.mp (hYs z rfl)
          rcases List.mem_cons.mp hy with rfl | hy
          · exact hZ
          · rcases (List.pairwise_cons.mp hSecond).1 y hy with
              hLt | ⟨hEq, -⟩
            · exact BitVec.lt_trans hZ hLt
            · rw [← hEq]
              exact hZ
    · exact hKept ys (fun y hy => List.mem_append_right _ hy)
        hSecond
  · intro x hx y hy
    have hXIn := List.mem_append_left ys hx
    rcases List.mem_cons.mp hy with rfl | hy
    · have hLe := hXs x hx
      rw [hOthers x hXIn, hOwn,
        Function.update_of_ne (hNe x hXIn),
        Function.update_self]
      by_cases hEq : (pool.allocatedTimers x).timeout = timeout
      · exact Or.inr ⟨hEq, hNewest x hXIn⟩
      · exact Or.inl (BitVec.lt_of_le_ne hLe hEq)
    · have hYIn := List.mem_append_right xs hy
      rw [hOthers x hXIn, hOthers y hYIn,
        Function.update_of_ne (hNe x hXIn),
        Function.update_of_ne (hNe y hYIn)]
      exact hAcross x hx y hy

/- The due timers of a sorted list are its first ones. -/
theorem exists_due
    (pool : TimerPool)
    (now : BitVec 64)
    {active : List TimerPtr}
    (hSorted : active.Pairwise (fun a b =>
      (pool.allocatedTimers a).timeout ≤
        (pool.allocatedTimers b).timeout)) :
    ∃ due later, active = due ++ later ∧
      (∀ t ∈ due, (pool.allocatedTimers t).timeout ≤ now) ∧
      ∀ t ∈ later, now < (pool.allocatedTimers t).timeout := by
  induction active with
  | nil => exact ⟨[], [], by simp⟩
  | cons x active ih =>
      rcases List.pairwise_cons.mp hSorted with
        ⟨hFirst, hRest⟩
      by_cases hDue :
          (pool.allocatedTimers x).timeout ≤ now
      · rcases ih hRest with ⟨due, later, rfl, hYes, hNo⟩
        exact ⟨x :: due, later, rfl,
          List.forall_mem_cons.mpr ⟨hDue, hYes⟩, hNo⟩
      · have hLater := BitVec.not_le.mp hDue
        refine ⟨[], x :: active, rfl, by simp,
          List.forall_mem_cons.mpr ⟨hLater, ?_⟩⟩
        intro y hy
        have hLe := hFirst y hy
        rw [BitVec.le_def] at hLe
        rw [BitVec.lt_def] at hLater ⊢
        omega

end Insertion

end TimerPool

------------------------------------------------------------
-- Fired Timers
------------------------------------------------------------

/-
  The timers that the loop of `nb__check_timers` fires, in
  the order in which it does.
-/
def firedTimers
    (fmt : PacketFormat P)
    (tNow : BitVec 64) :
    Nat → Endpoint P → List TimerPtr
| 0, _ => []
| fuel + 1, e =>
    match e.timers.timersHead with
    | none => []
    | some t =>
        if (e.timers.allocatedTimers t).timeout ≤ tNow then
          match runCallback fmt t tNow
            { e with timers := e.timers.removeTimer t } with
          | .error _ => [t]
          | .ok e => t :: firedTimers fmt tNow fuel e
        else
          []

section Loop

variable
    {fmt : PacketFormat P}
    {now : BitVec 64}
    {active free : List TimerPtr}

/- What firing a timer puts into the pool. -/
theorem runCallback_represents
    (fmt : PacketFormat P)
    (now : BitVec 64)
    {t : TimerPtr}
    {e : Endpoint P}
    (hPool : e.timers.Represents (t :: active) free) :
    ∃ timers,
      runCallback fmt t now
          { e with timers := e.timers.removeTimer t } =
        .ok { e with
          timers := timers
          out := e.out ++ [e.onWire fmt
            (e.timers.allocatedTimers t).argument] } ∧
      timers.Represents
        ((e.timers.removeTimer t).insertInto
          (now + ReliableModule.redeliveryTimeoutMs) t active)
        free ∧
      (timers.allocatedTimers t).timeout =
        now + ReliableModule.redeliveryTimeoutMs ∧
      (timers.allocatedTimers t).argument =
        (e.timers.allocatedTimers t).argument ∧
      ∀ x, x ≠ t → timers.load x = e.timers.load x := by
  have hFront : e.timers.Represents ([] ++ t :: active)
      free := hPool
  have hRemoved := TimerPool.removeTimer_represents hFront
  rw [List.nil_append] at hRemoved
  have hOff : t ∉ active ++ free :=
    (List.nodup_cons.mp hPool.nodup).1
  have hArgument := TimerPool.argument_removeTimer e.timers t
  rcases TimerPool.insertTimer_represents
      (now + ReliableModule.redeliveryTimeoutMs)
      .reliableRedeliveryTimerCb
      ((e.timers.removeTimer t).allocatedTimers t).argument
      hRemoved hOff with
    ⟨timers, hInsert, hPool', hOwn, hOthers⟩
  have hOwn' := hOwn
  simp only [TimerPool.load, Prod.mk.injEq] at hOwn'
  rcases hOwn' with ⟨-, hOwnArg, hOwnTimeout⟩
  refine ⟨timers, ?_, hPool', hOwnTimeout,
    hOwnArg.trans (hArgument t), ?_⟩
  · rw [hArgument] at hInsert
    simp only [runCallback, ReliableModule.redeliveryCb,
      Endpoint.sendPacket, hArgument, hInsert]
    rfl
  · intro x hx
    exact (hOthers x hx).trans
      (TimerPool.load_removeTimer_of_ne _ hx)

/- The loop stops at a timer that is not due. -/
theorem checkTimersLoop_idle
    (fmt : PacketFormat P)
    {e : Endpoint P}
    (fuel : Nat)
    (hPool : e.timers.Represents active free)
    (hLater : ∀ t ∈ active,
      now < (e.timers.allocatedTimers t).timeout) :
    checkTimersLoop fmt now (fuel + 1) e = .ok e ∧
      firedTimers fmt now (fuel + 1) e = [] := by
  have hHead : e.timers.timersHead = active.head? :=
    hPool.active_lists.1
  rw [checkTimersLoop, firedTimers, hHead]
  cases active with
  | nil => exact ⟨rfl, rfl⟩
  | cons u later =>
      have hNot := BitVec.not_le.mpr
        (hLater u (List.mem_cons_self ..))
      simp only [List.head?_cons, if_neg hNot, and_self]

/- The loop fires a first timer that is due and goes on. -/
theorem checkTimersLoop_due
    {t : TimerPtr}
    {e e₁ : Endpoint P}
    (fuel : Nat)
    (hPool : e.timers.Represents (t :: active) free)
    (hDue : (e.timers.allocatedTimers t).timeout ≤ now)
    (hCallback : runCallback fmt t now
      { e with timers := e.timers.removeTimer t } = .ok e₁) :
    checkTimersLoop fmt now (fuel + 1) e =
        checkTimersLoop fmt now fuel e₁ ∧
      firedTimers fmt now (fuel + 1) e =
        t :: firedTimers fmt now fuel e₁ := by
  have hHead : e.timers.timersHead = some t :=
    hPool.active_lists.1
  rw [checkTimersLoop, firedTimers, hHead]
  simp only [if_pos hDue, hCallback, and_true]
  rfl

/-
  The loop of `nb__check_timers` on an active list of which
  the first part is due. It fires this part, and files each
  fired timer among the ones that expire later.
-/
theorem checkTimersLoop_eq
    (fmt : PacketFormat P)
    {due later : List TimerPtr}
    {fuel : Nat}
    {e : Endpoint P}
    (hPool : e.timers.Represents (due ++ later) free)
    (hDue : ∀ t ∈ due,
      (e.timers.allocatedTimers t).timeout ≤ now)
    (hLater : ∀ t ∈ later,
      now < (e.timers.allocatedTimers t).timeout)
    (hTime : now.toNat + 50 < 2 ^ 64)
    (hFuel : due.length < fuel) :
    ∃ timers active',
      checkTimersLoop fmt now fuel e =
        .ok { e with
          timers := timers
          out := e.out ++ due.map (fun t =>
            e.onWire fmt
              (e.timers.allocatedTimers t).argument) } ∧
      firedTimers fmt now fuel e = due ∧
      timers.Represents active' free ∧
      active'.Perm (due ++ later) ∧
      (∀ t ∈ active',
        now < (timers.allocatedTimers t).timeout) ∧
      ∀ stamp, e.timers.InOrder stamp later →
        ∃ stamp', timers.InOrder stamp' active' ∧
          ∀ t ∈ later, stamp' t = stamp t := by
  induction due generalizing later fuel e with
  | nil =>
      rcases Nat.exists_eq_succ_of_ne_zero
          (Nat.ne_of_gt hFuel) with ⟨fuel, rfl⟩
      rw [List.nil_append] at hPool
      rcases checkTimersLoop_idle fmt fuel hPool hLater with
        ⟨hLoop, hFired⟩
      refine ⟨e.timers, later, ?_, hFired, hPool, .refl _,
        hLater, fun stamp hOrder =>
          ⟨stamp, hOrder, fun _ _ => rfl⟩⟩
      rw [hLoop, List.map_nil, List.append_nil]
  | cons t due ih =>
      rcases Nat.exists_eq_succ_of_ne_zero
          (Nat.ne_of_gt (Nat.zero_lt_of_lt hFuel)) with
        ⟨fuel, rfl⟩
      have hFront : e.timers.Represents
        (t :: (due ++ later)) free := hPool
      have hOff : t ∉ due ++ later :=
        (List.nodup_cons.mp
          (List.nodup_append.mp hFront.nodup).1).1
      have hNe : ∀ x ∈ due ++ later, x ≠ t := by
        rintro x hx rfl
        exact hOff hx
      rcases runCallback_represents fmt now hFront with
        ⟨timers₁, hCallback, hPool₁, hTimeout, hArg,
          hOthers⟩
      rcases checkTimersLoop_due fuel hFront
          (hDue t (List.mem_cons_self ..)) hCallback with
        ⟨hLoop, hFired⟩
      -- the new timeout is behind all that are due
      have hNext : (now + ReliableModule.redeliveryTimeoutMs
          ).toNat = now.toNat + 50 := by
        rw [BitVec.toNat_add]
        exact Nat.mod_eq_of_lt hTime
      have hKept : ∀ x ∈ due ++ later,
          (timers₁.allocatedTimers x).timeout =
            (e.timers.allocatedTimers x).timeout :=
        fun x hx => TimerPool.timeout_eq_of_load_eq
          (hOthers x (hNe x hx))
      have hRemoved : ∀ x ∈ due ++ later,
          ((e.timers.removeTimer t).allocatedTimers x
            ).timeout =
            (e.timers.allocatedTimers x).timeout :=
        fun x hx => TimerPool.timeout_eq_of_load_eq
          (TimerPool.load_removeTimer_of_ne _ (hNe x hx))
      rw [TimerPool.insertInto_append (by
        intro x hx
        rw [hRemoved x (List.mem_append_left _ hx),
          BitVec.le_def, hNext]
        have hLe := hDue x (List.mem_cons_of_mem _ hx)
        rw [BitVec.le_def] at hLe
        omega)] at hPool₁
      let later₁ := (e.timers.removeTimer t).insertInto
        (now + ReliableModule.redeliveryTimeoutMs) t later
      have hPerm₁ : later₁.Perm (t :: later) :=
        TimerPool.insertInto_perm _ _ _ _
      have hLater₁ : ∀ x ∈ later₁,
          now < (timers₁.allocatedTimers x).timeout := by
        intro x hx
        rcases List.mem_cons.mp (hPerm₁.mem_iff.mp hx) with
          rfl | hx
        · rw [hTimeout, BitVec.lt_def, hNext]
          omega
        · rw [hKept x (List.mem_append_right _ hx)]
          exact hLater x hx
      have hDue₁ : ∀ x ∈ due,
          (timers₁.allocatedTimers x).timeout ≤ now := by
        intro x hx
        rw [hKept x (List.mem_append_left _ hx)]
        exact hDue x (List.mem_cons_of_mem _ hx)
      let e₁ : Endpoint P := { e with
        timers := timers₁
        out := e.out ++ [e.onWire fmt
          (e.timers.allocatedTimers t).argument] }
      rcases @ih later₁ fuel e₁ hPool₁ hDue₁ hLater₁
          (Nat.lt_of_succ_lt_succ hFuel) with
        ⟨timers, active', hRest, hOthersFired, hPool', hPerm,
          hAll, hOrder⟩
      refine ⟨timers, active', ?_, ?_, hPool', ?_, hAll, ?_⟩
      · have hArgs : ∀ x ∈ due,
            (timers₁.allocatedTimers x).argument =
              (e.timers.allocatedTimers x).argument :=
          fun x hx => TimerPool.argument_eq_of_load_eq
            (hOthers x (hNe x (List.mem_append_left _ hx)))
        have hSent : due.map (fun x => e.onWire fmt
              (timers₁.allocatedTimers x).argument) =
            due.map (fun x => e.onWire fmt
              (e.timers.allocatedTimers x).argument) :=
          List.map_congr_left (fun x hx => by rw [hArgs x hx])
        rw [hLoop, hRest, List.map_cons, ← hSent,
          ← List.singleton_append, ← List.append_assoc]
        rfl
      · rw [hFired, hOthersFired]
      · have hBehind := hPerm.trans (hPerm₁.append_left due)
        exact hBehind.trans List.perm_middle
      · intro stamp hStamp
        have hNewest : ∀ x ∈ later,
            stamp x < Finset.univ.sup stamp + 1 :=
          fun x _ => Nat.lt_succ_of_le
            (Finset.le_sup (Finset.mem_univ x))
        have hKeeps : ∀ x ∈ later,
            (timers₁.allocatedTimers x).timeout =
              ((e.timers.removeTimer t).allocatedTimers x
                ).timeout := by
          intro x hx
          have hMem := List.mem_append_right due hx
          exact (hKept x hMem).trans (hRemoved x hMem).symm
        have hStamp' : (e.timers.removeTimer t).InOrder stamp
            later := by
          apply List.Pairwise.imp_of_mem ?_ hStamp
          intro a b ha hb hBefore
          rw [hRemoved a (List.mem_append_right _ ha),
            hRemoved b (List.mem_append_right _ hb)]
          exact hBefore
        have hIn := TimerPool.insertInto_inOrder hStamp'
          (fun hMem => hOff (List.mem_append_right _ hMem))
          hNewest hTimeout hKeeps
        rcases hOrder _ hIn with ⟨stamp', hStamped, hSame⟩
        refine ⟨stamp', hStamped, ?_⟩
        intro x hx
        rw [hSame x (hPerm₁.mem_iff.mpr
            (List.mem_cons_of_mem _ hx)),
          Function.update_of_ne
            (hNe x (List.mem_append_right _ hx))]

end Loop

------------------------------------------------------------
-- One Check of the Timers
------------------------------------------------------------

/-
  What one check of the timers `active` comes to: which ones
  fire and in which order, what is sent, and what the list
  is like afterwards. `stamp` tells when a timer was put
  into the list.
-/
structure FiresDue
    (fmt : PacketFormat P)
    (active free fired : List TimerPtr)
    (e e' : Endpoint P) : Prop where
  due : ∀ t, t ∈ fired ↔
    t ∈ active ∧
      (e.timers.allocatedTimers t).timeout ≤ e.timeNow
  once : fired.Nodup
  sorted : fired.Pairwise (fun a b =>
    (e.timers.allocatedTimers a).timeout ≤
      (e.timers.allocatedTimers b).timeout)
  order : ∀ stamp, e.timers.InOrder stamp active →
    e.timers.InOrder stamp fired
  sent : e'.out = e.out ++ fired.map (fun t =>
    e.onWire fmt (e.timers.allocatedTimers t).argument)
  rest : ∃ active',
    e'.timers.Represents active' free ∧
      active'.Perm active ∧
      (∀ t ∈ active',
        e.timeNow < (e'.timers.allocatedTimers t).timeout) ∧
      ∀ stamp, e.timers.InOrder stamp active →
        ∃ stamp', e'.timers.InOrder stamp' active' ∧
          ∀ t ∈ active, t ∉ fired → stamp' t = stamp t

/-
  `nb__check_timers` returns, has fired the timers that were
  due and has filed them among the ones still to come.
-/
theorem checkTimers_firesDue
    {active free : List TimerPtr}
    {e : Endpoint P}
    (fmt : PacketFormat P)
    (hPool : e.timers.Represents active free)
    (hTime : e.timeNow.toNat + 50 < 2 ^ 64) :
    ∃ e', checkTimers fmt e = .ok e' ∧
      FiresDue fmt active free
        (firedTimers fmt e.timeNow (maxTimerAllocs + 1) e)
        e e' := by
  rcases e.timers.exists_due e.timeNow hPool.sorted with
    ⟨due, later, rfl, hDue, hLater⟩
  have hFuel : due.length < maxTimerAllocs + 1 := by
    have hLength := hPool.length_le
    rw [List.length_append] at hLength
    omega
  rcases checkTimersLoop_eq fmt hPool hDue hLater hTime
      hFuel with
    ⟨timers, active', hLoop, hFired, hPool', hPerm, hAll,
      hOrder⟩
  refine ⟨_, hLoop, ?_⟩
  rw [hFired]
  have hActive := (List.nodup_append.mp hPool.nodup).1
  refine ⟨?_, (List.nodup_append.mp hActive).1,
    (List.pairwise_append.mp hPool.sorted).1, ?_, rfl,
    ⟨active', hPool', hPerm, hAll, ?_⟩⟩
  · intro t
    constructor
    · intro ht
      exact ⟨List.mem_append_left _ ht, hDue t ht⟩
    · rintro ⟨ht, hLe⟩
      rcases List.mem_append.mp ht with ht | ht
      · exact ht
      · exact absurd hLe (BitVec.not_le.mpr (hLater t ht))
  · intro stamp hStamp
    exact (List.pairwise_append.mp hStamp).1
  · intro stamp hStamp
    rcases hOrder stamp
        (List.pairwise_append.mp hStamp).2.1 with
      ⟨stamp', hStamped, hSame⟩
    refine ⟨stamp', hStamped, ?_⟩
    intro t ht hNot
    rcases List.mem_append.mp ht with ht | ht
    · exact absurd ht hNot
    · exact hSame t ht

/- The timer with a given place among all. -/
def timerAt
    (n : Nat) : TimerPtr :=
  ⟨n % maxTimerAllocs, Nat.mod_lt _ (by decide)⟩

/- Two timers that expire together, and one behind them. -/
def tiedTimers : TimerPool where
  allocatedTimers t :=
    { callback := .reliableRedeliveryTimerCb
      argument := 0
      next := if t = timerAt 0 then some (timerAt 1)
        else if t = timerAt 1 then some (timerAt 2) else none
      prev := if t = timerAt 1 then some (timerAt 0)
        else if t = timerAt 2 then some (timerAt 1) else none
      timeout := if t = timerAt 2 then 9 else 5 }
  timerFreeList := none
  timersHead := some (timerAt 0)

/- Of three timers two are due at the time. -/
theorem checkTimers_firesDue_tied :
    ∃ e', checkTimers netPacketFormat
        { bareEndpoint with
          timers := tiedTimers
          timeNow := 7 } = .ok e' ∧
      FiresDue netPacketFormat
        [timerAt 0, timerAt 1, timerAt 2] []
        (firedTimers netPacketFormat 7 (maxTimerAllocs + 1)
          { bareEndpoint with
            timers := tiedTimers
            timeNow := 7 })
        { bareEndpoint with
          timers := tiedTimers
          timeNow := 7 } e' := by
  have hPool : tiedTimers.Represents
      [timerAt 0, timerAt 1, timerAt 2] [] :=
    { active_lists := ⟨rfl, by
        refine ⟨by decide, by decide, by decide, by decide,
          by decide, by decide, trivial⟩⟩
      free_chain := rfl
      nodup := by decide
      sorted := by decide }
  let e : Endpoint PacketBuffer :=
    { bareEndpoint with
      timers := tiedTimers
      timeNow := 7 }
  have hTime : e.timeNow.toNat + 50 < 2 ^ 64 := by decide
  exact checkTimers_firesDue netPacketFormat hPool hTime

end NetBlocks
