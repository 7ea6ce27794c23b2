import NetBlocks.Core.CallEffects
import NetBlocks.Correctness.ArmedSlots
import NetBlocks.Correctness.TimerAccounting

/-
  The calls the stack makes of `nb_timer.c`: timers are only
  removed from the active list, and only inserted when they
  are on neither list, in every run.

  Main declarations:
    * `TimerCall` and `timerCalls`
    * `Disciplined`
    * `SlotsTimed`
    * `disciplined_of_run`
    * `TimersFor`
-/

namespace NetBlocks

open TransitionSystem Except

variable {P : Type}

------------------------------------------------------------
-- Calls of the Timer Pool
------------------------------------------------------------

/-
  A call of `nb_timer.c`. The timer of a removal is `none`
  when what is passed does not point at one.
-/
inductive TimerCall where
| allocTimer
| insertTimer (t : Option TimerPtr) (timeout : BitVec 64)
    (argument : PacketPtr)
| removeTimer (t : Option TimerPtr)
| returnTimer (t : TimerPtr)
deriving DecidableEq, Repr

namespace TimerCall

/- The pool after a call. -/
def run : TimerCall → TimerPool → Except Fault TimerPool
| allocTimer, pool => .ok pool.allocTimer.2
| insertTimer t timeout argument, pool =>
    pool.insertTimer t timeout .reliableRedeliveryTimerCb
      argument
| removeTimer none, _ => .error .danglingPointer
| removeTimer (some t), pool => .ok (pool.removeTimer t)
| returnTimer t, pool => .ok (pool.returnTimer t)

/- When a call may be made. -/
def Allowed
    (pool : TimerPool) : TimerCall → Prop
| allocTimer => True
| insertTimer none _ _ => False
| insertTimer (some t) _ _ =>
    ¬ pool.IsActive t ∧ ¬ pool.IsFree t
| removeTimer none => False
| removeTimer (some t) => pool.IsActive t
| returnTimer t => ¬ pool.IsActive t ∧ ¬ pool.IsFree t

/- The pool after several calls. -/
def runAll : List TimerCall → TimerPool →
    Except Fault TimerPool
| [], pool => .ok pool
| call :: calls, pool => do
    let pool ← call.run pool
    runAll calls pool

end TimerCall

/- Each call is allowed on the pool it is made on. -/
def Disciplined : List TimerCall → TimerPool → Prop
| [], _ => True
| call :: calls, pool =>
    call.Allowed pool ∧
      ∀ pool', call.run pool = .ok pool' →
        Disciplined calls pool'

/- `reliable_module::hook_send` on the next buffer. -/
def startCalls
    (e : Endpoint P) : List TimerCall :=
  [.allocTimer,
    .insertTimer e.timers.allocTimer.1
      (e.timeNow + ReliableModule.redeliveryTimeoutMs)
      e.nextPacket]

/- `reliable_module::hook_ingress` on an ack. -/
def ackCalls
    (fmt : PacketFormat P)
    (e : Endpoint P)
    (c : ConnPtr)
    (n : BitVec 32) : List TimerCall :=
  match e.buffers c with
  | none => []
  | some b =>
      match b (slot n) with
      | none => []
      | some q =>
          match e.timerOf fmt q with
          | none => [.removeTimer none]
          | some t => [.removeTimer (some t), .returnTimer t]

/- The loop of `nb__check_timers`, with `redelivery_cb`. -/
def checkCalls
    (now : BitVec 64) :
    Nat → TimerPool → List TimerCall
| 0, _ => []
| fuel + 1, pool =>
    match pool.timersHead with
    | none => []
    | some t =>
        if (pool.allocatedTimers t).timeout ≤ now then
          let removed := pool.removeTimer t
          let insert := TimerCall.insertTimer (some t)
            (now + ReliableModule.redeliveryTimeoutMs)
            (removed.allocatedTimers t).argument
          .removeTimer (some t) :: insert ::
            match insert.run removed with
            | .error _ => []
            | .ok pool => checkCalls now fuel pool
        else
          []

/-
  The calls of `nb_timer.c` that a call of the API makes,
  with reliability enabled.
-/
def timerCalls
    (fmt : PacketFormat P)
    (cfg : Config)
    (e : Endpoint P) : Call P → List TimerCall
| .establish _ _ h a _ =>
    if ¬ IsWildcard h a ∧ cfg.signalingEnabled then
      startCalls e
    else
      []
| .send c _ =>
    match e.conns c with
    | none => []
    | some _ => startCalls e
| .ingress x _ =>
    match ackOf fmt cfg e x with
    | none => []
    | some (c, n) => ackCalls fmt e c n
| .checkTimers =>
    checkCalls e.timeNow (maxTimerAllocs + 1) e.timers
| _ => []

/- A call that needs a timer finds the pool exhausted. -/
def Exhausts
    (e : Endpoint P) : Call P → Prop
| .establish .. => e.timers.timerFreeList = none
| .send .. => e.timers.timerFreeList = none
| _ => False

------------------------------------------------------------
-- The Invariant
------------------------------------------------------------

/-
  Both lists of the pool are in order, and every timer is on
  one of them.
-/
def TimerPool.WellKept
    (pool : TimerPool) : Prop :=
  ∃ active free, pool.Represents active free ∧
    ∀ t, t ∈ active ++ free

/-
  Every packet in a redelivery buffer is in one slot only,
  and has an active timer of its own.
-/
structure SlotsTimed
    (fmt : PacketFormat P)
    (e : Endpoint P)
    (active free : List TimerPtr) : Prop where
  pool : e.timers.Represents active free
  all : ∀ t, t ∈ active ++ free
  old : ∀ c b k p, e.buffers c = some b → b k = some p →
    p < e.nextPacket
  timed : ∀ c b k p, e.buffers c = some b → b k = some p →
    ∃ t ∈ active, e.timerOf fmt p = some t ∧
      (e.timers.allocatedTimers t).argument = p
  once : ∀ c b k c' b' k' p, e.buffers c = some b →
    b k = some p → e.buffers c' = some b' →
    b' k' = some p → c = c' ∧ k = k'

section Steps

variable
    {fmt : PacketFormat P}
    {cfg : Config}
    {e e' : Endpoint P}
    {active free : List TimerPtr}
    {c : ConnPtr}
    {conn : Connection}

theorem SlotsTimed.armed
    (hSlots : SlotsTimed fmt e active free) :
    SlotsArmed fmt e active free := by
  refine ⟨hSlots.pool, hSlots.all, ?_, ?_⟩
  · rintro p ⟨c, k, b, hB, hSlot⟩
    exact hSlots.timed c b k p hB hSlot
  · rintro c k c' k' p ⟨b, hB, hSlot⟩ ⟨b', hB', hSlot'⟩
    exact hSlots.once c b k c' b' k' p hB hSlot hB' hSlot'

theorem SlotsTimed.lt_of_holds
    {p : PacketPtr}
    (hSlots : SlotsTimed fmt e active free)
    (hHolds : e.Holds p) :
    p < e.nextPacket := by
  rcases hHolds with ⟨c, k, b, hB, hSlot⟩
  exact hSlots.old c b k p hB hSlot

theorem SlotsArmed.slotsTimed
    (hSlots : SlotsArmed fmt e active free)
    (hOld : ∀ p, e.Holds p → p < e.nextPacket) :
    SlotsTimed fmt e active free where
  pool := hSlots.pool
  all := hSlots.all
  old c b k p hB hSlot := hOld p ⟨c, k, b, hB, hSlot⟩
  timed c b k p hB hSlot :=
    hSlots.timed p ⟨c, k, b, hB, hSlot⟩
  once c b k c' b' k' p hB hSlot hB' hSlot' :=
    hSlots.once c k c' k' p ⟨b, hB, hSlot⟩ ⟨b', hB', hSlot'⟩

theorem SameBooks.slotsTimed
    (hSame : SameBooks fmt e e')
    (hSlots : SlotsTimed fmt e active free) :
    SlotsTimed fmt e' active free := by
  have hHeld : ∀ d k p, e'.HoldsIn d k p →
      e.HoldsIn d k p := by
    intro d k p hHolds
    rw [Endpoint.HoldsIn, hSame.buffers] at hHolds
    exact hHolds
  refine SlotsArmed.slotsTimed (hSlots.armed.of_same
    hSame.timers hHeld (fun p hHolds => hSame.packets.timer p
      (hSlots.lt_of_holds hHolds))) ?_
  rintro p ⟨d, k, hHolds⟩
  exact Nat.lt_of_lt_of_le
    (hSlots.lt_of_holds ⟨d, k, hHeld d k p hHolds⟩)
    hSame.packets.next

/- The next buffer is new. -/
theorem SlotsTimed.not_holds
    {p : PacketPtr}
    (hSlots : SlotsTimed fmt e active free)
    (hNew : e.nextPacket ≤ p) :
    ¬ e.Holds p := by
  intro hHolds
  exact Nat.not_lt_of_le hNew (hSlots.lt_of_holds hHolds)

/- Processing a packet that is in no slot. -/
theorem SlotsTimed.processesUnheld
    {armed : PacketPtr → Prop}
    {p : PacketPtr}
    (hSlots : SlotsTimed fmt e active free)
    (hArmed : ArmedFor armed e active)
    (hUnheld : ¬ e.Holds p)
    (hIngress : IngressResult fmt cfg p e e') :
    ∃ active' free', SlotsTimed fmt e' active' free' ∧
      ArmedFor armed e' active' := by
  rcases hSlots.armed.processes hArmed hUnheld
      (fun _ => hSlots.not_holds (Nat.le_refl _)) hIngress with
    ⟨active', free', hSlots', hArmed'⟩
  refine ⟨active', free', hSlots'.slotsTimed ?_, hArmed'⟩
  rintro q ⟨d, k, hHolds⟩
  exact Nat.lt_of_lt_of_le
    (hSlots.lt_of_holds ⟨d, k, hIngress.holdsIn hHolds⟩)
    hIngress.nextPacket_le

/-
  What one call preserves. A timer that is active after it
  was active before, for the same packet, or is for the next
  buffer, which the call sent.
-/
theorem SlotsTimed.step
    {armed : PacketPtr → Prop}
    {call : Call P}
    (hSlots : SlotsTimed fmt e active free)
    (hArmed : ArmedFor armed e active)
    (hReliable : cfg.reliableEnabled = true)
    (hHosts : HostsKept e)
    (hCall : Calls fmt cfg e call e')
    (hNew : (∀ x len, call ≠ .ingress x len) →
      e.nextPacket < e'.nextPacket → armed e.nextPacket) :
    ∃ active' free', SlotsTimed fmt e' active' free' ∧
      ArmedFor armed e' active' := by
  by_cases hReceived : ∃ x len, call = .ingress x len
  · rcases hReceived with ⟨x, len, rfl⟩
    cases hCall with
    | ingress hIngress =>
        have hUnheld := hSlots.not_holds (Nat.le_refl _)
        have hSet := hSlots.armed.setPacket hUnheld x
        have hPolled : SlotsArmed fmt (e.polled x) active
            free := hSet.of_same rfl
          (fun _ _ _ hHolds => hHolds) (fun _ _ => rfl)
        have hTimed : SlotsTimed fmt (e.polled x) active
            free := hPolled.slotsTimed (fun p hHolds =>
          Nat.lt_succ_of_lt (hSlots.lt_of_holds hHolds))
        exact hTimed.processesUnheld hArmed hUnheld
          (ingress_iff.mp hIngress)
  · have hNot : ∀ x len, call ≠ .ingress x len := by
      intro x len hEq
      exact hReceived ⟨x, len, hEq⟩
    rcases hSlots.armed.step hArmed hReliable hHosts hNot
        hCall (fun hTaken => ⟨hSlots.not_holds (Nat.le_refl _),
          hNew hNot hTaken⟩) with
      ⟨active', free', hSlots', hArmed'⟩
    refine ⟨active', free', hSlots'.slotsTimed ?_, hArmed'⟩
    rintro p ⟨d, k, hHolds⟩
    rcases hCall.holdsIn hReliable hNot hHolds with
      hBefore | ⟨rfl, hTaken, -⟩
    · exact Nat.lt_of_lt_of_le
        (hSlots.lt_of_holds ⟨d, k, hBefore⟩)
        hCall.nextPacket_le
    · exact hTaken

/- Processing a packet that no timer is for. -/
theorem SlotsTimed.processes
    {armed : PacketPtr → Prop}
    {p : PacketPtr}
    (hSlots : SlotsTimed fmt e active free)
    (hArmed : ArmedFor armed e active)
    (hNot : ¬ armed p)
    (hIngress : IngressResult fmt cfg p e e') :
    ∃ active' free', SlotsTimed fmt e' active' free' ∧
      ArmedFor armed e' active' := by
  apply hSlots.processesUnheld hArmed _ hIngress
  intro hHolds
  rcases hSlots.armed.timed p hHolds with
    ⟨t, hActive, -, hArgument⟩
  exact hNot (hArgument ▸ hArmed t hActive)

------------------------------------------------------------
-- Every Call Is Allowed
------------------------------------------------------------

/- A timer is started off the free list. -/
theorem disciplined_startCalls
    (hPool : e.timers.Represents active free)
    (hFree : e.timers.timerFreeList ≠ none) :
    Disciplined (startCalls e) e.timers := by
  cases free with
  | nil => exact absurd hPool.free_chain hFree
  | cons u free =>
      rcases TimerPool.allocTimer_cons hPool with
        ⟨pool, hAlloc, hPool', hOff, -⟩
      rw [startCalls, hAlloc]
      refine ⟨trivial, ?_⟩
      intro pool' hRun
      rw [TimerCall.run, hAlloc] at hRun
      cases hRun
      rw [List.mem_append, not_or] at hOff
      refine ⟨⟨?_, ?_⟩, fun _ _ => trivial⟩
      · rw [hPool'.isActive_iff]
        exact hOff.1
      · rw [hPool'.isFree_iff]
        exact hOff.2

/- The timer of a packet in a slot is active. -/
theorem SlotsTimed.disciplined_ackCalls
    (hSlots : SlotsTimed fmt e active free)
    (c : ConnPtr)
    (n : BitVec 32) :
    Disciplined (ackCalls fmt e c n) e.timers := by
  unfold ackCalls
  split
  · trivial
  · next b hB =>
      split
      · trivial
      · next q hQ =>
          rcases hSlots.timed c b _ q hB hQ with
            ⟨t, hActive, hTimer, -⟩
          rw [hTimer]
          refine ⟨hSlots.pool.isActive_iff.mpr hActive, ?_⟩
          intro pool hRun
          cases hRun
          rcases List.append_of_mem hActive with
            ⟨xs, ys, rfl⟩
          have hRemoved :=
            TimerPool.removeTimer_represents hSlots.pool
          have hMiddle : (xs ++ t :: ys ++ free).Perm
              (t :: (xs ++ ys ++ free)) := by
            rw [List.append_assoc, List.append_assoc]
            exact List.perm_middle
          have hOff := (List.nodup_cons.mp
            (hMiddle.nodup_iff.mp hSlots.pool.nodup)).1
          rw [List.mem_append, not_or] at hOff
          refine ⟨⟨?_, ?_⟩, fun _ _ => trivial⟩
          · rw [hRemoved.isActive_iff]
            exact hOff.1
          · rw [hRemoved.isFree_iff]
            exact hOff.2

/-
  A timer that fires is the first active one, and is on
  neither list when its callback inserts it.
-/
theorem disciplined_checkCalls
    {pool : TimerPool}
    (hPool : pool.Represents active free)
    (now : BitVec 64)
    (fuel : Nat) :
    Disciplined (checkCalls now fuel pool) pool := by
  induction fuel generalizing pool active with
  | zero => trivial
  | succ fuel ih =>
      rw [checkCalls]
      split
      · trivial
      · next t hHead =>
          split
          · cases active with
            | nil =>
                cases hHead.symm.trans hPool.active_lists.1
            | cons u rest =>
                cases hHead.symm.trans hPool.active_lists.1
                have hFront : pool.Represents
                    ([] ++ t :: rest) free := hPool
                have hRemoved :=
                  TimerPool.removeTimer_represents hFront
                rw [List.nil_append] at hRemoved
                have hOff : t ∉ rest ++ free :=
                  (List.nodup_cons.mp hPool.nodup).1
                have hOff' := hOff
                rw [List.mem_append, not_or] at hOff'
                refine ⟨hPool.isActive_iff.mpr
                  (List.mem_cons_self ..), ?_⟩
                intro pool₁ hRun₁
                cases hRun₁
                refine ⟨⟨?_, ?_⟩, ?_⟩
                · rw [hRemoved.isActive_iff]
                  exact hOff'.1
                · rw [hRemoved.isFree_iff]
                  exact hOff'.2
                · intro pool₂ hRun₂
                  rw [hRun₂]
                  rcases TimerPool.insertTimer_represents
                      (now + ReliableModule.redeliveryTimeoutMs)
                      .reliableRedeliveryTimerCb
                      ((pool.removeTimer t).allocatedTimers t
                        ).argument hRemoved hOff with
                    ⟨pool₃, hInsert, hPool₃, -⟩
                  cases hRun₂.symm.trans hInsert
                  exact ih hPool₃
          · trivial

/- No call misuses a timer, unless there is none left. -/
theorem SlotsTimed.disciplined
    {call : Call P}
    (hSlots : SlotsTimed fmt e active free)
    (hTimers : ¬ Exhausts e call) :
    Disciplined (timerCalls fmt cfg e call) e.timers := by
  cases call with
  | establish c fresh h a sa =>
      rw [timerCalls]
      split
      · exact disciplined_startCalls hSlots.pool hTimers
      · trivial
  | destablish c => trivial
  | send c buff =>
      rw [timerCalls]
      split
      · trivial
      · exact disciplined_startCalls hSlots.pool hTimers
  | ingress x len =>
      rw [timerCalls]
      split
      · trivial
      · exact hSlots.disciplined_ackCalls _ _
  | checkTimers => exact disciplined_checkCalls hSlots.pool _ _
  | tick now => trivial
  | read c maxLen => trivial

------------------------------------------------------------
-- The Calls Made
------------------------------------------------------------

theorem runAll_startCalls
    {cfg : Config}
    {t : Option TimerPtr}
    {timers : TimerPool}
    (hReliable : cfg.reliableEnabled = true)
    (hStart : startTimer cfg e.timeNow e.nextPacket e.timers =
      .ok (t, timers)) :
    TimerCall.runAll (startCalls e) e.timers = .ok timers := by
  rw [startTimer, if_pos hReliable] at hStart
  rcases map_eq_ok_iff.mp hStart with ⟨timers', hInsert, hEnd⟩
  cases hEnd
  simp only [startCalls, TimerCall.runAll, TimerCall.run,
    ok_bind, hInsert]

theorem runAll_checkCalls
    {now : BitVec 64}
    {fuel : Nat}
    (hCheck : checkTimersLoop fmt now fuel e = .ok e') :
    TimerCall.runAll (checkCalls now fuel e.timers)
      e.timers = .ok e'.timers := by
  induction fuel generalizing e with
  | zero => cases hCheck
  | succ fuel ih =>
      rw [checkTimersLoop] at hCheck
      rw [checkCalls]
      cases hHead : e.timers.timersHead with
      | none =>
          rw [hHead] at hCheck
          cases hCheck
          rfl
      | some t =>
          rw [hHead] at hCheck
          dsimp only at hCheck ⊢
          split at hCheck
          · next hDue =>
              rcases bind_eq_ok_iff.mp hCheck with
                ⟨e₁, hCallback, hRest⟩
              simp only [runCallback,
                ReliableModule.redeliveryCb] at hCallback
              rcases bind_eq_ok_iff.mp hCallback with
                ⟨timers, hInsert, hEnd⟩
              cases hEnd
              have hRun : (TimerCall.insertTimer (some t)
                  (now + ReliableModule.redeliveryTimeoutMs)
                  ((e.timers.removeTimer t).allocatedTimers t
                    ).argument).run (e.timers.removeTimer t) =
                  .ok timers := hInsert
              rw [if_pos hDue, hRun, TimerCall.runAll,
                TimerCall.run, ok_bind, TimerCall.runAll, hRun,
                ok_bind]
              exact ih hRest
          · next hNot =>
              rw [if_neg hNot]
              cases hCheck
              rfl

/- The calls listed are what changes the pool. -/
theorem runAll_timerCalls
    {call : Call P}
    (hSlots : SlotsTimed fmt e active free)
    (hReliable : cfg.reliableEnabled = true)
    (hHosts : HostsKept e)
    (hCall : Calls fmt cfg e call e') :
    TimerCall.runAll (timerCalls fmt cfg e call) e.timers =
      .ok e'.timers := by
  cases hCall with
  | establish _ _ hEstablish =>
      rw [timerCalls]
      cases nbEstablish_effect hReliable hHosts hEstablish with
      | quiet hQuiet hTimers _ _ hSame =>
          rw [if_neg hQuiet, hSame.timers, hTimers]
          rfl
      | @signals e₀ _ _ _ _ _ hSignals hTimers _ _ hNext _ _ _
          hSends hSame =>
          have hSameCalls : startCalls e = startCalls e₀ := by
            rw [startCalls, startCalls, hTimers, hNext.1,
              hNext.2]
          rw [if_pos hSignals, hSame.timers, hSameCalls,
            ← hTimers]
          exact runAll_startCalls hReliable hSends.timer
  | destablish hDestablish =>
      rcases nbDestablish_ok_iff.mp hDestablish with
        ⟨conn, hConn, rfl⟩
      rfl
  | send hSend =>
      rcases nbSend_ok_iff.mp hSend with
        ⟨conn, y, x, t, timers, hConn, -, hSends, -, rfl⟩
      rw [timerCalls, hConn]
      exact runAll_startCalls hReliable hSends.timer
  | ingress hIngress =>
      rw [timerCalls]
      cases ingress_effect hReliable hIngress with
      | other hAckOf hSame =>
          rw [hAckOf, hSame.timers]
          rfl
      | duplicate hAckOf hBuffer hEmpty hSame =>
          rw [hAckOf, hSame.timers]
          simp only [ackCalls, hBuffer, hEmpty]
          rfl
      | acked hAckOf hBuffer hHeld hSame hTimer hPool =>
          have hTimerOf := hSame.packets.timer _
            (hSlots.old _ _ _ _ hBuffer hHeld)
          rw [hTimer] at hTimerOf
          rw [hAckOf, hPool, hSame.timers]
          simp only [ackCalls, hBuffer, hHeld, ← hTimerOf]
          rfl
  | checkTimers hCheck => exact runAll_checkCalls hCheck
  | tick => rfl
  | read hRead =>
      have hSame : SameBooks fmt e e' := nbRead_sameBooks hRead
      rw [hSame.timers]
      rfl

------------------------------------------------------------
-- Runs
------------------------------------------------------------

/- Slots are in order, and host ids fit. -/
def TimedInvariant
    (fmt : PacketFormat P)
    (e : Endpoint P) : Prop :=
  HostsKept e ∧
    ∃ active free, SlotsTimed fmt e active free

theorem timedInvariant_netInit
    (fresh : NetState)
    (hConns : ∀ c, e.conns c = none)
    (hHead : e.timers.timersHead = none) :
    TimedInvariant fmt (nbNetInit fresh e) := by
  have hInit : RedeliveryInvariant fmt
      (nbNetInit fresh e, []) :=
    redeliveryInvariant_netInit fresh hConns hHead
  rcases hInit with ⟨hHosts, active, free, hBooks⟩
  have hNone : ∀ c b, (nbNetInit fresh e).buffers c ≠
      some b := by
    intro c b hB
    rcases Option.map_eq_some_iff.mp hB with ⟨conn, hConn, -⟩
    rw [show (nbNetInit fresh e).conns c = none from hConns c]
      at hConn
    cases hConn
  refine ⟨hHosts, active, free, hBooks.pool, hBooks.all,
    ?_, ?_, ?_⟩
  · intro c b k p hB
    exact absurd hB (hNone c b)
  · intro c b k p hB
    exact absurd hB (hNone c b)
  · intro c b k c' b' k' p hB
    exact absurd hB (hNone c b)

theorem Calls.timedInvariant
    {call : Call P}
    (hReliable : cfg.reliableEnabled = true)
    (hInvariant : TimedInvariant fmt e)
    (hCall : Calls fmt cfg e call e') :
    TimedInvariant fmt e' := by
  rcases hInvariant with ⟨hHosts, active, free, hSlots⟩
  have hAny : ArmedFor (fun _ => True) e active :=
    fun _ _ => trivial
  rcases hSlots.step hAny hReliable hHosts hCall
      (fun _ _ => trivial) with ⟨active', free', hSlots', -⟩
  exact ⟨hCall.hostsKept hHosts, active', free', hSlots'⟩

/-
  In every run the pool is well kept, and whatever call comes
  next uses the pool as it is meant to be used.
-/
theorem disciplined_of_run
    {fresh : NetState}
    {calls : List (Call P)}
    (hReliable : cfg.reliableEnabled = true)
    (hConns : ∀ c, e.conns c = none)
    (hHead : e.timers.timersHead = none)
    (hRun : Run (Calls fmt cfg) (nbNetInit fresh e) calls
      e') :
    e'.timers.WellKept ∧
      ∀ call, ¬ Exhausts e' call →
        Disciplined (timerCalls fmt cfg e' call) e'.timers ∧
        ∀ e'', Calls fmt cfg e' call e'' →
          TimerCall.runAll (timerCalls fmt cfg e' call)
            e'.timers = .ok e''.timers := by
  have hStep : ∀ e₁ call e₂, TimedInvariant fmt e₁ →
      Calls fmt cfg e₁ call e₂ → TimedInvariant fmt e₂ :=
    fun _ _ _ hInvariant hCall =>
      hCall.timedInvariant hReliable hInvariant
  rcases hRun.invariant hStep
      (timedInvariant_netInit fresh hConns hHead) with
    ⟨hHosts, active, free, hSlots⟩
  refine ⟨⟨active, free, hSlots.pool, hSlots.all⟩, ?_⟩
  intro call hTimers
  exact ⟨hSlots.disciplined hTimers, fun _ hCall =>
    runAll_timerCalls hSlots hReliable hHosts hCall⟩

end Steps

------------------------------------------------------------
-- Timers and Packets
------------------------------------------------------------

/-
  Active timers are for packets of a set. Without reliability
  there are none.
-/
structure TimersFor
    (fmt : PacketFormat P)
    (cfg : Config)
    (armed : PacketPtr → Prop)
    (e : Endpoint P) : Prop where
  timed : cfg.reliableEnabled = true →
    ∃ active free, SlotsTimed fmt e active free ∧
      ArmedFor armed e active
  off : cfg.reliableEnabled = false →
    e.timers.timersHead = none

section Timers

variable
    {fmt : PacketFormat P}
    {cfg : Config}
    {armed armed' : PacketPtr → Prop}
    {p : PacketPtr}
    {e e' : Endpoint P}

theorem startTimer_off
    {now : BitVec 64}
    {pool timers : TimerPool}
    {t : Option TimerPtr}
    (hOff : cfg.reliableEnabled = false)
    (hStart : startTimer cfg now p pool = .ok (t, timers)) :
    timers = pool := by
  rw [startTimer, if_neg (by simp [hOff])] at hStart
  cases hStart
  rfl

theorem IngressResult.timers_of_off
    (hOff : cfg.reliableEnabled = false)
    (hIngress : IngressResult fmt cfg p e e') :
    e'.timers = e.timers := by
  cases hIngress with
  | dropped hFront => cases hFront <;> rfl
  | routed _ _ _ hBack =>
      cases hBack with
      | ack hOn => simp [hOff] at hOn
      | data _ _ hAcked _ =>
          cases hAcked with
          | off => rfl
          | sent hOn => simp [hOff] at hOn

theorem Calls.timers_of_off
    {call : Call P}
    (hOff : cfg.reliableEnabled = false)
    (hHead : e.timers.timersHead = none)
    (hCall : Calls fmt cfg e call e') :
    e'.timers = e.timers := by
  cases hCall with
  | establish _ _ hEstablish =>
      rcases nbEstablish_ok_iff.mp hEstablish with
        ⟨netState, conn', e₁, -, hSignal, rfl⟩
      cases hSignal with
      | wildcard => rfl
      | unsignaled => rfl
      | signals _ _ _ hSends =>
          exact startTimer_off hOff hSends.timer
  | destablish hDestablish =>
      rcases nbDestablish_ok_iff.mp hDestablish with
        ⟨conn, -, rfl⟩
      rfl
  | send hSend =>
      rcases nbSend_ok_iff.mp hSend with
        ⟨_, _, _, _, _, -, -, hSends, -, rfl⟩
      exact startTimer_off hOff hSends.timer
  | ingress hIngress =>
      have hSame :=
        (ingress_iff.mp hIngress).timers_of_off hOff
      exact hSame
  | checkTimers hCheck =>
      rw [NetBlocks.checkTimers, checkTimersLoop, hHead]
        at hCheck
      cases hCheck
      rfl
  | tick => rfl
  | read hRead =>
      rcases nbRead_frame hRead with ⟨_, _, _, rfl⟩
      rfl

/- A stack starts without active timers. -/
theorem timersFor_netInit
    (fresh : NetState)
    (hConns : ∀ c, e.conns c = none)
    (hHead : e.timers.timersHead = none) :
    HostsKept (nbNetInit fresh e) ∧
      TimersFor fmt cfg armed (nbNetInit fresh e) := by
  have hTimed : TimedInvariant fmt (nbNetInit fresh e) :=
    timedInvariant_netInit fresh hConns hHead
  rcases hTimed with ⟨hHosts, active, free, hSlots⟩
  have hActive : active = [] := by
    have hFirst := hSlots.pool.active_lists.1
    change e.timers.timersHead = active.head? at hFirst
    rw [hHead] at hFirst
    exact List.head?_eq_none_iff.mp hFirst.symm
  subst hActive
  refine ⟨hHosts, fun _ => ?_, fun _ => hHead⟩
  exact ⟨[], free, hSlots, fun t ht => by cases ht⟩

theorem TimersFor.mono
    (hTimers : TimersFor fmt cfg armed e)
    (hLarger : ∀ p, armed p → armed' p) :
    TimersFor fmt cfg armed' e := by
  refine ⟨?_, hTimers.off⟩
  intro hOn
  rcases hTimers.timed hOn with ⟨active, free, hSlots, hArmed⟩
  exact ⟨active, free, hSlots,
    fun t ht => hLarger _ (hArmed t ht)⟩

theorem TimersFor.of_same
    (hTimers : TimersFor fmt cfg armed e)
    (hSame : SameBooks fmt e e') :
    TimersFor fmt cfg armed e' := by
  refine ⟨?_, ?_⟩
  · intro hOn
    rcases hTimers.timed hOn with
      ⟨active, free, hSlots, hArmed⟩
    exact ⟨active, free, hSame.slotsTimed hSlots,
      hArmed.of_timers_eq hSame.timers⟩
  · intro hOff
    rw [hSame.timers]
    exact hTimers.off hOff

theorem TimersFor.step
    {call : Call P}
    (hTimers : TimersFor fmt cfg armed e)
    (hHosts : HostsKept e)
    (hCall : Calls fmt cfg e call e')
    (hNew : (∀ x len, call ≠ .ingress x len) →
      e.nextPacket < e'.nextPacket → armed e.nextPacket) :
    TimersFor fmt cfg armed e' := by
  refine ⟨?_, ?_⟩
  · intro hOn
    rcases hTimers.timed hOn with
      ⟨active, free, hSlots, hArmed⟩
    exact hSlots.step hArmed hOn hHosts hCall hNew
  · intro hOff
    rw [hCall.timers_of_off hOff (hTimers.off hOff)]
    exact hTimers.off hOff

/- The packet that is processed has no timer. -/
theorem TimersFor.processes
    (hTimers : TimersFor fmt cfg armed e)
    (hNot : ¬ armed p)
    (hIngress : IngressResult fmt cfg p e e') :
    TimersFor fmt cfg armed e' := by
  refine ⟨?_, ?_⟩
  · intro hOn
    rcases hTimers.timed hOn with
      ⟨active, free, hSlots, hArmed⟩
    exact hSlots.processes hArmed hNot hIngress
  · intro hOff
    rw [hIngress.timers_of_off hOff]
    exact hTimers.off hOff

end Timers

------------------------------------------------------------
-- A Packet in Flight
------------------------------------------------------------

/- The pool is well kept once a packet is in flight. -/
theorem disciplined_of_run_one :
    ∃ e' calls, calls ≠ [] ∧
      Run (Calls netPacketFormat reliableConfig) bareStack
        calls e' ∧
      e'.timers.WellKept ∧
        ∀ call, ¬ Exhausts e' call →
          Disciplined (timerCalls netPacketFormat
            reliableConfig e' call) e'.timers ∧
          ∀ e'', Calls netPacketFormat reliableConfig e' call
              e'' →
            TimerCall.runAll (timerCalls netPacketFormat
              reliableConfig e' call) e'.timers =
                .ok e''.timers := by
  have hTable : (do
      let e₁ ← establishReliable bareStack
      let (n, _) ← sendHi e₁
      return n) = .ok 2 := by
    decide +kernel
  rcases bind_eq_ok_iff.mp hTable with ⟨e₁, hFirst, hRest⟩
  rcases bind_eq_ok_iff.mp hRest with
    ⟨⟨n, e₂⟩, hSecond, -⟩
  have hRun : Run (Calls netPacketFormat reliableConfig)
      bareStack [.establish 1 blankConnection 9 8 7,
        .send 1 [104, 105]] e₂ :=
    .cons (records_establishReliable hFirst).1
      (.cons (records_sendHi hSecond).1 (.nil _))
  exact ⟨_, _, List.cons_ne_nil _ _, hRun,
    disciplined_of_run rfl (fun _ => rfl) rfl hRun⟩

end NetBlocks
