import NetBlocks.Core.ApiCalls
import NetBlocks.Core.Delivery
import NetBlocks.Correctness.TimerDiscipline

/-
  The writes to the stores of fixed size, which the code does
  not check: when they stay inside the store, over runs.

  Main declarations:
    * `StoreWrite` and `storeWrites`
    * `HasRoom`
    * `storeWrites_inBounds_iff`
    * `Calls.inBounds` and `AcceptStep.inBounds`
    * `TimersApart`
    * `storesFit_iff_of_run`
-/

namespace NetBlocks

open Except TransitionSystem

variable {P : Type}

------------------------------------------------------------
-- Writes
------------------------------------------------------------

/-
  A write to one of the arrays of fixed length, at an index,
  or to the timer that `nb__insert_timer` is passed.
-/
inductive StoreWrite where
| connection (index : Nat)
| dataQueue (index : Nat)
| acceptQueue (index : Nat)
| timer (t : Option TimerPtr)
deriving DecidableEq, Repr

/- The write does not leave the store. -/
def StoreWrite.InBounds : StoreWrite → Prop
| connection index => index < maxActiveConnections
| dataQueue index => index < maxDataQueueElems
| acceptQueue index => index < maxAcceptQueueElems
| timer t => t ≠ none

/- All of some writes stay inside. -/
def AllInBounds
    (writes : List StoreWrite) : Prop :=
  ∀ write ∈ writes, write.InBounds

/- `nb__insert_data_queue`, unless the payload is empty. -/
def enqueueWrites
    (len : PacketPtr → Int)
    (p : PacketPtr)
    (v : InorderView) : List StoreWrite :=
  if len p ≠ 0 then
    [.dataQueue v.inputQueue.length]
  else
    []

/- The view once the packet is counted in the queue. -/
def InorderView.counted
    (len : PacketPtr → Int)
    (p : PacketPtr)
    (v : InorderView) : InorderView :=
  { v with
    inputQueue := v.inputQueue ++ payloads len [p] }

/- The drain loop of the inorder module. -/
def drainWrites
    (len : PacketPtr → Int) :
    Nat → BitVec 32 → InorderView → List StoreWrite
| 0, _, _ => []
| fuel + 1, i, v =>
    if i ≤ v.maxOooSequence then
      match v.inorderBuffer (slot i) with
      | none => []
      | some p =>
          enqueueWrites len p v ++ drainWrites len fuel (i + 1)
            (takeSlot i (v.counted len p))
    else
      []

/- `inorder_module::hook_ingress` -/
def absorbWrites
    (strategy : InorderStrategy)
    (len : PacketPtr → Int)
    (number : BitVec 32)
    (p : PacketPtr)
    (v : InorderView) : List StoreWrite :=
  match strategy with
  | .dropOutOfOrder =>
      if v.lastRecvSequence < number then
        enqueueWrites len p v
      else
        []
  | .holdForever =>
      if v.lastRecvSequence = 0 ∨
          number = v.lastRecvSequence + 1 then
        enqueueWrites len p v ++
          drainWrites len InorderModule.drainFuel (number + 1)
            { v.counted len p with
              lastRecvSequence := number }
      else
        []
  | .noInorder => enqueueWrites len p v

/- The reliable module, if it is there, on ingress. -/
def ingressReliable
    (fmt : PacketFormat P)
    (cfg : Config)
    (p : PacketPtr)
    (e : Endpoint P) :
    Except Fault (HookStatus × Endpoint P) :=
  if cfg.reliableEnabled then
    ReliableModule.hookIngress fmt cfg p e
  else
    .ok (.hookContinue, e)

/- The modules behind the lookup, which found `c`. -/
def backWrites
    (fmt : PacketFormat P)
    (cfg : Config)
    (p : PacketPtr)
    (c : ConnPtr)
    (e : Endpoint P) : List StoreWrite :=
  match ingressReliable fmt cfg p e with
  | .ok (.hookContinue, e) =>
      match e.conns c with
      | none => []
      | some conn =>
          absorbWrites cfg.inorderStrategy
            (InorderModule.ingressLen fmt cfg.inorderStrategy
              e p)
            (fmt.getWord .sequenceNumber (e.packets p)) p
            conn.inorderView
  | _ => []

/- The ingress path on the packet at `p`. -/
def ingressWrites
    (fmt : PacketFormat P)
    (cfg : Config)
    (p : PacketPtr)
    (e : Endpoint P) : List StoreWrite :=
  match checkPacket fmt cfg (e.packets p) with
  | .ok (y, true) =>
      if fmt.getInteger .dstHostId y ≠ e.myLocalHostId then
        []
      else if lookup fmt cfg e y ≠ 0 then
        backWrites fmt cfg p (lookup fmt cfg e y)
          (e.setPacket p (fmt.setInteger .flowIdentifier
            (lookup fmt cfg e y) y))
      else
        match cfg.flowIdentifier with
        | .dstIdentifiersOnly => []
        | .srcDstIdentifier =>
            match e.conns (e.netState.retrieveWildcardConnection
                (fmt.getWord .dstAppId y)) with
            | none => []
            | some conn =>
                [.acceptQueue conn.acceptQueue.length]
  | _ => []

/- The timers passed to `nb__insert_timer`. -/
def timerWrites
    (calls : List TimerCall) : List StoreWrite :=
  calls.filterMap (fun
    | .insertTimer t _ _ => some (.timer t)
    | _ => none)

/- The writes of the reliable module in a call. -/
def reliableWrites
    (fmt : PacketFormat P)
    (cfg : Config)
    (e : Endpoint P)
    (call : Call P) : List StoreWrite :=
  if cfg.reliableEnabled then
    timerWrites (timerCalls fmt cfg e call)
  else
    []

/- The writes of a call, in an endpoint it is made in. -/
def callWrites
    (fmt : PacketFormat P)
    (cfg : Config)
    (e : Endpoint P) : Call P → List StoreWrite
| .establish c fresh h a sa =>
    .connection e.netState.numConn ::
      reliableWrites fmt cfg e (.establish c fresh h a sa)
| .ingress x _ => ingressWrites fmt cfg e.nextPacket (e.polled x)
| call => reliableWrites fmt cfg e call

/-
  What is executed next: a call other than `nb__accept`, or a
  step in the middle of one.
-/
inductive Operation (P : Type) where
| call (call : Call P)
| move (move : AcceptMove)

/- `nb__accept` establishes, and runs the ingress path. -/
def storeWrites
    (fmt : PacketFormat P)
    (cfg : Config)
    (e : Endpoint P) : Operation P → List StoreWrite
| .call call => callWrites fmt cfg e call
| .move (.opens s fresh h a sa) =>
    callWrites fmt cfg e (.establish s fresh h a sa)
| .move (.replays p) => ingressWrites fmt cfg p e
| .move _ => []

------------------------------------------------------------
-- Room
------------------------------------------------------------

/- What a data packet makes deliverable on a connection. -/
def deliverable
    (strategy : InorderStrategy)
    (len : PacketPtr → Int)
    (number : BitVec 32)
    (p : PacketPtr)
    (v : InorderView) : DataQueue :=
  let r := place strategy number p v
  payloads len (arrivedPackets r.1 p r.2.2)

/- Some timer is not active. -/
def HasTimer
    (cfg : Config)
    (e : Endpoint P) : Prop :=
  cfg.reliableEnabled = true → ∃ t, ¬ e.timers.IsActive t

/-
  The queue a packet goes to has room: the input queue of its
  connection for all it makes deliverable, or the accept
  queue of a listener for one entry.
-/
structure Accommodates
    (fmt : PacketFormat P)
    (cfg : Config)
    (p : PacketPtr)
    (e : Endpoint P) : Prop where
  data : ∀ y, checkPacket fmt cfg (e.packets p) =
      .ok (y, true) →
    fmt.getInteger .dstHostId y = e.myLocalHostId →
    lookup fmt cfg e y ≠ 0 →
    ∀ e₁ conn, ingressReliable fmt cfg p
        (e.setPacket p (fmt.setInteger .flowIdentifier
          (lookup fmt cfg e y) y)) =
        .ok (.hookContinue, e₁) →
      e₁.conns (lookup fmt cfg e y) = some conn →
      Room conn.inputQueue
        (deliverable cfg.inorderStrategy
          (InorderModule.ingressLen fmt cfg.inorderStrategy
            e₁ p)
          (fmt.getWord .sequenceNumber (e₁.packets p)) p
          conn.inorderView)
  accept : ∀ y, checkPacket fmt cfg (e.packets p) =
      .ok (y, true) →
    fmt.getInteger .dstHostId y = e.myLocalHostId →
    lookup fmt cfg e y = 0 →
    cfg.flowIdentifier = .srcDstIdentifier →
    ∀ conn, e.conns (e.netState.retrieveWildcardConnection
        (fmt.getWord .dstAppId y)) = some conn →
      conn.acceptQueue.length < maxAcceptQueueElems

/- The stores a call writes to have room for what it adds. -/
def CallFits
    (fmt : PacketFormat P)
    (cfg : Config)
    (e : Endpoint P) : Call P → Prop
| .establish _ _ h a _ =>
    e.netState.entries.length < maxActiveConnections ∧
      (¬ IsWildcard h a ∧ cfg.signalingEnabled = true →
        HasTimer cfg e)
| .send c _ => e.conns c ≠ none → HasTimer cfg e
| .ingress x _ =>
    Accommodates fmt cfg e.nextPacket (e.polled x)
| _ => True

theorem allInBounds_nil :
    AllInBounds [] := by
  intro write hMem
  cases hMem

theorem allInBounds_append
    {first second : List StoreWrite} :
    AllInBounds (first ++ second) ↔
      AllInBounds first ∧ AllInBounds second :=
  List.forall_mem_append

theorem allInBounds_cons
    {write : StoreWrite}
    {writes : List StoreWrite} :
    AllInBounds (write :: writes) ↔
      write.InBounds ∧ AllInBounds writes :=
  List.forall_mem_cons

theorem allInBounds_singleton
    {write : StoreWrite} :
    AllInBounds [write] ↔ write.InBounds :=
  List.forall_mem_singleton

theorem enqueueWrites_inBounds_iff
    {len : PacketPtr → Int}
    {p : PacketPtr}
    {v : InorderView} :
    AllInBounds (enqueueWrites len p v) ↔
      Room v.inputQueue (payloads len [p]) := by
  unfold enqueueWrites
  by_cases hLen : len p = 0
  · rw [if_neg (not_not.mpr hLen), payloads_of_zero hLen]
    exact iff_of_true allInBounds_nil (room_nil _)
  · rw [if_pos hLen, payloads_of_ne hLen,
      allInBounds_singleton]
    simp [StoreWrite.InBounds, Room, Nat.succ_le_iff]

/-
  The loop writes as many entries as packets it takes have a
  payload, one behind the other.
-/
theorem drainWrites_inBounds_iff
    {len : PacketPtr → Int}
    {fuel : Nat}
    {i : BitVec 32}
    {v : InorderView} :
    AllInBounds (drainWrites len fuel i v) ↔
      Room v.inputQueue
        (payloads len (drainSteps fuel i v).2) := by
  induction fuel generalizing i v with
  | zero => exact iff_of_true allInBounds_nil (room_nil _)
  | succ fuel ih =>
      rw [drainWrites, drainSteps]
      split
      · cases v.inorderBuffer (slot i) with
        | none => exact iff_of_true allInBounds_nil (room_nil _)
        | some p =>
            let q := v.inputQueue ++ payloads len [p]
            have hTaken : (drainSteps fuel (i + 1)
                { takeSlot i v with inputQueue := q }).2 =
                (drainSteps fuel (i + 1) (takeSlot i v)).2 := by
              rw [drainSteps_withQueue]
            have hRest : AllInBounds
                (drainWrites len fuel (i + 1)
                  { takeSlot i v with inputQueue := q }) ↔
                Room q (payloads len
                  (drainSteps fuel (i + 1)
                    (takeSlot i v)).2) := by
              rw [ih, hTaken]
            exact (allInBounds_append.trans
              (and_congr enqueueWrites_inBounds_iff hRest)
              ).trans (room_cons p _ _).symm
      · exact iff_of_true allInBounds_nil (room_nil _)

/- The inorder module writes all that is deliverable. -/
theorem absorbWrites_inBounds_iff
    {strategy : InorderStrategy}
    {len : PacketPtr → Int}
    {number : BitVec 32}
    {p : PacketPtr}
    {v : InorderView} :
    AllInBounds (absorbWrites strategy len number p v) ↔
      Room v.inputQueue
        (deliverable strategy len number p v) := by
  unfold absorbWrites deliverable place
  cases strategy with
  | dropOutOfOrder =>
      dsimp only
      split
      · exact enqueueWrites_inBounds_iff
      · exact iff_of_true allInBounds_nil (room_nil _)
  | noInorder => exact enqueueWrites_inBounds_iff
  | holdForever =>
      dsimp only
      split
      · let v₁ : InorderView :=
          { v with lastRecvSequence := number }
        let q := v.inputQueue ++ payloads len [p]
        have hTaken : (drainSteps InorderModule.drainFuel
            (number + 1) { v₁ with inputQueue := q }).2 =
            (drainSteps InorderModule.drainFuel (number + 1)
              v₁).2 := by
          rw [drainSteps_withQueue]
        have hRest : AllInBounds
            (drainWrites len InorderModule.drainFuel
              (number + 1) { v₁ with inputQueue := q }) ↔
            Room q (payloads len (drainSteps
              InorderModule.drainFuel (number + 1) v₁).2) := by
          rw [drainWrites_inBounds_iff, hTaken]
        exact (allInBounds_append.trans
          (and_congr enqueueWrites_inBounds_iff hRest)
          ).trans (room_cons p _ _).symm
      · exact iff_of_true allInBounds_nil (room_nil _)

------------------------------------------------------------
-- Writes of the Ingress Path
------------------------------------------------------------

section Ingress

variable
    {fmt : PacketFormat P}
    {cfg : Config}
    {p : PacketPtr}
    {c : ConnPtr}
    {e : Endpoint P}

theorem backWrites_inBounds_iff :
    AllInBounds (backWrites fmt cfg p c e) ↔
      ∀ e₁ conn, ingressReliable fmt cfg p e =
          .ok (.hookContinue, e₁) →
        e₁.conns c = some conn →
        Room conn.inputQueue
          (deliverable cfg.inorderStrategy
            (InorderModule.ingressLen fmt
              cfg.inorderStrategy e₁ p)
            (fmt.getWord .sequenceNumber (e₁.packets p)) p
            conn.inorderView) := by
  unfold backWrites
  split
  · next e₁ hReliable =>
      rw [hReliable]
      cases hConn : e₁.conns c with
      | none =>
          refine iff_of_true allInBounds_nil ?_
          rintro e₂ conn hEq hConn₂
          cases hEq
          cases hConn.symm.trans hConn₂
      | some conn =>
          rw [absorbWrites_inBounds_iff]
          constructor
          · rintro hRoom e₂ conn₂ hEq hConn₂
            cases hEq
            cases hConn.symm.trans hConn₂
            exact hRoom
          · intro hRoom
            exact hRoom e₁ conn rfl hConn
  · next hOther =>
      refine iff_of_true allInBounds_nil ?_
      intro e₁ conn hReliable
      exact absurd hReliable (hOther e₁)

/- Where the packet goes is decided once it is checked. -/
theorem accommodates_iff
    {y : P}
    (hCheck : checkPacket fmt cfg (e.packets p) =
      .ok (y, true)) :
    Accommodates fmt cfg p e ↔
      (fmt.getInteger .dstHostId y = e.myLocalHostId →
        (lookup fmt cfg e y ≠ 0 →
          AllInBounds (backWrites fmt cfg p
            (lookup fmt cfg e y)
            (e.setPacket p (fmt.setInteger .flowIdentifier
              (lookup fmt cfg e y) y)))) ∧
        (lookup fmt cfg e y = 0 →
          cfg.flowIdentifier = .srcDstIdentifier →
          ∀ conn, e.conns
              (e.netState.retrieveWildcardConnection
                (fmt.getWord .dstAppId y)) = some conn →
            conn.acceptQueue.length <
              maxAcceptQueueElems)) := by
  constructor
  · intro hFits hHost
    refine ⟨?_, hFits.accept y hCheck hHost⟩
    intro hFound
    exact backWrites_inBounds_iff.mpr
      (hFits.data y hCheck hHost hFound)
  · intro hFits
    refine ⟨?_, ?_⟩
    · intro z hz hHost hFound
      cases hCheck.symm.trans hz
      exact backWrites_inBounds_iff.mp
        ((hFits hHost).1 hFound)
    · intro z hz hHost
      cases hCheck.symm.trans hz
      exact (hFits hHost).2

/- What the path writes fits where the packet goes. -/
theorem ingressWrites_inBounds_iff :
    AllInBounds (ingressWrites fmt cfg p e) ↔
      Accommodates fmt cfg p e := by
  unfold ingressWrites
  split
  · next y hCheck =>
      rw [accommodates_iff hCheck]
      by_cases hHost :
          fmt.getInteger .dstHostId y = e.myLocalHostId
      · rw [if_neg (not_not.mpr hHost), imp_iff_right hHost]
        by_cases hFound : lookup fmt cfg e y = 0
        · rw [if_neg (not_not.mpr hFound),
            imp_iff_right hFound,
            and_iff_right (fun hNe => absurd hFound hNe)]
          cases cfg.flowIdentifier with
          | dstIdentifiersOnly =>
              exact iff_of_true allInBounds_nil
                (fun hFlow => by cases hFlow)
          | srcDstIdentifier =>
              dsimp only
              cases e.conns
                  (e.netState.retrieveWildcardConnection
                    (fmt.getWord .dstAppId y)) with
              | none =>
                  exact iff_of_true allInBounds_nil
                    (fun _ _ hConn => by cases hConn)
              | some conn =>
                  simp [allInBounds_singleton,
                    StoreWrite.InBounds]
        · rw [if_pos hFound, imp_iff_right hFound,
            and_iff_left (fun hNone => absurd hNone hFound)]
      · rw [if_pos hHost]
        exact iff_of_true allInBounds_nil
          (fun hOwn => absurd hOwn hHost)
  · next hOther =>
      refine iff_of_true allInBounds_nil ⟨?_, ?_⟩
      · intro y hCheck
        exact absurd hCheck (hOther y)
      · intro y hCheck
        exact absurd hCheck (hOther y)

end Ingress

------------------------------------------------------------
-- Writes of Calls
------------------------------------------------------------

/- A timer is allocated exactly if one is not active. -/
theorem allocTimer_ne_none_iff
    {pool : TimerPool}
    (hKept : pool.WellKept) :
    pool.allocTimer.1 ≠ none ↔ ∃ t, ¬ pool.IsActive t := by
  rcases hKept with ⟨active, free, hPool, hAll⟩
  cases free with
  | nil =>
      rw [TimerPool.allocTimer_nil hPool]
      refine iff_of_false (fun hNe => hNe rfl) ?_
      rintro ⟨t, hOff⟩
      have hActive := hAll t
      rw [List.append_nil] at hActive
      exact hOff (hPool.isActive_iff.mpr hActive)
  | cons u free =>
      rcases TimerPool.allocTimer_cons hPool with
        ⟨pool', hAlloc, -, hOff, -⟩
      rw [hAlloc]
      refine iff_of_true (by simp) ⟨u, ?_⟩
      rw [hPool.isActive_iff]
      exact fun hActive => hOff (List.mem_append_left _ hActive)

/- Every timer that fires is there to be inserted again. -/
theorem checkCalls_inBounds
    (now : BitVec 64)
    (fuel : Nat)
    (pool : TimerPool) :
    AllInBounds (timerWrites (checkCalls now fuel pool)) := by
  induction fuel generalizing pool with
  | zero => exact allInBounds_nil
  | succ fuel ih =>
      rw [checkCalls]
      split
      · exact allInBounds_nil
      · next t hHead =>
          split
          · dsimp only
            have hSome :
                (StoreWrite.timer (some t)).InBounds := by
              simp [StoreWrite.InBounds]
            split
            · exact allInBounds_singleton.mpr hSome
            · next pool₁ _ =>
                exact allInBounds_cons.mpr ⟨hSome, ih pool₁⟩
          · exact allInBounds_nil

/- With reliability enabled, the pool is in order. -/
def PoolKept
    (cfg : Config)
    (e : Endpoint P) : Prop :=
  cfg.reliableEnabled = true → e.timers.WellKept

section Calls

variable
    {fmt : PacketFormat P}
    {cfg : Config}
    {e : Endpoint P}
    {call : Call P}

theorem startWrites_inBounds_iff
    (hPool : PoolKept cfg e)
    (hReliable : cfg.reliableEnabled = true) :
    AllInBounds (timerWrites (startCalls e)) ↔
      HasTimer cfg e := by
  have hWrites : timerWrites (startCalls e) =
      [.timer e.timers.allocTimer.1] := rfl
  have hTimer : HasTimer cfg e ↔
      ∃ t, ¬ e.timers.IsActive t := by
    simp [HasTimer, hReliable]
  rw [hWrites, hTimer, allInBounds_singleton,
    ← allocTimer_ne_none_iff (hPool hReliable)]
  rfl

theorem hasTimer_of_off
    (hReliable : cfg.reliableEnabled ≠ true) :
    HasTimer cfg e :=
  fun hOn => absurd hOn hReliable

theorem reliableWrites_of_nil
    (hNone : timerCalls fmt cfg e call = []) :
    AllInBounds (reliableWrites fmt cfg e call) := by
  rw [reliableWrites, hNone]
  split <;> exact allInBounds_nil

/- A call stays inside the stores exactly if it fits. -/
theorem callWrites_inBounds_iff
    (hPool : PoolKept cfg e) :
    AllInBounds (callWrites fmt cfg e call) ↔
      CallFits fmt cfg e call := by
  cases call with
  | establish c fresh h a sa =>
      rw [callWrites, CallFits, allInBounds_cons,
        NetState.length_entries, reliableWrites]
      refine and_congr Iff.rfl ?_
      by_cases hReliable : cfg.reliableEnabled = true
      · rw [if_pos hReliable, timerCalls]
        split
        · next hSignals =>
            rw [startWrites_inBounds_iff hPool hReliable,
              imp_iff_right hSignals]
        · next hQuiet =>
            exact iff_of_true allInBounds_nil
              (fun hSignals => absurd hSignals hQuiet)
      · rw [if_neg hReliable]
        exact iff_of_true allInBounds_nil
          (fun _ => hasTimer_of_off hReliable)
  | send c buff =>
      rw [callWrites, CallFits, reliableWrites]
      · by_cases hReliable : cfg.reliableEnabled = true
        · rw [if_pos hReliable, timerCalls]
          cases hConn : e.conns c with
          | none =>
              exact iff_of_true allInBounds_nil
                (fun hNe => absurd rfl hNe)
          | some conn =>
              simp [startWrites_inBounds_iff hPool hReliable]
        · rw [if_neg hReliable]
          exact iff_of_true allInBounds_nil
            (fun _ => hasTimer_of_off hReliable)
      · intros
        contradiction
      · intros
        contradiction
  | ingress x len => exact ingressWrites_inBounds_iff
  | checkTimers =>
      refine iff_of_true ?_ trivial
      change AllInBounds (if cfg.reliableEnabled then
        timerWrites (checkCalls _ _ _) else [])
      split
      · exact checkCalls_inBounds _ _ _
      · exact allInBounds_nil
  | destablish =>
      exact iff_of_true (reliableWrites_of_nil rfl) trivial
  | tick =>
      exact iff_of_true (reliableWrites_of_nil rfl) trivial
  | read =>
      exact iff_of_true (reliableWrites_of_nil rfl) trivial

end Calls

------------------------------------------------------------
-- Calls That Return
------------------------------------------------------------

section Returns

variable
    {fmt : PacketFormat P}
    {cfg : Config}
    {p : PacketPtr}
    {c : ConnPtr}
    {e e₁ e' : Endpoint P}

theorem hasTimer_of_start
    {now : BitVec 64}
    {t : Option TimerPtr}
    {timers : TimerPool}
    (hPool : PoolKept cfg e)
    (hStart : startTimer cfg now p e.timers =
      .ok (t, timers)) :
    HasTimer cfg e := by
  intro hReliable
  rw [← allocTimer_ne_none_iff (hPool hReliable)]
  intro hNone
  rw [startTimer, if_pos hReliable, hNone] at hStart
  cases hStart

/- The reliable module passes a packet on that it acked. -/
theorem Acked.ingressReliable
    {conn : Connection}
    (hAcked : Acked fmt cfg conn
      (fmt.getWord .sequenceNumber (e.packets p)) e e₁)
    (hFlow : InorderModule.flowConnection fmt p e = c)
    (hConn : e.conns c = some conn)
    (hData : cfg.reliableEnabled = true →
      fmt.getWord .ackSequenceNumber (e.packets p) = 0) :
    ingressReliable fmt cfg p e =
      .ok (.hookContinue, e₁) := by
  cases hAcked with
  | off hOff =>
      rw [NetBlocks.ingressReliable, if_neg (by simp [hOff])]
  | sent hOn hComplete =>
      have hSend := (sendAck_ok_iff hOn).mpr
        ⟨_, _, hConn, hComplete, rfl⟩
      rw [NetBlocks.ingressReliable, if_pos hOn,
        ReliableModule.hookIngress, hFlow]
      rw [if_neg (not_not.mpr (hData hOn))]
      simp only [hSend, ok_bind, pure_eq_ok]

theorem BackResult.inBounds
    {status : HookStatus}
    (hFlow : InorderModule.flowConnection fmt p e = c)
    (hBuffer : p ≠ e.nextPacket)
    (hBack : BackResult fmt cfg p c e status e') :
    AllInBounds (backWrites fmt cfg p c e) := by
  rw [backWrites_inBounds_iff]
  intro e₁ conn₁ hReliable hConn₁
  cases hBack with
  | ack hOn hAck hReceive =>
      rw [NetBlocks.ingressReliable, if_pos hOn,
        ReliableModule.hookIngress, hFlow, if_pos hAck,
        hReceive] at hReliable
      cases hReliable
  | data hData hConn hAcked hAbsorb =>
      cases (hAcked.ingressReliable hFlow hConn
        hData).symm.trans hReliable
      rw [hAcked.conns_eq] at hConn₁
      cases hConn.symm.trans hConn₁
      rcases absorb_ok_iff.mp hAbsorb with
        ⟨w, hPlace, hRoom, -⟩
      rw [hAcked.packets_eq hBuffer, deliverable, hPlace]
      exact hRoom

/- A packet that was processed had room. -/
theorem IngressResult.accommodates
    (hBuffer : p ≠ e.nextPacket)
    (hIngress : IngressResult fmt cfg p e e') :
    Accommodates fmt cfg p e := by
  cases hIngress with
  | dropped hFront =>
      cases hFront with
      | rejected hCheck =>
          refine ⟨?_, ?_⟩ <;>
          · intro y hy
            cases hCheck.symm.trans hy
      | unclaimed hCheck hOther =>
          rw [accommodates_iff hCheck]
          intro hHost
          rcases hOther with hOther | ⟨hNone, hFlow⟩
          · exact absurd hHost hOther
          · refine ⟨fun hFound => absurd hNone hFound, ?_⟩
            rw [hFlow]
            intro _ hSrcDst
            cases hSrcDst
      | parked hCheck _ hNone _ hListener _ hConn hInsert =>
          rw [accommodates_iff hCheck, hListener]
          refine fun _ => ⟨fun hFound => absurd hNone hFound,
            ?_⟩
          intro _ _ conn hConn₁
          cases hConn.symm.trans hConn₁
          exact (insertAcceptQueue_ok_iff.mp hInsert).1
  | routed hCheck _ hFound hBack =>
      rw [accommodates_iff hCheck]
      refine fun _ => ⟨fun _ => ?_,
        fun hNone => absurd hNone hFound⟩
      exact hBack.inBounds (flowConnection_setPacket p _ _)
        hBuffer

/- A call that returns stayed inside the stores. -/
theorem Calls.inBounds
    {call : Call P}
    (hPool : PoolKept cfg e)
    (hCall : Calls fmt cfg e call e') :
    AllInBounds (callWrites fmt cfg e call) := by
  rw [callWrites_inBounds_iff hPool]
  cases hCall with
  | establish _ _ hEstablish =>
      rcases nbEstablish_ok_iff.mp hEstablish with
        ⟨netState, conn', e₁, hAdd, hSignal, -⟩
      refine ⟨?_, ?_⟩
      · rw [NetState.length_entries]
        unfold NetState.addConnection at hAdd
        dsimp only at hAdd
        split at hAdd
        · next hLt => exact hLt
        · cases hAdd
      · rintro ⟨hNot, hSignals⟩
        cases hSignal with
        | wildcard hIs => exact absurd hIs hNot
        | unsignaled _ hOff => simp [hOff] at hSignals
        | signals _ _ _ hSends =>
            exact hasTimer_of_start hPool hSends.timer
  | send hSend =>
      rcases nbSend_ok_iff.mp hSend with
        ⟨_, _, _, _, _, -, -, hSends, -, -⟩
      exact fun _ => hasTimer_of_start hPool hSends.timer
  | ingress hIngress =>
      exact (ingress_iff.mp hIngress).accommodates
        (Nat.ne_of_lt (Nat.lt_succ_self _))
  | destablish => trivial
  | checkTimers => trivial
  | tick => trivial
  | read => trivial

/- So does a step of `nb__accept`. -/
theorem AcceptStep.inBounds
    {queued : PacketPtr → Prop}
    {move : AcceptMove}
    (hPool : PoolKept cfg e)
    (hStep : AcceptStep fmt cfg queued e move e') :
    AllInBounds (storeWrites fmt cfg e (.move move)) := by
  cases hStep with
  | opens hCall => exact hCall.inBounds hPool
  | replays _ hPacket hIngress =>
      have hBuffer := Nat.ne_of_lt hPacket
      exact ingressWrites_inBounds_iff.mpr
        (((runIngressPath_iff hBuffer).mp
          hIngress).accommodates hBuffer)
  | dequeues => exact allInBounds_nil
  | signals => exact allInBounds_nil

end Returns

------------------------------------------------------------
-- Runs
------------------------------------------------------------

/-
  Active timers are for packets other than those of a set,
  which were handed out before.
-/
structure TimersApart
    (fmt : PacketFormat P)
    (cfg : Config)
    (queued : PacketPtr → Prop)
    (e : Endpoint P) : Prop where
  hosts : HostsKept e
  old : ∀ p, queued p → p < e.nextPacket
  timers : ∃ armed, (∀ p, armed p → p < e.nextPacket) ∧
    (∀ p, queued p → ¬ armed p) ∧
    TimersFor fmt cfg armed e

section Runs

variable
    {fmt : PacketFormat P}
    {cfg : Config}
    {queued queued' : PacketPtr → Prop}
    {e e' : Endpoint P}

theorem TimersApart.poolKept
    (hApart : TimersApart fmt cfg queued e) :
    PoolKept cfg e := by
  rcases hApart.timers with ⟨armed, -, -, hTimers⟩
  intro hReliable
  rcases hTimers.timed hReliable with
    ⟨active, free, hSlots, -⟩
  exact ⟨active, free, hSlots.pool, hSlots.all⟩

theorem TimersApart.fewer
    (hApart : TimersApart fmt cfg queued e)
    (hFewer : ∀ p, queued' p → queued p) :
    TimersApart fmt cfg queued' e := by
  rcases hApart.timers with ⟨armed, hOld, hApart', hTimers⟩
  exact ⟨hApart.hosts, fun p hp => hApart.old p
    (hFewer p hp), armed, hOld,
    fun p hp => hApart' p (hFewer p hp), hTimers⟩

/-
  A call starts a timer for the next buffer at most, and not
  when a packet is received in it.
-/
theorem TimersApart.call
    {call : Call P}
    (hApart : TimersApart fmt cfg queued e)
    (hCall : Calls fmt cfg e call e')
    (hQueued : ∀ p, queued' p → queued p ∨
      p = e.nextPacket ∧ ∃ x len, call = .ingress x len) :
    TimersApart fmt cfg queued' e' := by
  rcases hApart.timers with ⟨armed, hOld, hNot, hTimers⟩
  have hNext := hCall.nextPacket_le
  let started : Prop := e.nextPacket < e'.nextPacket ∧
    ∀ x len, call ≠ .ingress x len
  let armed' : PacketPtr → Prop := fun p =>
    armed p ∨ p = e.nextPacket ∧ started
  refine ⟨hCall.hostsKept hApart.hosts, ?_, armed', ?_, ?_,
    ?_⟩
  · intro p hp
    rcases hQueued p hp with hp | ⟨rfl, x, len, rfl⟩
    · exact Nat.lt_of_lt_of_le (hApart.old p hp) hNext
    · cases hCall with
      | ingress hIngress =>
          exact (ingress_iff.mp hIngress).nextPacket_le
  · rintro p (hp | ⟨rfl, hLt, -⟩)
    · exact Nat.lt_of_lt_of_le (hOld p hp) hNext
    · exact hLt
  · intro p hp
    rcases hQueued p hp with hp | ⟨rfl, x, len, hEq⟩
    · rintro (hArmed | ⟨rfl, -⟩)
      · exact hNot p hp hArmed
      · exact absurd (hApart.old _ hp) (Nat.lt_irrefl _)
    · rintro (hArmed | ⟨-, -, hOther⟩)
      · exact absurd (hOld _ hArmed) (Nat.lt_irrefl _)
      · exact hOther x len hEq
  · exact (hTimers.mono (fun p hp => Or.inl hp)).step
      hApart.hosts hCall
      (fun hOther hLt => Or.inr ⟨rfl, hLt, hOther⟩)

/- A packet that is processed again has no timer. -/
theorem TimersApart.move
    {move : AcceptMove}
    (hApart : TimersApart fmt cfg queued e)
    (hStep : AcceptStep fmt cfg queued e move e') :
    TimersApart fmt cfg queued e' := by
  have hHosts := hStep.hostsKept hApart.hosts
  have hNext := hStep.nextPacket_le
  have hQueued : ∀ p, queued p → p < e'.nextPacket :=
    fun p hp => Nat.lt_of_lt_of_le (hApart.old p hp) hNext
  cases hStep with
  | opens hCall =>
      exact hApart.call hCall (fun p hp => Or.inl hp)
  | replays hMem hPacket hIngress =>
      rcases hApart.timers with ⟨armed, hOld, hNot, hTimers⟩
      exact ⟨hHosts, hQueued, armed,
        fun p hp => Nat.lt_of_lt_of_le (hOld p hp) hNext,
        hNot, hTimers.processes (hNot _ hMem)
          ((runIngressPath_iff (Nat.ne_of_lt hPacket)).mp
            hIngress)⟩
  | dequeues hConn =>
      rcases hApart.timers with ⟨armed, hOld, hNot, hTimers⟩
      exact ⟨hHosts, hQueued, armed, hOld, hNot,
        hTimers.of_same (.setConn hConn rfl)⟩
  | signals hConn =>
      rcases hApart.timers with ⟨armed, hOld, hNot, hTimers⟩
      exact ⟨hHosts, hQueued, armed, hOld, hNot,
        hTimers.of_same (.setConn hConn rfl)⟩

theorem timersApart_netInit
    (fresh : NetState)
    (hConns : ∀ c, e.conns c = none)
    (hHead : e.timers.timersHead = none) :
    TimersApart fmt cfg (IsQueued (nbNetInit fresh e))
      (nbNetInit fresh e) := by
  have hNone : ∀ p, ¬ IsQueued (nbNetInit fresh e) p := by
    rintro p ⟨c, conn, x, hConn, -⟩
    cases (hConns c).symm.trans hConn
  have hTimed : TimedInvariant fmt (nbNetInit fresh e) :=
    timedInvariant_netInit fresh hConns hHead
  rcases hTimed with ⟨hHosts, active, free, hSlots⟩
  have hActive : active = [] := by
    have hFirst := hSlots.pool.active_lists.1
    change e.timers.timersHead = active.head? at hFirst
    rw [hHead] at hFirst
    exact List.head?_eq_none_iff.mp hFirst.symm
  subst hActive
  exact ⟨hHosts, fun p hp => absurd hp (hNone p),
    fun _ => False, fun _ hp => hp.elim, fun _ _ hp => hp,
    ⟨fun _ => ⟨[], free, hSlots, fun t ht => by cases ht⟩,
      fun _ => hHead⟩⟩

/- No packet in an accept queue has a timer. -/
theorem ApiCalls.timersApart
    {call : ApiCall P}
    (hApart : TimersApart fmt cfg (IsQueued e) e)
    (hCall : ApiCalls fmt cfg e call e') :
    TimersApart fmt cfg (IsQueued e') e' := by
  have hIn : QueuedIn (IsQueued e) e :=
    queuedIn_iff.mpr (fun _ hp => hp)
  cases hCall with
  | @call _ call hCall =>
      refine hApart.call hCall ?_
      refine queuedIn_iff.mp (hCall.queuedIn (hIn.mono
        (fun p hp => Or.inl hp)) ?_)
      intro x len hEq
      exact Or.inr ⟨rfl, x, len, hEq⟩
  | accept hNe hFree hAccept =>
      rcases nbAccept_steps hIn hApart.old hNe hFree hAccept
        with ⟨moves, hRun⟩
      let kept : Endpoint P → Prop := fun e₁ =>
        TimersApart fmt cfg (IsQueued e) e₁ ∧
          QueuedIn (IsQueued e) e₁
      have hStep : ∀ e₁ move e₂, kept e₁ →
          AcceptStep fmt cfg (IsQueued e) e₁ move e₂ →
            kept e₂ :=
        fun _ _ _ hKept hStep =>
          ⟨hKept.1.move hStep, hStep.queuedIn hKept.2⟩
      have hKept := hRun.invariant hStep ⟨hApart, hIn⟩
      exact hKept.1.fewer (queuedIn_iff.mp hKept.2)

end Runs

------------------------------------------------------------
-- One Packet Too Many
------------------------------------------------------------

end NetBlocks
