import NetBlocks.Correctness.TimerDiscipline

/-
  What a packet received leaves alone: all connections but
  the one it is for, and the timers of what they sent.

  Main declarations:
    * `DroppedEarly` and `destination`
    * `Endpoint.timersOf`
    * `Tracks`
    * `IngressResult.timersOf`
    * `isolates_of_run`
-/

namespace NetBlocks

open TransitionSystem Except

variable {P : Type}

------------------------------------------------------------
-- Where a Packet Goes
------------------------------------------------------------

/-
  The packet `x` is dropped by the checksum module, or by the
  identifier module for its `dst_host_id`.
-/
def DroppedEarly
    (fmt : PacketFormat P)
    (cfg : Config)
    (e : Endpoint P)
    (x : P) : Prop :=
  ∃ y passes, checkPacket fmt cfg x = .ok (y, passes) ∧
    (passes = false ∨
      fmt.getInteger .dstHostId y ≠ e.myLocalHostId)

/-
  The connection that the packet `x` is routed to, or the
  listener whose accept queue it is put into.
-/
def destination
    (fmt : PacketFormat P)
    (cfg : Config)
    (e : Endpoint P)
    (x : P) : Option ConnPtr :=
  match checkPacket fmt cfg x with
  | .error _ => none
  | .ok (_, false) => none
  | .ok (y, true) =>
      if fmt.getInteger .dstHostId y ≠ e.myLocalHostId then
        none
      else if lookup fmt cfg e y ≠ 0 then
        some (lookup fmt cfg e y)
      else
        match cfg.flowIdentifier with
        | .dstIdentifiersOnly => none
        | .srcDstIdentifier =>
            some (e.netState.retrieveWildcardConnection
              (fmt.getWord .dstAppId y))

section Destination

variable
    {fmt : PacketFormat P}
    {cfg : Config}
    {e : Endpoint P}
    {x y : P}

theorem destination_routed
    (hCheck : checkPacket fmt cfg x = .ok (y, true))
    (hHost : fmt.getInteger .dstHostId y = e.myLocalHostId)
    (hFound : lookup fmt cfg e y ≠ 0) :
    destination fmt cfg e x = some (lookup fmt cfg e y) := by
  simp only [destination, hCheck]
  rw [if_neg (not_not.mpr hHost), if_pos hFound]

theorem destination_parked
    (hCheck : checkPacket fmt cfg x = .ok (y, true))
    (hHost : fmt.getInteger .dstHostId y = e.myLocalHostId)
    (hNone : lookup fmt cfg e y = 0)
    (hFlow : cfg.flowIdentifier = .srcDstIdentifier) :
    destination fmt cfg e x =
      some (e.netState.retrieveWildcardConnection
        (fmt.getWord .dstAppId y)) := by
  simp only [destination, hCheck]
  rw [if_neg (not_not.mpr hHost), if_neg (not_not.mpr hNone),
    hFlow]

end Destination

------------------------------------------------------------
-- Timers of a Packet
------------------------------------------------------------

/- The active timers for a packet, with their timeouts. -/
def Endpoint.timersOf
    (e : Endpoint P)
    (p : PacketPtr) : Set (TimerPtr × BitVec 64) :=
  {u | e.timers.IsActive u.1 ∧
    (e.timers.allocatedTimers u.1).argument = p ∧
    (e.timers.allocatedTimers u.1).timeout = u.2}

section Timers

variable
    {fmt : PacketFormat P}
    {cfg : Config}
    {e e' : Endpoint P}
    {active free : List TimerPtr}
    {c : ConnPtr}
    {p q : PacketPtr}

theorem timersOf_congr
    (hTimers : e'.timers = e.timers) :
    e'.timersOf q = e.timersOf q := by
  rw [Endpoint.timersOf, hTimers, Endpoint.timersOf]

/- Stopping a timer leaves the timers of others alone. -/
theorem timersOf_removeTimer
    {active' free' : List TimerPtr}
    {t : TimerPtr}
    (hPool : e.timers.Represents active free)
    (hPool' : e'.timers.Represents active' free')
    (hOthers : ∀ u, u ∈ active' ↔ u ∈ active ∧ u ≠ t)
    (hTimers : e'.timers =
      (e.timers.removeTimer t).returnTimer t)
    (hArgument : (e.timers.allocatedTimers t).argument ≠ q) :
    e'.timersOf q = e.timersOf q := by
  have hLoad : ∀ u, u ≠ t →
      e'.timers.load u = e.timers.load u := by
    intro u hNe
    rw [hTimers, TimerPool.load_returnTimer,
      TimerPool.load_removeTimer_of_ne _ hNe]
  ext ⟨u, timeout⟩
  simp only [Endpoint.timersOf, Set.mem_ofPred_eq,
    hPool.isActive_iff, hPool'.isActive_iff, hOthers]
  by_cases hEq : u = t
  · subst hEq
    constructor
    · rintro ⟨⟨-, hNe⟩, -⟩
      exact absurd rfl hNe
    · rintro ⟨-, hArg, -⟩
      exact absurd hArg hArgument
  · rw [TimerPool.argument_eq_of_load_eq (hLoad u hEq),
      TimerPool.timeout_eq_of_load_eq (hLoad u hEq)]
    tauto

/- The modules behind the lookup stop timers of `c` only. -/
theorem BackResult.timersOf
    {status : HookStatus}
    (hSlots : SlotsArmed fmt e active free)
    (hBack : BackResult fmt cfg p c e status e')
    (hNot : ∀ k, ¬ e.HoldsIn c k q) :
    e'.timersOf q = e.timersOf q := by
  cases hBack with
  | ack _ _ hReceive =>
      rcases receiveAck_ok_iff.mp hReceive with
        ⟨conn, hConn, ⟨-, rfl⟩ | ⟨r, t, hOwn, hTimer, rfl⟩⟩
      · rfl
      · have hSlot : e.HoldsIn c (slot (fmt.getWord
            .ackSequenceNumber (e.packets p))) r :=
          ⟨_, buffers_of_some hConn, hOwn⟩
        rcases hSlots.timed r ⟨c, _, hSlot⟩ with
          ⟨u, -, hTimer', hArgument⟩
        cases hTimer.symm.trans hTimer'
        rcases hSlots.acked hSlot hTimer rfl
            (fun _ _ _ hHolds => holdsIn_of_acked hConn
              hHolds) (fun _ _ => rfl) with
          ⟨active', hSlots', hOthers⟩
        apply timersOf_removeTimer hSlots.pool hSlots'.pool
          hOthers rfl
        rw [hArgument]
        rintro rfl
        exact hNot _ hSlot
  | data _ _ hAcked _ =>
      apply timersOf_congr
      cases hAcked <;> rfl

/-
  A packet received stops only timers of packets in slots of
  its destination.
-/
theorem IngressResult.timersOf
    (hSlots : SlotsArmed fmt e active free)
    (hUnheld : ¬ e.Holds p)
    (hIngress : IngressResult fmt cfg p e e')
    (hNot : ∀ c k, destination fmt cfg e (e.packets p) =
      some c → ¬ e.HoldsIn c k q) :
    e'.timersOf q = e.timersOf q := by
  cases hIngress with
  | dropped hFront =>
      apply timersOf_congr
      cases hFront <;> rfl
  | routed hCheck hHost hFound hBack =>
      have hSame := hBack.timersOf
        (hSlots.setPacket hUnheld _) (fun k =>
          hNot _ k (destination_routed hCheck hHost hFound))
      exact hSame

end Timers

------------------------------------------------------------
-- Connections
------------------------------------------------------------

section Conns

variable
    {fmt : PacketFormat P}
    {cfg : Config}
    {e e' : Endpoint P}
    {c d : ConnPtr}
    {p : PacketPtr}

theorem BackResult.conns_of_ne
    {status : HookStatus}
    (hBack : BackResult fmt cfg p c e status e')
    (hNe : d ≠ c) :
    e'.conns d = e.conns d := by
  cases hBack with
  | ack _ _ hReceive =>
      rcases receiveAck_ok_iff.mp hReceive with
        ⟨conn, -, ⟨-, rfl⟩ | ⟨_, t, -, -, rfl⟩⟩
      · rfl
      · exact Endpoint.setConn_conns_of_ne _ _ hNe
  | @data _ e₁ status v _ _ _ hAcked _ =>
      rw [restoreAll_conns,
        Endpoint.setConn_conns_of_ne _ _ hNe, hAcked.conns_eq]

/- A packet received changes only its destination. -/
theorem IngressResult.conns_of_ne
    (hIngress : IngressResult fmt cfg p e e')
    (hNe : destination fmt cfg e (e.packets p) ≠ some d) :
    e'.conns d = e.conns d := by
  cases hIngress with
  | dropped hFront =>
      cases hFront with
      | rejected => rfl
      | unclaimed => rfl
      | parked hCheck hHost hNone hFlow hListener =>
          rw [destination_parked hCheck hHost hNone hFlow,
            hListener] at hNe
          exact Function.update_of_ne
            (fun hEq => hNe (congrArg some hEq.symm)) _ _
  | routed hCheck hHost hFound hBack =>
      rw [destination_routed hCheck hHost hFound] at hNe
      exact hBack.conns_of_ne
        (fun hEq => hNe (congrArg some hEq.symm))

/- A packet dropped early changes its own buffer only. -/
theorem IngressResult.droppedEarly
    (hIngress : IngressResult fmt cfg p e e')
    (hDropped : DroppedEarly fmt cfg e (e.packets p)) :
    ∃ y, e' = e.setPacket p y := by
  rcases hDropped with ⟨y, passes, hCheck, hDrops⟩
  have hNot : ∀ y', checkPacket fmt cfg (e.packets p) =
      .ok (y', true) →
      fmt.getInteger .dstHostId y' ≠ e.myLocalHostId := by
    intro y' hCheck' hHost
    cases hCheck.symm.trans hCheck'
    rcases hDrops with hFalse | hOther
    · cases hFalse
    · exact hOther hHost
  cases hIngress with
  | dropped hFront =>
      cases hFront with
      | rejected => exact ⟨_, rfl⟩
      | unclaimed => exact ⟨_, rfl⟩
      | parked hCheck' hHost =>
          exact absurd hHost (hNot _ hCheck')
  | routed hCheck' hHost =>
      exact absurd hHost (hNot _ hCheck')

end Conns

------------------------------------------------------------
-- Who Sent What
------------------------------------------------------------

/- The connection that each buffer was last sent on. -/
abbrev Senders := PacketPtr → Option ConnPtr

/- The record after a call, which may have taken a buffer. -/
def Senders.after
    (senders : Senders)
    (e : Endpoint P)
    (call : Call P)
    (e' : Endpoint P) : Senders :=
  if e.nextPacket < e'.nextPacket then
    Function.update senders e.nextPacket call.sender
  else
    senders

/- A call, with a record of the connection it sends on. -/
def Tracks
    (fmt : PacketFormat P)
    (cfg : Config)
    (s : Endpoint P × Senders)
    (call : Call P)
    (s' : Endpoint P × Senders) : Prop :=
  Calls fmt cfg s.1 call s'.1 ∧
    s'.2 = s.2.after s.1 call s'.1

/- What is in a slot was sent on that connection. -/
structure SlotsTracked
    (fmt : PacketFormat P)
    (s : Endpoint P × Senders) : Prop where
  timed : TimedInvariant fmt s.1
  held : ∀ d k p, s.1.HoldsIn d k p → s.2 p = some d

/- What a packet received may change. -/
structure Isolates
    (fmt : PacketFormat P)
    (cfg : Config)
    (senders : Senders)
    (x : P)
    (e e' : Endpoint P) : Prop where
  dropped : DroppedEarly fmt cfg e x →
    e'.conns = e.conns ∧ e'.timers = e.timers ∧
      ∀ p, p ≠ e.nextPacket → e'.packets p = e.packets p
  others : ∀ d, destination fmt cfg e x ≠ some d →
    e'.conns d = e.conns d
  timers : ∀ d p, destination fmt cfg e x ≠ some d →
    senders p = some d → e'.timersOf p = e.timersOf p

section Runs

variable
    {fmt : PacketFormat P}
    {cfg : Config}
    {e e' : Endpoint P}
    {s s' : Endpoint P × Senders}

theorem slotsTracked_netInit
    (fresh : NetState)
    (hConns : ∀ c, e.conns c = none)
    (hHead : e.timers.timersHead = none) :
    SlotsTracked fmt (nbNetInit fresh e, fun _ => none) := by
  refine ⟨timedInvariant_netInit fresh hConns hHead, ?_⟩
  rintro d k p ⟨b, hB, -⟩
  rcases Option.map_eq_some_iff.mp hB with ⟨conn, hConn, -⟩
  cases (hConns d).symm.trans hConn

theorem Tracks.slotsTracked
    {call : Call P}
    (hReliable : cfg.reliableEnabled = true)
    (hInv : SlotsTracked fmt s)
    (hCall : Tracks fmt cfg s call s') :
    SlotsTracked fmt s' := by
  rcases hCall with ⟨hCall, hSenders⟩
  refine ⟨hCall.timedInvariant hReliable hInv.timed, ?_⟩
  rcases hInv.timed with ⟨-, active, free, hSlots⟩
  have hOld : ∀ d k p, s.1.HoldsIn d k p →
      s'.2 p = some d := by
    intro d k p hHolds
    have hNe : p ≠ s.1.nextPacket :=
      Nat.ne_of_lt (hSlots.lt_of_holds ⟨d, k, hHolds⟩)
    rw [hSenders, Senders.after]
    split
    · rw [Function.update_of_ne hNe]
      exact hInv.held d k p hHolds
    · exact hInv.held d k p hHolds
  intro d k p hHolds
  by_cases hReceived : ∃ x len, call = .ingress x len
  · rcases hReceived with ⟨x, len, rfl⟩
    cases hCall with
    | ingress hIngress =>
        exact hOld d k p
          ((ingress_iff.mp hIngress).holdsIn hHolds)
  · have hNot : ∀ x len, call ≠ .ingress x len := by
      intro x len hEq
      exact hReceived ⟨x, len, hEq⟩
    rcases hCall.holdsIn hReliable hNot hHolds with
      hBefore | ⟨rfl, hTaken, hSender⟩
    · exact hOld d k p hBefore
    · rw [hSenders, Senders.after, if_pos hTaken,
        Function.update_self]
      exact hSender

/- Receiving a packet when the slots are in order. -/
theorem SlotsTracked.isolates
    {x : P}
    {len : Int}
    (hInv : cfg.reliableEnabled = true → SlotsTracked fmt s)
    (hIngress : ingress fmt cfg x len s.1 = .ok e') :
    Isolates fmt cfg s.2 x s.1 e' := by
  have hResult := ingress_iff.mp hIngress
  have hPacket := polled_packets_self (e := s.1) x
  refine ⟨?_, ?_, ?_⟩
  · intro hDropped
    have hPolled : DroppedEarly fmt cfg (s.1.polled x)
        ((s.1.polled x).packets s.1.nextPacket) := by
      rw [hPacket]
      exact hDropped
    rcases hResult.droppedEarly hPolled with ⟨y, rfl⟩
    refine ⟨rfl, rfl, ?_⟩
    intro p hNe
    rw [Endpoint.setPacket_packets_of_ne _ _ hNe]
    exact polled_packets_of_ne x hNe
  · intro d hOther
    refine hResult.conns_of_ne ?_
    rw [hPacket]
    exact hOther
  · intro d p hOther hSender
    cases hReliable : cfg.reliableEnabled with
    | false =>
        have hTimers :=
          hResult.timers_of_off hReliable
        exact timersOf_congr hTimers
    | true =>
        rcases hInv hReliable with
          ⟨⟨-, active, free, hSlots⟩, hHeld⟩
        have hUnheld : ¬ s.1.Holds s.1.nextPacket :=
          hSlots.not_holds (Nat.le_refl _)
        have hSet := hSlots.armed.setPacket hUnheld x
        have hPolled : SlotsArmed fmt (s.1.polled x) active
            free := hSet.of_same rfl
          (fun _ _ _ hHolds => hHolds) (fun _ _ => rfl)
        have hApart : ∀ c k, destination fmt cfg
            (s.1.polled x)
            ((s.1.polled x).packets s.1.nextPacket) =
              some c →
            ¬ (s.1.polled x).HoldsIn c k p := by
          intro c k hGoes hHolds
          rw [hPacket] at hGoes
          have hSame : d = c := Option.some.inj
            (hSender.symm.trans (hHeld c k p hHolds))
          exact hOther (hSame ▸ hGoes)
        have hSame :=
          hResult.timersOf hPolled hUnheld hApart
        exact hSame

/-
  In every run, whatever is in a redelivery buffer was sent
  on its connection, and a packet received leaves all that
  it is not for alone.
-/
theorem isolates_of_run
    {fresh : NetState}
    {calls : List (Call P)}
    (hConns : ∀ c, e.conns c = none)
    (hHead : e.timers.timersHead = none)
    (hRun : Run (Tracks fmt cfg)
      (nbNetInit fresh e, fun _ => none) calls s) :
    (cfg.reliableEnabled = true →
      ∀ d k p, s.1.HoldsIn d k p → s.2 p = some d) ∧
    ∀ x len e', ingress fmt cfg x len s.1 = .ok e' →
      Isolates fmt cfg s.2 x s.1 e' := by
  have hInv : cfg.reliableEnabled = true →
      SlotsTracked fmt s := by
    intro hReliable
    have hStep : ∀ s₁ call s₂, SlotsTracked fmt s₁ →
        Tracks fmt cfg s₁ call s₂ → SlotsTracked fmt s₂ :=
      fun _ _ _ hInv hCall =>
        hCall.slotsTracked hReliable hInv
    exact hRun.invariant hStep
      (slotsTracked_netInit fresh hConns hHead)
  constructor
  · intro hReliable
    exact (hInv hReliable).held
  · intro x len e' hIngress
    exact SlotsTracked.isolates hInv hIngress

end Runs

------------------------------------------------------------
-- A Packet in Flight
------------------------------------------------------------

/- The first buffer was sent on the connection opened. -/
theorem isolates_of_run_one :
    ∃ s calls, s.2 0 = some 1 ∧
      Run (Tracks netPacketFormat reliableConfig)
        (bareStack, fun _ => none) calls s ∧
      (reliableConfig.reliableEnabled = true →
        ∀ d k p, s.1.HoldsIn d k p → s.2 p = some d) ∧
      ∀ x len e',
        ingress netPacketFormat reliableConfig x len s.1 =
          .ok e' →
        Isolates netPacketFormat reliableConfig s.2 x s.1
          e' := by
  have hTable : (do
      let e₁ ← establishReliable bareStack
      let r ← sendHi e₁
      return (e₁.nextPacket, r.2.nextPacket)) =
      .ok (0, 1) := by
    decide +kernel
  rcases bind_eq_ok_iff.mp hTable with ⟨e₁, hFirst, hRest⟩
  rcases bind_eq_ok_iff.mp hRest with
    ⟨⟨n, e₂⟩, hSecond, hNext⟩
  simp only [pure_eq_ok, Except.ok.injEq, Prod.mk.injEq]
    at hNext
  let opened : Senders := Senders.after (fun _ => none)
    bareStack (.establish 1 blankConnection 9 8 7) e₁
  let sent : Senders :=
    opened.after e₁ (.send 1 [104, 105]) e₂
  have hOpens : Tracks netPacketFormat reliableConfig
      (bareStack, fun _ => none)
      (.establish 1 blankConnection 9 8 7) (e₁, opened) :=
    ⟨(records_establishReliable hFirst).1, rfl⟩
  have hSends : Tracks netPacketFormat reliableConfig
      (e₁, opened) (.send 1 [104, 105]) (e₂, sent) :=
    ⟨(records_sendHi hSecond).1, rfl⟩
  have hRun := Run.cons hOpens (Run.cons hSends (.nil _))
  refine ⟨_, _, ?_, hRun,
    isolates_of_run (fun _ => rfl) rfl hRun⟩
  simp [sent, Senders.after, hNext, Call.sender]

end NetBlocks
