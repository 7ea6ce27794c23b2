import NetBlocks.Correctness.AcceptQueues
import NetBlocks.Correctness.EventDispatch

/-
  The signaling state of a connection: it only moves forward,
  and the callback for it is called once, after a packet got
  past the inorder module.

  Main declarations:
    * `PassesStages`
    * `SignalState` and `SignalStep`
    * `SignalEffect` and `SignalStep.effect`
    * `SignalInvariant`
    * `signals_of_run`
-/

namespace NetBlocks

open Except TransitionSystem

variable {P : Type}

------------------------------------------------------------
-- Packets That Pass
------------------------------------------------------------

/-
  The packet at `p` gets past the checksum module, the
  identifier module, which matches it to `c`, the reliable
  module and the inorder module.
-/
def PassesStages
    (fmt : PacketFormat P)
    (cfg : Config)
    (e : Endpoint P)
    (p : PacketPtr)
    (c : ConnPtr) : Prop :=
  ∃ e₁ e₂,
    runHooks (hookIngress fmt cfg p) (frontModules cfg) e =
      .ok (.hookContinue, e₁) ∧
    InorderModule.flowConnection fmt p e₁ = c ∧
    runHooks (hookIngress fmt cfg p)
      ((if cfg.reliableEnabled then [.reliable] else []) ++
        [.inorder]) e₁ = .ok (.hookContinue, e₂)

/- The signaling state of the connection at an address. -/
def Endpoint.signaling
    (e : Endpoint P)
    (c : ConnPtr) : Option SignalingState :=
  (e.conns c).map Connection.signalingState

section Received

variable
    {fmt : PacketFormat P}
    {cfg : Config}
    {e e' : Endpoint P}
    {c : ConnPtr}
    {conn conn' : Connection}
    {p : PacketPtr}

theorem signaling_of_update
    (hConns : e'.conns = Function.update e.conns c
      (some conn')) :
    e'.signaling = Function.update e.signaling c
      (some conn'.signalingState) := by
  funext d
  simp only [Endpoint.signaling, hConns,
    Function.update_apply]
  split <;> rfl

theorem signaling_setConn
    (e : Endpoint P)
    (c : ConnPtr)
    (conn' : Connection) :
    (e.setConn c conn').signaling =
      Function.update e.signaling c
        (some conn'.signalingState) :=
  signaling_of_update rfl

/- Assigning other members of a connection. -/
theorem signaling_of_assign
    (hConn : e.conns c = some conn)
    (hConns : e'.conns = Function.update e.conns c
      (some conn'))
    (hState : conn'.signalingState = conn.signalingState) :
    e'.signaling = e.signaling := by
  rw [signaling_of_update hConns, hState]
  apply Function.update_eq_self_iff.mpr
  rw [Endpoint.signaling, hConn]
  rfl

/- Only a packet that passes changes a signaling state. -/
theorem BackResult.signaling
    {status : HookStatus}
    (hBack : BackResult fmt cfg p c e status e') :
    e'.signaling = e.signaling ∨
      status = .hookContinue ∧
        e.signaling c = some .waitingForSignal ∧
          e'.signaling = Function.update e.signaling c
            (some .signaled) := by
  cases hBack with
  | ack _ _ hReceive =>
      rcases receiveAck_ok_iff.mp hReceive with
        ⟨conn, hConn, ⟨-, rfl⟩ | ⟨_, t, -, -, rfl⟩⟩
      · exact Or.inl rfl
      · exact Or.inl (signaling_of_assign hConn rfl rfl)
  | @data conn e₁ status v taken _ hConn hAcked _ =>
      have hConns : ((e₁.setConn c (arrivedConn conn status v)
          ).restoreAll fmt (arrivedPackets status p taken)
            ).conns = Function.update e.conns c
              (some (arrivedConn conn status v)) := by
        rw [restoreAll_conns, ← hAcked.conns_eq]
        rfl
      by_cases hPasses : status = .hookContinue ∧
          (conn.withInorderView v).signalingState =
            .waitingForSignal
      · have hState : conn.signalingState =
            .waitingForSignal := hPasses.2
        refine Or.inr ⟨hPasses.1, ?_, ?_⟩
        · rw [Endpoint.signaling, hConn, Option.map_some,
            hState]
        · rw [signaling_of_update hConns, arrivedConn,
            if_pos hPasses]
      · refine Or.inl (signaling_of_assign hConn hConns ?_)
        rw [arrivedConn, if_neg hPasses]
        rfl

theorem FrontResult.signaling
    {status : HookStatus}
    (hFront : FrontResult fmt cfg p e status e') :
    e'.signaling = e.signaling := by
  cases hFront with
  | rejected => rfl
  | unclaimed => rfl
  | parked _ _ _ _ _ _ hConn =>
      exact signaling_of_assign hConn rfl rfl
  | routed => rfl

/-
  The modules in front of the signaling one continue if all
  of them do.
-/
theorem runHooks_back_continue
    {e : Endpoint P}
    (hRun : runHooks (hookIngress fmt cfg p)
      (backModules cfg) e = .ok (.hookContinue, e')) :
    ∃ e₂, runHooks (hookIngress fmt cfg p)
      ((if cfg.reliableEnabled then [.reliable] else []) ++
        [.inorder]) e = .ok (.hookContinue, e₂) := by
  have hModules : backModules cfg =
      ((if cfg.reliableEnabled then [.reliable] else []) ++
        [.inorder]) ++ [.signaling, .payload] := by
    rw [backModules, List.append_assoc]
    rfl
  rw [hModules, runHooks_append] at hRun
  rcases bind_eq_ok_iff.mp hRun with
    ⟨⟨status, e₂⟩, hFirst, hRest⟩
  cases status with
  | hookDrop => cases hRest
  | hookContinue => exact ⟨e₂, hFirst⟩

/- A packet received signals the connection it passes on. -/
theorem IngressResult.signaling
    (hBuffer : p ≠ e.nextPacket)
    (hIngress : IngressResult fmt cfg p e e')
    (d : ConnPtr) :
    e'.signaling d = e.signaling d ∨
      e.signaling d = some .waitingForSignal ∧
        e'.signaling d = some .signaled ∧
          PassesStages fmt cfg e p d := by
  cases hIngress with
  | dropped hFront => exact Or.inl (by rw [hFront.signaling])
  | @routed y status _ hCheck hHost hFound hBack =>
      let c := lookup fmt cfg e y
      let e₁ := e.setPacket p
        (fmt.setInteger .flowIdentifier c y)
      have hFlow : InorderModule.flowConnection fmt p e₁ = c :=
        flowConnection_setPacket p c y
      have hFront : runHooks (hookIngress fmt cfg p)
          (frontModules cfg) e = .ok (.hookContinue, e₁) :=
        runFront_ok_iff.mpr (.routed hCheck hHost hFound)
      have hRun := (runBack_ok_iff hFlow hBuffer).mpr hBack
      rcases hBack.signaling with
        hSame | ⟨rfl, hWaiting, hSignaled⟩
      · exact Or.inl (congrFun hSame d)
      · rcases runHooks_back_continue hRun with ⟨e₂, hPasses⟩
        by_cases hEq : d = c
        · subst hEq
          refine Or.inr ⟨hWaiting, ?_, e₁, e₂, hFront, hFlow,
            hPasses⟩
          rw [hSignaled]
          exact Function.update_self _ _ _
        · refine Or.inl ?_
          rw [hSignaled]
          exact Function.update_of_ne hEq _ _

/- The other calls leave signaling states alone. -/
theorem Calls.signaling
    {call : Call P}
    (hCall : Calls fmt cfg e call e')
    (hOpen : ∀ c fresh h a sa,
      call ≠ .establish c fresh h a sa)
    (hClose : ∀ c, call ≠ .destablish c)
    (hNot : ∀ x len, call ≠ .ingress x len) :
    e'.signaling = e.signaling := by
  cases hCall with
  | establish => exact absurd rfl (hOpen _ _ _ _ _)
  | destablish => exact absurd rfl (hClose _)
  | send hSend =>
      rcases nbSend_ok_iff.mp hSend with
        ⟨conn, y, x, t, timers, hConn, -, -, -, rfl⟩
      exact signaling_of_assign hConn rfl rfl
  | ingress => exact absurd rfl (hNot _ _)
  | checkTimers hCheck =>
      rcases checkTimersLoop_frame hCheck with
        ⟨timers, out, rfl⟩
      rfl
  | tick => rfl
  | read hRead =>
      rcases nbRead_frame hRead with ⟨conn, queue, hConn, rfl⟩
      exact signaling_of_assign hConn rfl rfl

/- What state the establish hook gives a connection. -/
theorem openedConn_signalingState
    (cfg : Config)
    (fresh : Connection)
    (hostLocalId : BitVec 64)
    (h a sa : BitVec 32)
    (p : PacketPtr) :
    (openedConn cfg fresh hostLocalId h a sa
      p).signalingState =
      if IsWildcard h a then .signalNa
      else if cfg.signalingEnabled then .waitingForSignal
      else .signaled := by
  have hRouted : ∀ conn : Connection,
      (routedConn cfg sa conn).signalingState =
        conn.signalingState := by
    intro conn
    unfold routedConn
    split <;> rfl
  rw [openedConn, hRouted, signaledConn]
  split
  · rfl
  · split <;> rfl

end Received

------------------------------------------------------------
-- A Process That Signals
------------------------------------------------------------

/- How a connection came to be. -/
inductive Origin where
| established (h a : BitVec 32)
| accepted
deriving DecidableEq, Repr

/-
  The process, with how each connection came to be, and the
  connections on which a packet has passed since then.
-/
structure SignalState (P : Type) where
  point : PassPoint
  endpoint : Endpoint P
  origins : ConnPtr → Option Origin
  passed : ConnPtr → Prop

/-
  What the process does: a step of the pass over the table,
  or, in its own code or in a callback, a call of the API or
  a part of `nb__accept`.
-/
inductive SignalMove (P : Type) where
| passes
| establishes (c : ConnPtr) (h a : BitVec 32)
| accepts (c : ConnPtr)
| receives (p : PacketPtr)
| dequeues (c : ConnPtr)
| calls (call : Call P)

/- The process is not in the code of the pass. -/
def PassPoint.InUserCode
    (point : PassPoint) : Prop :=
  point = .outside ∨ ∃ i c,
    point = .inEstablished i c ∨ point = .inReadReady i c

/- The connection whose callback for the signal is made. -/
def PassPoint.firing : PassPoint → Option ConnPtr
| .inEstablished _ c => some c
| .handles _ c => some c
| _ => none

namespace SignalState

/- The process when no connection has been opened. -/
def start
    (e : Endpoint P) : SignalState P where
  point := .outside
  endpoint := e
  origins := fun _ => none
  passed := fun _ => False

/- A connection is opened at `c`. -/
def opened
    (s : SignalState P)
    (c : ConnPtr)
    (origin : Origin)
    (e : Endpoint P) : SignalState P :=
  { s with
    endpoint := e
    origins := Function.update s.origins c (some origin)
    passed := Function.update s.passed c False }

/- The packet at `p` is processed on the endpoint `e`. -/
def received
    (fmt : PacketFormat P)
    (cfg : Config)
    (s : SignalState P)
    (e : Endpoint P)
    (p : PacketPtr)
    (e' : Endpoint P) : SignalState P :=
  { s with
    endpoint := e'
    passed := fun c =>
      s.passed c ∨ PassesStages fmt cfg e p c }

/- How often the callback for the signal was called. -/
def fired
    (s : SignalState P)
    (c : ConnPtr) : Nat :=
  s.endpoint.events.count (.established, c)

end SignalState

/-
  The steps of the process. A callback is called at the end
  of a part of `nb__accept`, or of receiving a packet, if at
  all, so its own calls are steps that come next.
-/
inductive SignalStep
    (fmt : PacketFormat P)
    (cfg : Config)
    (s : SignalState P) :
    SignalMove P → SignalState P → Prop
| passes {t t' : PassState P} :
    t.point = s.point →
    t.endpoint = s.endpoint →
    PassStep fmt cfg t none t' →
    SignalStep fmt cfg s .passes
      { s with point := t'.point, endpoint := t'.endpoint }
| establishes {c : ConnPtr} {fresh : Connection}
    {h a sa : BitVec 32} {e' : Endpoint P} :
    s.point.InUserCode →
    Calls fmt cfg s.endpoint (.establish c fresh h a sa) e' →
    SignalStep fmt cfg s (.establishes c h a)
      (s.opened c (.established h a) e')
| accepts {c : ConnPtr} {fresh conn : Connection}
    {h a sa : BitVec 32} {e' : Endpoint P} :
    s.point.InUserCode →
    Calls fmt cfg s.endpoint (.establish c fresh h a sa) e' →
    e'.conns c = some conn →
    SignalStep fmt cfg s (.accepts c)
      (s.opened c .accepted (e'.setConn c
        { conn with signalingState := .signaled }))
| receives {x : P} {len : Int} {e' : Endpoint P} :
    s.point.InUserCode →
    ingress fmt cfg x len s.endpoint = .ok e' →
    SignalStep fmt cfg s (.receives s.endpoint.nextPacket)
      (s.received fmt cfg (s.endpoint.polled x)
        s.endpoint.nextPacket e')
| replays {p : PacketPtr} {e' : Endpoint P} :
    s.point.InUserCode →
    p < s.endpoint.nextPacket →
    runIngressPath fmt cfg p s.endpoint = .ok e' →
    SignalStep fmt cfg s (.receives p)
      (s.received fmt cfg s.endpoint p e')
| dequeues {c : ConnPtr} {conn : Connection}
    {q : AcceptQueue} :
    s.point.InUserCode →
    s.endpoint.conns c = some conn →
    SignalStep fmt cfg s (.dequeues c)
      { s with
        endpoint := s.endpoint.setConn c
          (conn.withAcceptQueue q) }
| calls {call : Call P} {e' : Endpoint P} :
    s.point.InUserCode →
    (∀ c fresh h a sa, call ≠ .establish c fresh h a sa) →
    (∀ c, call ≠ .destablish c) →
    (∀ x len, call ≠ .ingress x len) →
    Calls fmt cfg s.endpoint call e' →
    SignalStep fmt cfg s (.calls call)
      { s with endpoint := e' }

------------------------------------------------------------
-- What a Step Does
------------------------------------------------------------

/- The state that a connection is in once it is opened. -/
def Origin.opensIn
    (cfg : Config) : Origin → SignalingState
| .accepted => .signaled
| .established h a =>
    if IsWildcard h a then .signalNa
    else if cfg.signalingEnabled then .waitingForSignal
    else .signaled

/-
  What a step does to signaling states and their callbacks:
  connections that pass are signaled, one is opened, its
  callback is called, or it counts as told.
-/
inductive SignalEffect
    (cfg : Config)
    (s s' : SignalState P) : Prop
| settles :
    s'.point.firing = s.point.firing →
    s'.fired = s.fired →
    s'.origins = s.origins →
    (∀ c, s.passed c → s'.passed c) →
    (∀ c, s'.endpoint.signaling c = s.endpoint.signaling c ∨
      s.endpoint.signaling c = some .waitingForSignal ∧
        s'.endpoint.signaling c = some .signaled ∧
          s'.passed c) →
    SignalEffect cfg s s'
| opens {c : ConnPtr} {origin : Origin} :
    s'.point.firing = s.point.firing →
    s'.fired = s.fired →
    s'.origins = Function.update s.origins c (some origin) →
    s'.passed = Function.update s.passed c False →
    s.endpoint.signaling c = none →
    s'.endpoint.signaling = Function.update
      s.endpoint.signaling c (some (origin.opensIn cfg)) →
    SignalEffect cfg s s'
| fires {c : ConnPtr} :
    s.point.firing = none →
    s'.point.firing = some c →
    s'.fired = Function.update s.fired c (s.fired c + 1) →
    s'.origins = s.origins →
    s'.passed = s.passed →
    s.endpoint.signaling c = some .signaled →
    s'.endpoint.signaling = s.endpoint.signaling →
    SignalEffect cfg s s'
| handles {c : ConnPtr} :
    s.point.firing = some c →
    s'.point.firing = none →
    s'.fired = s.fired →
    s'.origins = s.origins →
    s'.passed = s.passed →
    s'.endpoint.signaling = Function.update
      s.endpoint.signaling c (some .signalHandled) →
    SignalEffect cfg s s'

section Effects

variable
    {fmt : PacketFormat P}
    {cfg : Config}
    {e e' : Endpoint P}
    {s s' : SignalState P}

/- Being told of a parked packet is another event. -/
theorem Announces.fired
    (hAnnounces : Announces e e')
    (c : ConnPtr) :
    e'.events.count (.established, c) =
      e.events.count (.established, c) := by
  rcases hAnnounces with ⟨listeners, hEvents⟩
  have hNone : (listeners.map (fun d =>
      ((QueueEvent.acceptReady, d) : QueueEvent × ConnPtr))
      ).count (.established, c) = 0 := by
    rw [List.count_eq_zero, List.mem_map]
    rintro ⟨d, -, hEq⟩
    cases hEq
  rw [hEvents, List.count_append, hNone, Nat.add_zero]

/- A step that leaves signaling states and callbacks alone. -/
theorem SignalEffect.quiet
    (hFiring : s'.point.firing = s.point.firing)
    (hFired : s'.fired = s.fired)
    (hOrigins : s'.origins = s.origins)
    (hPassed : s'.passed = s.passed)
    (hStates : s'.endpoint.signaling = s.endpoint.signaling) :
    SignalEffect cfg s s' :=
  .settles hFiring hFired hOrigins (fun _ hc => hPassed ▸ hc)
    (fun _ => Or.inl (by rw [hStates]))

/- Callbacks for input are not counted. -/
theorem fired_notified_readReady
    (c : ConnPtr) :
    (fun d => (e.notified .readReady c).events.count
        (.established, d)) =
      fun d => e.events.count (.established, d) := by
  funext d
  simp [Endpoint.notified, List.count_append]

/- The steps of the pass over the table. -/
theorem PassStep.effect
    {t t' : PassState P}
    (hPoint : t.point = s.point)
    (hEndpoint : t.endpoint = s.endpoint)
    (hStep : PassStep fmt cfg t none t') :
    SignalEffect cfg s
      { s with point := t'.point, endpoint := t'.endpoint } := by
  rcases s with ⟨point, e, origins, passed⟩
  dsimp only at hPoint hEndpoint
  subst hPoint hEndpoint
  cases hStep with
  | begins hAt =>
      refine .quiet ?_ rfl rfl rfl rfl
      dsimp only
      rw [hAt]
      rfl
  | ends hAt =>
      refine .quiet ?_ rfl rfl rfl rfl
      dsimp only
      rw [hAt]
      rfl
  | @established i c conn hAt _ _ hConn hSignaled =>
      refine .fires (c := c) ?_ rfl ?_ rfl rfl ?_ rfl
      · dsimp only
        rw [hAt]
        rfl
      · funext d
        by_cases hEq : d = c
        · subst hEq
          simp [SignalState.fired, PassState.goesOn,
            Endpoint.notified, List.count_append]
        · have hOther : ((QueueEvent.established, c) :
              QueueEvent × ConnPtr) ≠ (.established, d) := by
            intro hSame
            cases hSame
            exact hEq rfl
          rw [Function.update_of_ne hEq]
          simp [SignalState.fired, PassState.goesOn,
            Endpoint.notified, List.count_append, hOther]
      · rw [Endpoint.signaling, hConn, Option.map_some,
          hSignaled]
  | skipped hAt =>
      refine .quiet ?_ rfl rfl rfl rfl
      dsimp only
      rw [hAt]
      rfl
  | returned hAt =>
      refine .quiet ?_ rfl rfl rfl rfl
      dsimp only
      rw [hAt]
      rfl
  | @handled i c conn hAt hConn =>
      refine .handles (c := c) ?_ rfl rfl rfl rfl ?_
      · dsimp only
        rw [hAt]
        rfl
      · exact signaling_setConn _ c conn.handled
  | readReady hAt =>
      refine .quiet ?_ (fired_notified_readReady _) rfl rfl rfl
      dsimp only
      rw [hAt]
      rfl
  | quiet hAt =>
      refine .quiet ?_ rfl rfl rfl rfl
      dsimp only
      rw [hAt]
      rfl
  | moved hAt =>
      refine .quiet ?_ rfl rfl rfl rfl
      dsimp only
      rw [hAt]
      rfl

/- What one step does. -/
theorem SignalStep.effect
    {move : SignalMove P}
    (hStep : SignalStep fmt cfg s move s') :
    SignalEffect cfg s s' := by
  cases hStep with
  | passes hPoint hEndpoint hPass =>
      exact hPass.effect hPoint hEndpoint
  | @establishes c fresh h a sa e' _ hCall =>
      have hFired : (s.opened c (.established h a) e').fired =
          s.fired := funext hCall.announces.fired
      cases hCall with
      | establish _ hFree hEstablish =>
          refine .opens rfl hFired rfl rfl ?_ ?_
          · rw [Endpoint.signaling, hFree]
            rfl
          · have hState := signaling_of_update
              (nbEstablish_conns hEstablish)
            rw [openedConn_signalingState] at hState
            exact hState
  | @accepts c fresh conn h a sa e' _ hCall hConn =>
      have hFired : (s.opened c .accepted (e'.setConn c
          { conn with signalingState := .signaled })).fired =
            s.fired := funext hCall.announces.fired
      cases hCall with
      | establish _ hFree hEstablish =>
          refine .opens rfl hFired rfl rfl ?_ ?_
          · rw [Endpoint.signaling, hFree]
            rfl
          · have hSet := signaling_setConn e' c { conn with
              signalingState := .signaled }
            rw [signaling_of_update
              (nbEstablish_conns hEstablish),
              Function.update_idem] at hSet
            exact hSet
  | @receives x len e' _ hIngress =>
      have hResult := ingress_iff.mp hIngress
      have hNe : s.endpoint.nextPacket ≠
          (s.endpoint.polled x).nextPacket :=
        Nat.ne_of_lt (Nat.lt_succ_self _)
      refine .settles rfl (funext hResult.announces.fired) rfl
        (fun _ hc => Or.inl hc) ?_
      intro c
      rcases hResult.signaling hNe c with
        hSame | ⟨hWaiting, hSignaled, hPasses⟩
      · exact Or.inl hSame
      · exact Or.inr ⟨hWaiting, hSignaled, Or.inr hPasses⟩
  | @replays p e' _ hPacket hIngress =>
      have hNe := Nat.ne_of_lt hPacket
      have hResult := (runIngressPath_iff hNe).mp hIngress
      refine .settles rfl (funext hResult.announces.fired) rfl
        (fun _ hc => Or.inl hc) ?_
      intro c
      rcases hResult.signaling hNe c with
        hSame | ⟨hWaiting, hSignaled, hPasses⟩
      · exact Or.inl hSame
      · exact Or.inr ⟨hWaiting, hSignaled, Or.inr hPasses⟩
  | dequeues _ hConn =>
      exact .quiet rfl rfl rfl rfl
        (signaling_of_assign hConn rfl rfl)
  | calls _ hOpen hClose hNot hCall =>
      exact .quiet rfl (funext hCall.announces.fired) rfl rfl
        (hCall.signaling hOpen hClose hNot)

end Effects

------------------------------------------------------------
-- The Invariant
------------------------------------------------------------

/- A signaling state stays, or moves one on. -/
def Advances
    (before after : SignalingState) : Prop :=
  after = before ∨
    before = .waitingForSignal ∧ after = .signaled ∨
    before = .signaled ∧ after = .signalHandled

/-
  The callback for the signal was called for the connections
  that count as told, and is being called for a signaled one.
-/
structure SignalInvariant
    (cfg : Config)
    (s : SignalState P) : Prop where
  firing : ∀ c, s.point.firing = some c →
    s.endpoint.signaling c = some .signaled
  fired : ∀ c, s.fired c =
    if s.endpoint.signaling c = some .signalHandled ∨
        s.point.firing = some c then 1 else 0
  started : ∀ c st origin,
    s.endpoint.signaling c = some st →
    s.origins c = some origin →
    (origin.opensIn cfg = .signalNa → st = .signalNa) ∧
    (cfg.signalingEnabled = true → origin ≠ .accepted →
      st = .signalNa ∨ st = .waitingForSignal ∨ s.passed c)

/-
  The callback for the signal is called at most once, never
  for a connection that needs no signal, and with signaling
  only after a packet passed, if it was not accepted.
-/
structure SignalsInOrder
    (cfg : Config)
    (s : SignalState P) : Prop where
  once : ∀ c, s.fired c ≤ 1
  never : ∀ c origin, s.origins c = some origin →
    origin.opensIn cfg = .signalNa → s.fired c = 0
  passed : cfg.signalingEnabled = true → ∀ c origin,
    s.origins c = some origin → origin ≠ .accepted →
      s.fired c ≠ 0 → s.passed c

section Invariant

variable
    {fmt : PacketFormat P}
    {cfg : Config}
    {e : Endpoint P}
    {s s' : SignalState P}

theorem signalInvariant_start
    (hConns : ∀ c, e.conns c = none)
    (hEvents : e.events = []) :
    SignalInvariant cfg (SignalState.start e) := by
  have hNone : ∀ c, e.signaling c = none := by
    intro c
    rw [Endpoint.signaling, hConns c]
    rfl
  refine ⟨?_, ?_, ?_⟩
  · intro c hFiring
    cases hFiring
  · intro c
    have hFalse : ¬ (e.signaling c = some .signalHandled ∨
        PassPoint.outside.firing = some c) := by
      rw [hNone c]
      simp [PassPoint.firing]
    have hZero : (SignalState.start e).fired c = 0 := by
      simp [SignalState.fired, SignalState.start, hEvents]
    rw [hZero]
    exact (if_neg hFalse).symm
  · intro c st origin hState
    cases (hNone c).symm.trans hState

/- What one step preserves. -/
theorem SignalInvariant.effect
    (hInv : SignalInvariant cfg s)
    (hEffect : SignalEffect cfg s s') :
    SignalInvariant cfg s' := by
  cases hEffect with
  | settles hFiring hFired hOrigins hPassed hStates =>
      refine ⟨?_, ?_, ?_⟩
      · intro c hc
        rw [hFiring] at hc
        have hSignaled := hInv.firing c hc
        rcases hStates c with hSame | ⟨hWaiting, -⟩
        · rw [hSame, hSignaled]
        · cases hSignaled.symm.trans hWaiting
      · intro c
        rw [hFired, hInv.fired c, hFiring]
        rcases hStates c with
          hSame | ⟨hWaiting, hSignaled, -⟩
        · rw [hSame]
        · rw [hWaiting, hSignaled]
          simp
      · intro c st origin hState hOrigin
        rw [hOrigins] at hOrigin
        rcases hStates c with
          hSame | ⟨hWaiting, hSignaled, hPasses⟩
        · rw [hSame] at hState
          rcases hInv.started c st origin hState hOrigin with
            ⟨hNa, hOn⟩
          refine ⟨hNa, fun hEnabled hNot => ?_⟩
          rcases hOn hEnabled hNot with hSt | hSt | hSt
          · exact Or.inl hSt
          · exact Or.inr (Or.inl hSt)
          · exact Or.inr (Or.inr (hPassed c hSt))
        · have hStarted :=
            hInv.started c _ origin hWaiting hOrigin
          refine ⟨fun hNa => ?_, fun _ _ =>
            Or.inr (Or.inr hPasses)⟩
          cases hStarted.1 hNa
  | @opens c origin hFiring hFired hOrigins hPassed hFree
      hStates =>
      have hApart : ∀ d, s.point.firing = some d → d ≠ c := by
        rintro d hd rfl
        cases (hInv.firing d hd).symm.trans hFree
      have hNot : origin.opensIn cfg ≠ .signalHandled := by
        unfold Origin.opensIn
        split
        · simp
        · split
          · simp
          · split <;> simp
      refine ⟨?_, ?_, ?_⟩
      · intro d hd
        rw [hFiring] at hd
        rw [hStates, Function.update_of_ne (hApart d hd)]
        exact hInv.firing d hd
      · intro d
        rw [hFired, hInv.fired d, hFiring, hStates]
        by_cases hEq : d = c
        · rw [hEq, hFree, Function.update_self]
          simp [hNot]
        · rw [Function.update_of_ne hEq]
      · intro d st origin' hState hOrigin
        rw [hStates] at hState
        rw [hOrigins] at hOrigin
        by_cases hEq : d = c
        · subst hEq
          rw [Function.update_self] at hState hOrigin
          cases hState
          cases hOrigin
          refine ⟨id, fun hEnabled hAccepted => ?_⟩
          cases origin with
          | accepted => exact absurd rfl hAccepted
          | established h a =>
              simp only [Origin.opensIn, hEnabled, if_true]
              split
              · exact Or.inl rfl
              · exact Or.inr (Or.inl rfl)
        · rw [Function.update_of_ne hEq] at hState hOrigin
          rw [hPassed, Function.update_of_ne hEq]
          exact hInv.started d st origin' hState hOrigin
  | @fires c hFiring hFiring' hFired hOrigins hPassed
      hSignaled hStates =>
      refine ⟨?_, ?_, ?_⟩
      · intro d hd
        cases hFiring'.symm.trans hd
        rw [hStates, hSignaled]
      · intro d
        rw [hFired, hFiring', hStates]
        by_cases hEq : d = c
        · subst hEq
          rw [Function.update_self, hInv.fired d, hFiring,
            hSignaled]
          simp
        · have hNe : some c ≠ some d := by
            intro hSame
            exact hEq (Option.some.inj hSame).symm
          rw [Function.update_of_ne hEq, hInv.fired d, hFiring]
          simp [hNe]
      · rw [hStates, hOrigins, hPassed]
        exact hInv.started
  | @handles c hFiring hFiring' hFired hOrigins hPassed
      hStates =>
      have hSignaled := hInv.firing c hFiring
      refine ⟨?_, ?_, ?_⟩
      · intro d hd
        cases hFiring'.symm.trans hd
      · intro d
        rw [hFired, hInv.fired d, hFiring, hFiring', hStates]
        by_cases hEq : d = c
        · subst hEq
          rw [Function.update_self]
          simp
        · have hNe : some c ≠ some d := by
            intro hSame
            exact hEq (Option.some.inj hSame).symm
          rw [Function.update_of_ne hEq]
          simp [hNe]
      · intro d st origin hState hOrigin
        rw [hOrigins] at hOrigin
        rw [hPassed]
        by_cases hEq : d = c
        · subst hEq
          rw [hStates, Function.update_self] at hState
          cases hState
          rcases hInv.started d _ origin hSignaled hOrigin
            with ⟨hNa, hOn⟩
          refine ⟨fun hIs => ?_, fun hEnabled hNot => ?_⟩
          · cases hNa hIs
          · rcases hOn hEnabled hNot with hSt | hSt | hSt
            · cases hSt
            · cases hSt
            · exact Or.inr (Or.inr hSt)
        · rw [hStates, Function.update_of_ne hEq] at hState
          exact hInv.started d st origin hState hOrigin

/- States move forward in every step. -/
theorem SignalInvariant.advances
    (hInv : SignalInvariant cfg s)
    (hEffect : SignalEffect cfg s s')
    {c : ConnPtr}
    {st : SignalingState}
    (hState : s.endpoint.signaling c = some st) :
    ∃ st', s'.endpoint.signaling c = some st' ∧
      Advances st st' := by
  cases hEffect with
  | settles _ _ _ _ hStates =>
      rcases hStates c with hSame | ⟨hWaiting, hSignaled, -⟩
      · exact ⟨st, hSame.trans hState, Or.inl rfl⟩
      · cases hState.symm.trans hWaiting
        exact ⟨_, hSignaled, Or.inr (Or.inl ⟨rfl, rfl⟩)⟩
  | @opens d _ _ _ _ _ hFree hStates =>
      have hNe : c ≠ d := by
        rintro rfl
        cases hState.symm.trans hFree
      refine ⟨st, ?_, Or.inl rfl⟩
      rw [hStates, Function.update_of_ne hNe, hState]
  | fires _ _ _ _ _ _ hStates =>
      exact ⟨st, by rw [hStates, hState], Or.inl rfl⟩
  | @handles d hFiring _ _ _ _ hStates =>
      by_cases hEq : c = d
      · subst hEq
        cases hState.symm.trans (hInv.firing c hFiring)
        refine ⟨_, ?_, Or.inr (Or.inr ⟨rfl, rfl⟩)⟩
        rw [hStates, Function.update_self]
      · refine ⟨st, ?_, Or.inl rfl⟩
        rw [hStates, Function.update_of_ne hEq, hState]

theorem SignalInvariant.inOrder
    (hInv : SignalInvariant cfg s) :
    SignalsInOrder cfg s := by
  -- a callback was called only in two of the states
  have hStates : ∀ c, s.fired c ≠ 0 →
      s.endpoint.signaling c = some .signalHandled ∨
        s.endpoint.signaling c = some .signaled := by
    intro c hFired
    rw [hInv.fired c] at hFired
    split at hFired
    · next hTold =>
        rcases hTold with hHandled | hFiring
        · exact Or.inl hHandled
        · exact Or.inr (hInv.firing c hFiring)
    · exact absurd rfl hFired
  refine ⟨?_, ?_, ?_⟩
  · intro c
    rw [hInv.fired c]
    split <;> decide
  · intro c origin hOrigin hNa
    by_contra hFired
    rcases hStates c hFired with hState | hState <;>
      cases (hInv.started c _ origin hState hOrigin).1 hNa
  · intro hEnabled c origin hOrigin hNot hFired
    rcases hStates c hFired with hState | hState <;>
      · rcases (hInv.started c _ origin hState hOrigin).2
          hEnabled hNot with hSt | hSt | hSt
        · cases hSt
        · cases hSt
        · exact hSt

/-
  In every run the callbacks for signals are in order, and
  whatever step comes next, signaling states only advance.
-/
theorem signals_of_run
    {fresh : NetState}
    {moves : List (SignalMove P)}
    (hConns : ∀ c, e.conns c = none)
    (hEvents : e.events = [])
    (hRun : Run (SignalStep fmt cfg)
      (SignalState.start (nbNetInit fresh e)) moves s) :
    SignalsInOrder cfg s ∧
      ∀ move s', SignalStep fmt cfg s move s' →
        ∀ c st, s.endpoint.signaling c = some st →
          ∃ st', s'.endpoint.signaling c = some st' ∧
            Advances st st' := by
  have hStep : ∀ s₁ move s₂, SignalInvariant cfg s₁ →
      SignalStep fmt cfg s₁ move s₂ →
        SignalInvariant cfg s₂ :=
    fun _ _ _ hInv hStep => hInv.effect hStep.effect
  have hStart : SignalInvariant cfg
      (SignalState.start (nbNetInit fresh e)) :=
    signalInvariant_start hConns hEvents
  have hInv := hRun.invariant hStep hStart
  refine ⟨hInv.inOrder, ?_⟩
  intro move s' hNext c st hState
  exact hInv.advances hNext.effect hState

end Invariant

------------------------------------------------------------
-- The API and the Pass as Steps
------------------------------------------------------------

/-
  The process can get from `s` to a point and an endpoint,
  where all packets in accept queues are older.
-/
def SignalReaches
    (fmt : PacketFormat P)
    (cfg : Config)
    (s : SignalState P)
    (point : PassPoint)
    (e : Endpoint P) : Prop :=
  QueuedOld e ∧ ∃ moves s', Run (SignalStep fmt cfg) s moves
    s' ∧ s'.point = point ∧ s'.endpoint = e

/- No connection is closed. -/
def KeepsOpen
    (_ : PassState P) : Option (ApiCall P) → Prop
| some (.call (.destablish _)) => False
| _ => True

section Refinement

variable
    {fmt : PacketFormat P}
    {cfg : Config}
    {e e' : Endpoint P}
    {point : PassPoint}
    {s s' : SignalState P}

theorem SignalReaches.refl
    (hOld : QueuedOld s.endpoint) :
    SignalReaches fmt cfg s s.point s.endpoint :=
  ⟨hOld, [], s, .nil s, rfl, rfl⟩

/- One step more. -/
theorem SignalReaches.step
    {point' : PassPoint}
    (hReaches : SignalReaches fmt cfg s point e)
    (hOld : QueuedOld e')
    (hStep : ∀ t : SignalState P, t.point = point →
      t.endpoint = e → ∃ move t',
        SignalStep fmt cfg t move t' ∧
          t'.point = point' ∧ t'.endpoint = e') :
    SignalReaches fmt cfg s point' e' := by
  rcases hReaches with ⟨-, moves, t, hRun, hPoint, hEndpoint⟩
  rcases hStep t hPoint hEndpoint with
    ⟨move, t', hNext, hPoint', hEndpoint'⟩
  exact ⟨hOld, _, t', hRun.append (.cons hNext (.nil _)),
    hPoint', hEndpoint'⟩

theorem SignalReaches.dequeues
    {c : ConnPtr}
    {conn : Connection}
    {q : AcceptQueue}
    (hUser : point.InUserCode)
    (hReaches : SignalReaches fmt cfg s point e)
    (hConn : e.conns c = some conn)
    (hQueue : ∀ x ∈ q, x ∈ conn.acceptQueue) :
    SignalReaches fmt cfg s point
      (e.setConn c (conn.withAcceptQueue q)) := by
  have hOld : QueuedOld
      (e.setConn c (conn.withAcceptQueue q)) :=
    hReaches.1.assign hConn rfl hQueue
  apply hReaches.step hOld
  rintro t rfl rfl
  exact ⟨_, _, .dequeues hUser hConn, rfl, rfl⟩

theorem SignalReaches.replays
    {p : PacketPtr}
    (hUser : point.InUserCode)
    (hReaches : SignalReaches fmt cfg s point e)
    (hPacket : p < e.nextPacket)
    (hIngress : runIngressPath fmt cfg p e = .ok e') :
    SignalReaches fmt cfg s point e' := by
  apply hReaches.step (hReaches.1.replay hPacket hIngress)
  rintro t rfl rfl
  exact ⟨_, _, .replays hUser hPacket hIngress, rfl, rfl⟩

/- `nb__accept` is a sequence of steps. -/
theorem SignalReaches.accept
    {c d : ConnPtr}
    {fresh : Connection}
    {fuel : Nat}
    {result : ConnPtr}
    (hUser : point.InUserCode)
    (hReaches : SignalReaches fmt cfg s point e)
    (hNe : d ≠ 0)
    (hFree : e.conns d = none)
    (hAccept : nbAccept fmt cfg c d fresh fuel e =
      .ok (result, e')) :
    SignalReaches fmt cfg s point e' := by
  rcases nbAccept_stages hNe hFree hAccept with
    ⟨conn, hConn, ⟨-, rfl⟩ | ⟨x, e₂, opened, e₄, hLast, hCall,
      hOpened, hIngress, hLoop⟩⟩
  · exact hReaches
  · have hMem := List.mem_of_getLast? hLast
    have hPacket : x.packet < e.nextPacket :=
      hReaches.1 c conn x hConn hMem
    have hShorter : ∀ y ∈ conn.acceptQueue.dropLast,
        y ∈ conn.acceptQueue :=
      fun y hy => List.mem_of_mem_dropLast hy
    have hDequeued := hReaches.dequeues hUser hConn hShorter
    have hOld : QueuedOld (e₂.setConn d
        { opened with signalingState := .signaled }) :=
      (hCall.queuedOld hDequeued.1).assign hOpened rfl
        (fun _ hx => hx)
    have hAccepted : SignalReaches fmt cfg s point
        (e₂.setConn d
          { opened with signalingState := .signaled }) := by
      apply hDequeued.step hOld
      rintro t rfl hEndpoint
      rw [← hEndpoint] at hCall
      exact ⟨_, _, .accepts hUser hCall hOpened, rfl, rfl⟩
    have hFirst := hAccepted.replays hUser
      (Nat.lt_of_lt_of_le hPacket hCall.nextPacket_le) hIngress
    refine acceptLoop_invariant
      (SignalReaches fmt cfg s point) ?_ hFirst hLoop
    intro e i conn x e₁ conn₁ hAt hConn hx hIngress hConn₁
    have hOlder : x.packet < e.nextPacket :=
      hAt.1 c conn x hConn (List.mem_of_getElem? hx)
    rw [dequeueAt_eq hConn₁]
    exact (hAt.replays hUser hOlder hIngress).dequeues hUser
      hConn₁ (fun y hy => SwapRemoval.mem_of_mem_removeAt hy)

/- A call of the API that keeps connections open. -/
theorem SignalReaches.api
    {t : PassState P}
    {call : ApiCall P}
    (hUser : point.InUserCode)
    (hReaches : SignalReaches fmt cfg s point e)
    (hOpen : KeepsOpen t (some call))
    (hCall : ApiCalls fmt cfg e call e') :
    SignalReaches fmt cfg s point e' := by
  cases hCall with
  | accept hNe hFree hAccept =>
      exact hReaches.accept hUser hNe hFree hAccept
  | @call _ call hCall =>
      apply hReaches.step (hCall.queuedOld hReaches.1)
      rintro t rfl rfl
      cases call with
      | establish c fresh h a sa =>
          exact ⟨_, _, .establishes hUser hCall, rfl, rfl⟩
      | destablish c => exact hOpen.elim
      | ingress x len =>
          cases hCall with
          | ingress hIngress =>
              exact ⟨_, _, .receives hUser hIngress, rfl, rfl⟩
      | _ =>
          exact ⟨_, _, .calls hUser (by simp) (by simp)
            (by simp) hCall, rfl, rfl⟩

/- A step of the process that dispatches events. -/
theorem SignalReaches.pass
    {t t' : PassState P}
    {call : Option (ApiCall P)}
    (hReaches : SignalReaches fmt cfg s t.point t.endpoint)
    (hStep : Guarded KeepsOpen (PassStep fmt cfg) t call t') :
    SignalReaches fmt cfg s t'.point t'.endpoint := by
  rcases hStep with ⟨hOpen, hStep⟩
  have hOld := hReaches.1
  have hPass : call = none → QueuedOld t'.endpoint →
      SignalReaches fmt cfg s t'.point t'.endpoint := by
    rintro rfl hOld'
    apply hReaches.step hOld'
    intro t₁ hPoint hEndpoint
    exact ⟨_, _, .passes hPoint.symm hEndpoint.symm hStep,
      rfl, rfl⟩
  cases hStep with
  | calls hUser hCall => exact hReaches.api hUser hOpen hCall
  | begins => exact hPass rfl hOld
  | ends => exact hPass rfl hOld
  | established => exact hPass rfl (hOld.of_conns_eq rfl)
  | skipped => exact hPass rfl hOld
  | returned => exact hPass rfl hOld
  | handled _ hConn =>
      exact hPass rfl (hOld.assign hConn rfl (fun _ hx => hx))
  | readReady => exact hPass rfl (hOld.of_conns_eq rfl)
  | quiet => exact hPass rfl hOld
  | moved => exact hPass rfl hOld

/-
  `nb__cycle_connections` is a sequence of steps, when its
  callbacks make calls that keep connections open.
-/
theorem cycleConnections_signalReaches
    {U : Type}
    {callback : Callback P U}
    {u u' : U}
    (hCallback : CallsBack fmt cfg KeepsOpen callback)
    (hOld : QueuedOld s.endpoint)
    (hPoint : s.point = .outside)
    (hCycle : cycleConnections callback (s.endpoint, u) =
      .ok (e', u')) :
    SignalReaches fmt cfg s .outside e' := by
  let t : PassState P :=
    ⟨.outside, s.endpoint, fun _ => False, 0⟩
  rcases cycleConnections_steps (t := t) hCallback
      (fun _ => trivial) rfl rfl hCycle with
    ⟨calls, t', hRun, hPoint', hEndpoint'⟩
  have hStart : SignalReaches fmt cfg s t.point
      t.endpoint := by
    have hRefl : SignalReaches fmt cfg s s.point s.endpoint :=
      .refl hOld
    rw [hPoint] at hRefl
    exact hRefl
  have hStep : ∀ t₁ call t₂,
      SignalReaches fmt cfg s t₁.point t₁.endpoint →
      Guarded KeepsOpen (PassStep fmt cfg) t₁ call t₂ →
        SignalReaches fmt cfg s t₂.point t₂.endpoint :=
    fun _ _ _ hReaches hStep => hReaches.pass hStep
  have hEnd := hRun.invariant hStep hStart
  rw [hPoint', hEndpoint'] at hEnd
  exact hEnd

end Refinement

------------------------------------------------------------
-- A Connection That Is Told
------------------------------------------------------------

/- The callback for a connection is called in the first pass. -/
theorem signals_of_run_one :
    ∃ s moves, s.fired 1 = 1 ∧
      Run (SignalStep netPacketFormat
        (plainConfig .srcDstIdentifier))
        (SignalState.start bareStack) moves s ∧
      SignalsInOrder (plainConfig .srcDstIdentifier) s ∧
      ∀ move s', SignalStep netPacketFormat
          (plainConfig .srcDstIdentifier) s move s' →
        ∀ c st, s.endpoint.signaling c = some st →
          ∃ st', s'.endpoint.signaling c = some st' ∧
            Advances st st' := by
  have hOnce : (do
      let e₁ ← establishOne 1 bareStack
      return (e₁.netState.numConn,
        e₁.netState.activeConnections 0,
        (e₁.conns 1).map Connection.signalingState,
        e₁.events)) =
      .ok (1, 1, some .signaled, []) := by
    decide +kernel
  rcases bind_eq_ok_iff.mp hOnce with ⟨e₁, hFirst, hEnd⟩
  simp only [pure_eq_ok, Except.ok.injEq, Prod.mk.injEq,
    Option.map_eq_some_iff] at hEnd
  rcases hEnd with ⟨hNum, hAt, ⟨conn, hConn, hState⟩, hEvents⟩
  let s₁ := (SignalState.start bareStack).opened 1
    (.established 9 8) e₁
  let s₂ : SignalState PacketBuffer :=
    { s₁ with point := .top 0 }
  let t : PassState PacketBuffer :=
    ⟨.outside, e₁, fun _ => False, 0⟩
  have hOpen : SignalStep netPacketFormat
      (plainConfig .srcDstIdentifier)
      (SignalState.start bareStack) (.establishes 1 9 8) s₁ :=
    .establishes (Or.inl rfl)
      (calls_establishOne (by decide) rfl hFirst)
  have hBegin : SignalStep netPacketFormat
      (plainConfig .srcDstIdentifier) s₁ .passes s₂ :=
    .passes (t := t) rfl rfl (.begins rfl)
  have hLt : 0 < t.begins.endpoint.netState.numConn := by
    rw [show t.begins.endpoint = e₁ from rfl, hNum]
    decide
  have hTell : SignalStep netPacketFormat
      (plainConfig .srcDstIdentifier) s₂ .passes
      { s₂ with
        point := .inEstablished 0 1
        endpoint := e₁.notified .established 1 } :=
    .passes (t := t.begins) rfl rfl
      (.established rfl hLt hAt hConn hState)
  have hRun := Run.cons hOpen
    (.cons hBegin (.cons hTell (.nil _)))
  refine ⟨_, _, ?_, hRun,
    signals_of_run (fun _ => rfl) rfl hRun⟩
  simp [SignalState.fired, Endpoint.notified, hEvents]

end NetBlocks
