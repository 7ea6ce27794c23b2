import NetBlocks.Core.Addresses
import NetBlocks.Core.ApiCalls
import NetBlocks.Correctness.TimerDiscipline

/-
  The addresses of every packet handed to the transport, over
  whole runs of the API: who each packet was built for, and
  which of its members are that connection's addresses.

  Main declarations:
    * `Traced` and `Traces`
    * `Addressed`
    * `Attributed`
    * `addressed_iff_of_run`
-/

namespace NetBlocks

open Except TransitionSystem

variable {P : Type}

------------------------------------------------------------
-- Tracing Who Packets Are Built For
------------------------------------------------------------

/-
  An endpoint, with what is remembered of its calls: the
  addresses each connection was last established with, whom
  each buffer was filled for, and whom each packet in `out`
  was built for.
-/
structure Traced (P : Type) where
  endpoint : Endpoint P
  established : ConnPtr → Option Sender
  requestedFor : PacketPtr → Option Sender
  senders : List (Option Sender)

/- The packet a timer is started for. -/
def TimerCall.startedFor : TimerCall → Option PacketPtr
| insertTimer _ _ argument => some argument
| _ => none

/- The packets that timers fire for, in order. -/
def firedPackets
    (e : Endpoint P) : List PacketPtr :=
  (checkCalls e.timeNow (maxTimerAllocs + 1) e.timers
    ).filterMap TimerCall.startedFor

namespace Traced

def start
    (e : Endpoint P) : Traced P where
  endpoint := e
  established := fun _ => none
  requestedFor := fun _ => none
  senders := []

/- What was handed out on the way to `e'` is of `s`. -/
def transmits
    (t : Traced P)
    (s : Option Sender)
    (e' : Endpoint P) : Traced P :=
  { t with
    endpoint := e'
    senders := t.senders ++
      (handedOut t.endpoint e').map (fun _ => s) }

/- The buffers taken on the way were filled for it, too. -/
def requests
    (t : Traced P)
    (s : Option Sender)
    (e' : Endpoint P) : Traced P :=
  { t.transmits s e' with
    requestedFor := fun p =>
      if t.endpoint.nextPacket ≤ p ∧ p < e'.nextPacket then
        s
      else
        t.requestedFor p }

/-
  What is remembered of `nb__establish`. A packet it sends is
  built while `dst_global_id` is what it was in the memory.
-/
def opens
    (t : Traced P)
    (c : ConnPtr)
    (fresh : Connection)
    (h a sa : BitVec 32)
    (e' : Endpoint P) : Traced P :=
  { t.requests (some ⟨h, a, sa, fresh.dstGlobalId⟩) e' with
    established := Function.update t.established c
      (some ⟨h, a, sa, sa⟩) }

/- What is remembered of a call that led to `e'`. -/
def after
    (fmt : PacketFormat P)
    (cfg : Config)
    (t : Traced P)
    (e' : Endpoint P) : Call P → Traced P
| .establish c fresh h a sa => t.opens c fresh h a sa e'
| .send c _ => t.requests (t.established c) e'
| .ingress x _ =>
    t.transmits (t.established
      (routedTo fmt cfg t.endpoint x)) e'
| .checkTimers =>
    { t with
      endpoint := e'
      senders := t.senders ++
        (firedPackets t.endpoint).map t.requestedFor }
| _ => { t with endpoint := e' }

/- What is remembered of a small step of `nb__accept`. -/
def afterMove
    (fmt : PacketFormat P)
    (cfg : Config)
    (t : Traced P)
    (e' : Endpoint P) : AcceptMove → Traced P
| .opens s fresh h a sa => t.opens s fresh h a sa e'
| .replays p =>
    t.transmits (t.established (routedTo fmt cfg t.endpoint
      (t.endpoint.packets p))) e'
| _ => { t with endpoint := e' }

end Traced

/- A small step of `nb__accept`, and what is remembered. -/
def TracesMove
    (fmt : PacketFormat P)
    (cfg : Config)
    (queued : PacketPtr → Prop)
    (t : Traced P)
    (move : AcceptMove)
    (t' : Traced P) : Prop :=
  AcceptStep fmt cfg queued t.endpoint move t'.endpoint ∧
    t' = t.afterMove fmt cfg t'.endpoint move

/- A call of the API, and what is remembered of it. -/
inductive Traces
    (fmt : PacketFormat P)
    (cfg : Config)
    (t : Traced P) : ApiCall P → Traced P → Prop
| call {call : Call P} {e' : Endpoint P} :
    Calls fmt cfg t.endpoint call e' →
    Traces fmt cfg t (.call call) (t.after fmt cfg e' call)
| accept {c s : ConnPtr} {fresh : Connection}
    {moves : List AcceptMove} {t' : Traced P} :
    ApiCalls fmt cfg t.endpoint (.accept c s fresh)
      t'.endpoint →
    Run (TracesMove fmt cfg (IsQueued t.endpoint)) t moves
      t' →
    Traces fmt cfg t (.accept c s fresh) t'

section Tracing

variable
    {fmt : PacketFormat P}
    {cfg : Config}
    {t t' : Traced P}
    {e' : Endpoint P}

@[simp] theorem Traced.after_endpoint
    (call : Call P) :
    (t.after fmt cfg e' call).endpoint = e' := by
  cases call <;> rfl

@[simp] theorem Traced.afterMove_endpoint
    (move : AcceptMove) :
    (t.afterMove fmt cfg e' move).endpoint = e' := by
  cases move <;> rfl

/- Every sequence of small steps can be traced. -/
theorem tracesMove_of_steps
    {queued : PacketPtr → Prop}
    {moves : List AcceptMove}
    {e : Endpoint P}
    (hRun : Run (AcceptStep fmt cfg queued) e moves e')
    (hStart : t.endpoint = e) :
    ∃ t', t'.endpoint = e' ∧
      Run (TracesMove fmt cfg queued) t moves t' := by
  induction hRun generalizing t with
  | nil e => exact ⟨t, hStart, .nil t⟩
  | @cons e₁ e₂ _ move _ hStep _ ih =>
      let t₁ := t.afterMove fmt cfg e₂ move
      have hEnd : t₁.endpoint = e₂ :=
        Traced.afterMove_endpoint move
      rcases ih hEnd with ⟨t', hEndpoint, hRun'⟩
      refine ⟨t', hEndpoint, .cons ⟨?_, ?_⟩ hRun'⟩
      · rw [hEnd, hStart]
        exact hStep
      · rw [hEnd]

/- Every call that returns can be traced. -/
theorem traces_of_apiCalls
    {call : ApiCall P}
    (hOld : QueuedOld t.endpoint)
    (hCall : ApiCalls fmt cfg t.endpoint call e') :
    ∃ t', t'.endpoint = e' ∧ Traces fmt cfg t call t' := by
  cases hCall with
  | @call _ call hCall =>
      exact ⟨t.after fmt cfg e' call,
        Traced.after_endpoint call, .call hCall⟩
  | @accept _ c s _ _ _ hNe hFree hAccept =>
      have hIn : QueuedIn (IsQueued t.endpoint) t.endpoint :=
        queuedIn_iff.mpr (fun _ hp => hp)
      have hHanded := queuedIn_iff.mp hOld
      rcases nbAccept_steps hIn hHanded hNe hFree hAccept with
        ⟨moves, hRun⟩
      rcases tracesMove_of_steps (t := t) hRun rfl with
        ⟨t', rfl, hTraced⟩
      exact ⟨t', rfl,
        .accept (.accept hNe hFree hAccept) hTraced⟩

end Tracing

------------------------------------------------------------
-- What Calls Transmit
------------------------------------------------------------

/- A packet is addressed as its connection was established. -/
structure Addressed
    (fmt : PacketFormat P)
    (e : Endpoint P)
    (s : Sender)
    (x : P) : Prop where
  dstGlobalId : fmt.getWord .dstGlobalId x = s.h
  srcGlobalId : fmt.getWord .srcGlobalId x = e.myHostId
  dstHostId : fmt.getInteger .dstHostId x =
    e.hostLocalId s.h
  srcHostId : fmt.getInteger .srcHostId x = e.myLocalHostId
  dstAppId : fmt.getWord .dstAppId x = s.a
  srcAppId : fmt.getWord .srcAppId x = s.sa

/-
  What sending does: nothing is transmitted, or the packet in
  the next buffer is, built for the sender.
-/
inductive RequestEffect
    (fmt : PacketFormat P)
    (s : Sender)
    (e e' : Endpoint P) : Prop
| nothing :
    e'.out = e.out →
    e'.packets = e.packets →
    e'.nextPacket = e.nextPacket →
    RequestEffect fmt s e e'
| sent {x : P} :
    Built fmt e s x →
    e'.out = e.out ++ [(x, fmt.getWord .computedTotalLen x)] →
    e'.packets = Function.update e.packets e.nextPacket x →
    e'.nextPacket = e.nextPacket + 1 →
    RequestEffect fmt s e e'

section Effects

variable
    {fmt : PacketFormat P}
    {cfg : Config}
    {e e' : Endpoint P}
    {c : ConnPtr}
    {conn fresh : Connection}
    {s : Sender}
    {x : P}
    {h a sa : BitVec 32}

/- An app id below 2^16 is stored as it is. -/
theorem word_of_app
    {f : Field}
    {app : BitVec 32}
    (hBits : f.bits = 16)
    (hSigned : f.signed = false)
    (hApp : app.toNat < 2 ^ 16)
    (hStored : fmt.getInteger f x =
      f.canon (app.setWidth 64)) :
    fmt.getWord f x = app := by
  rw [PacketFormat.getWord, hStored, Field.canon,
    if_neg (by simp [hSigned]), hBits]
  apply BitVec.eq_of_toNat_eq
  simp only [BitVec.toNat_setWidth]
  omega

/- Only the global id of the peer can be wrong. -/
theorem Built.addressed_iff
    (hBuilt : Built fmt e s x)
    (hApp : s.a.toNat < 2 ^ 16)
    (hOwn : s.sa.toNat < 2 ^ 16) :
    Addressed fmt e s x ↔ s.dstGlobalId = s.h := by
  constructor
  · intro hAddressed
    exact hBuilt.dstGlobalId.symm.trans hAddressed.dstGlobalId
  · intro hGlobal
    exact ⟨hBuilt.dstGlobalId.trans hGlobal,
      hBuilt.srcGlobalId, hBuilt.dstHostId, hBuilt.srcHostId,
      word_of_app rfl rfl hApp hBuilt.dstAppId,
      word_of_app rfl rfl hOwn hBuilt.srcAppId⟩

theorem deleteConnection_routingTable
    (n : NetState)
    (flow : FlowIdentifier)
    (appId srcAppId : BitVec 32)
    (srcHostId : BitVec 64) :
    (n.deleteConnection flow appId srcAppId srcHostId
      ).routingTable = n.routingTable := by
  unfold NetState.deleteConnection
  split
  · unfold NetState.removeEntry
    cases flow <;> rfl
  · rfl

theorem Calls.myHostId_eq
    {call : Call P}
    (hCall : Calls fmt cfg e call e') :
    e'.myHostId = e.myHostId := by
  cases hCall with
  | establish _ _ hEstablish =>
      rcases nbEstablish_ok_iff.mp hEstablish with
        ⟨netState, conn', e₁, -, hSignal, rfl⟩
      cases hSignal <;> rfl
  | destablish hDestablish =>
      rcases nbDestablish_ok_iff.mp hDestablish with
        ⟨conn, -, rfl⟩
      rfl
  | send hSend =>
      rcases nbSend_ok_iff.mp hSend with
        ⟨_, _, _, _, _, -, -, -, -, rfl⟩
      rfl
  | ingress hIngress =>
      exact (ingress_iff.mp hIngress).myHostId_eq
  | checkTimers hCheck =>
      rcases checkTimersLoop_frame hCheck with
        ⟨timers, out, rfl⟩
      rfl
  | tick => rfl
  | read hRead =>
      rcases nbRead_frame hRead with ⟨_, _, _, rfl⟩
      rfl

/- No call changes the addresses of the endpoint. -/
theorem Calls.sameHosts
    {call : Call P}
    (hCall : Calls fmt cfg e call e') :
    SameHosts e e' := by
  cases hCall.table with
  | adds hAdds =>
      exact ⟨hCall.myHostId_eq, hAdds.host,
        (NetState.addConnection_entries hAdds.netState).2⟩
  | deletes hDeletes =>
      refine ⟨hCall.myHostId_eq, hDeletes.host, ?_⟩
      rw [hDeletes.netState, deleteConnection_routingTable]
  | same hSame => exact .of_table hCall.myHostId_eq hSame

theorem AcceptStep.sameHosts
    {queued : PacketPtr → Prop}
    {move : AcceptMove}
    (hStep : AcceptStep fmt cfg queued e move e') :
    SameHosts e e' := by
  cases hStep with
  | opens hCall => exact hCall.sameHosts
  | replays _ hPacket hIngress =>
      exact ((runIngressPath_iff (Nat.ne_of_lt hPacket)).mp
        hIngress).sameHosts
  | dequeues => exact ⟨rfl, rfl, rfl⟩
  | signals => exact ⟨rfl, rfl, rfl⟩

/- The object `nb__establish` leaves holds its arguments. -/
theorem heldBy_openedConn
    (hRouting : cfg.routingEnabled = true)
    (fresh : Connection)
    (e : Endpoint P)
    (p : PacketPtr) :
    Sender.HeldBy ⟨h, a, sa, sa⟩ e
      (openedConn cfg fresh (e.hostLocalId h) h a sa p) := by
  have hEntry : (openedConn cfg fresh (e.hostLocalId h) h a sa
      p).tableEntry 0 = ⟨0, sa, a, e.hostLocalId h⟩ :=
    openedConn_tableEntry (e.hostLocalId h) p
  refine ⟨congrArg TableEntry.remoteHostId hEntry,
    congrArg TableEntry.remoteAppId hEntry,
    congrArg TableEntry.localAppId hEntry, ?_⟩
  rw [openedConn, routedConn, if_pos hRouting]

/- A signal is built before routing stores its global id. -/
theorem nbEstablish_requests
    (hRouting : cfg.routingEnabled = true)
    (hHosts : HostsKept e)
    (hEstablish : nbEstablish fmt cfg c fresh h a sa e =
      .ok e') :
    RequestEffect fmt ⟨h, a, sa, fresh.dstGlobalId⟩ e e' := by
  rcases nbEstablish_ok_iff.mp hEstablish with
    ⟨netState, conn', e₁, -, hSignal, rfl⟩
  let conn₀ := establishedConn cfg fresh (e.hostLocalId h) a sa
  let e₀ := e.registered c conn₀ netState
  change SignalResult fmt cfg c conn₀ h a e₀ conn' e₁
    at hSignal
  cases hSignal with
  | wildcard => exact .nothing rfl rfl rfl
  | unsignaled => exact .nothing rfl rfl rfl
  | @signals conn₁ x t timers _ _ hEq hSends =>
      have hHeld : Sender.HeldBy ⟨h, a, sa,
          fresh.dstGlobalId⟩ e conn₁ := by
        rw [hEq]
        exact ⟨rfl, rfl, rfl, rfl⟩
      have hFits : HostsFit conn₁ e.myLocalHostId := by
        rw [hEq]
        exact ⟨Nat.lt_trans (lookup_lt _ _) (by decide),
          Nat.lt_trans hHosts.own (by decide)⟩
      have hBuilt : Built fmt e ⟨h, a, sa,
          fresh.dstGlobalId⟩ x :=
        completePacket_built hRouting hHeld hFits
          (Sends.sized_armPacket (sized_signal _))
          hSends.complete
      refine .sent hBuilt ?_ rfl rfl
      simp [Endpoint.sent, Endpoint.transmit,
        Endpoint.sendPacket, Endpoint.setConn,
        Endpoint.setPacket, Endpoint.requested, e₀,
        Endpoint.registered]

theorem nbSend_requests
    {buff : List Byte}
    {n : Nat}
    (hRouting : cfg.routingEnabled = true)
    (hHosts : HostsKept e)
    (hConn : e.conns c = some conn)
    (hHeld : s.HeldBy e conn)
    (hSend : nbSend fmt cfg c buff e = .ok (n, e')) :
    RequestEffect fmt s e e' := by
  rcases nbSend_ok_iff.mp hSend with
    ⟨conn', y, x, t, timers, hConn', hWrite, hSends, -, rfl⟩
  cases hConn.symm.trans hConn'
  refine .sent (hSends.built hRouting hHeld
    (hHosts.fits hConn) (sized_of_write hWrite)) ?_ rfl rfl
  simp [Endpoint.sent, Endpoint.transmit,
    Endpoint.sendPacket, Endpoint.setConn,
    Endpoint.setPacket, Endpoint.requested]

end Effects

------------------------------------------------------------
-- Timers That Fire
------------------------------------------------------------

section Fired

variable
    {fmt : PacketFormat P}
    {p : PacketPtr}
    {e e' : Endpoint P}

/- The packets of timers that fire are transmitted again. -/
theorem checkTimersLoop_out
    {now : BitVec 64}
    {fuel : Nat}
    (hCheck : checkTimersLoop fmt now fuel e = .ok e') :
    e'.out = e.out ++
      ((checkCalls now fuel e.timers).filterMap
        TimerCall.startedFor).map (e.onWire fmt) := by
  induction fuel generalizing e with
  | zero => cases hCheck
  | succ fuel ih =>
      rw [checkTimersLoop] at hCheck
      rw [checkCalls]
      cases hHead : e.timers.timersHead with
      | none =>
          rw [hHead] at hCheck
          cases hCheck
          exact (List.append_nil _).symm
      | some t =>
          rw [hHead] at hCheck
          dsimp only at hCheck ⊢
          split at hCheck
          · next hDue =>
              rcases bind_eq_ok_iff.mp hCheck with
                ⟨e₁, hCallback, hRest⟩
              simp only [runCallback,
                ReliableModule.redeliveryCb] at hCallback
              rcases bind_eq_ok_iff.mp hCallback with
                ⟨timers, hInsert, hEnd⟩
              cases hEnd
              let p := ((e.timers.removeTimer t
                ).allocatedTimers t).argument
              have hRun : (TimerCall.insertTimer (some t)
                  (now + ReliableModule.redeliveryTimeoutMs)
                  p).run (e.timers.removeTimer t) =
                  .ok timers := hInsert
              rw [if_pos hDue, hRun, ih hRest]
              change (e.out ++ [e.onWire fmt p]) ++ _ =
                e.out ++ (e.onWire fmt p :: _)
              rw [List.append_assoc]
              rfl
          · next hNot =>
              rw [if_neg hNot]
              cases hCheck
              exact (List.append_nil _).symm

/- Only active timers fire. -/
theorem startedFor_active
    {pool : TimerPool}
    {active free : List TimerPtr}
    {now : BitVec 64}
    {fuel : Nat}
    (hPool : pool.Represents active free)
    (hFired : p ∈ (checkCalls now fuel pool).filterMap
      TimerCall.startedFor) :
    ∃ t ∈ active,
      (pool.allocatedTimers t).argument = p := by
  induction fuel generalizing pool active with
  | zero => cases hFired
  | succ fuel ih =>
      rw [checkCalls] at hFired
      cases active with
      | nil =>
          rw [show pool.timersHead = none from
            hPool.active_lists.1] at hFired
          cases hFired
      | cons t rest =>
          rw [show pool.timersHead = some t from
            hPool.active_lists.1] at hFired
          dsimp only at hFired
          split at hFired
          · have hFront : pool.Represents ([] ++ t :: rest)
                free := hPool
            have hRemoved :=
              TimerPool.removeTimer_represents hFront
            rw [List.nil_append] at hRemoved
            have hOff : t ∉ rest ++ free :=
              (List.nodup_cons.mp hPool.nodup).1
            have hArgument :=
              TimerPool.argument_removeTimer pool t
            rcases TimerPool.insertTimer_represents
                (now + ReliableModule.redeliveryTimeoutMs)
                .reliableRedeliveryTimerCb
                ((pool.removeTimer t).allocatedTimers t
                  ).argument hRemoved hOff with
              ⟨pool', hInsert, hPool', hOwn, hOthers⟩
            have hRun : (TimerCall.insertTimer (some t)
                (now + ReliableModule.redeliveryTimeoutMs)
                ((pool.removeTimer t).allocatedTimers t
                  ).argument).run (pool.removeTimer t) =
                .ok pool' := hInsert
            rw [hRun] at hFired
            rcases List.mem_cons.mp hFired with hEq | hRest
            · exact ⟨t, List.mem_cons_self ..,
                (hArgument t).symm.trans hEq.symm⟩
            · rcases ih hPool' hRest with ⟨u, hU, hFor⟩
              refine ⟨u, (TimerPool.insertInto_perm _ _ _ _
                ).mem_iff.mp hU, ?_⟩
              rw [← hFor]
              by_cases hEq : u = t
              · subst hEq
                exact (hArgument u).symm.trans
                  (congrArg (fun load => load.2.1) hOwn).symm
              · exact (hArgument u).symm.trans
                  (TimerPool.argument_eq_of_load_eq
                    (hOthers u hEq)).symm
          · cases hFired

end Fired

------------------------------------------------------------
-- The Invariant
------------------------------------------------------------

/- Packets built for the senders listed, one by one. -/
def SentBy
    (fmt : PacketFormat P)
    (e : Endpoint P)
    (senders : List (Option Sender))
    (packets : List P) : Prop :=
  List.Forall₂ (fun s x => ∃ sender, s = some sender ∧
    Built fmt e sender x) senders packets

/-
  Connections hold what they were established with, and
  packets that were or may be transmitted are built for the
  connection they were requested for.
-/
structure Attributed
    (fmt : PacketFormat P)
    (cfg : Config)
    (t : Traced P) : Prop where
  hosts : HostsKept t.endpoint
  conns : ∀ c conn, t.endpoint.conns c = some conn →
    ∃ s, t.established c = some s ∧ s.HeldBy t.endpoint conn
  requested : ∀ p s, t.requestedFor p = some s →
    p < t.endpoint.nextPacket ∧
      Built fmt t.endpoint s (t.endpoint.packets p)
  queued : QueuedIn (fun p => p < t.endpoint.nextPacket ∧
    t.requestedFor p = none) t.endpoint
  timers : TimersFor fmt cfg (t.requestedFor · ≠ none)
    t.endpoint
  sent : SentBy fmt t.endpoint t.senders
    (t.endpoint.out.map Prod.fst)

section Invariant

variable
    {fmt : PacketFormat P}
    {cfg : Config}
    {t t' : Traced P}
    {e e' : Endpoint P}
    {c : ConnPtr}
    {s : Sender}
    {senders : List (Option Sender)}
    {packets : List P}
    {h a sa : BitVec 32}

theorem SentBy.congr
    (hSent : SentBy fmt e senders packets)
    (hSame : SameHosts e e') :
    SentBy fmt e' senders packets := by
  refine hSent.imp ?_
  rintro s x ⟨sender, hS, hBuilt⟩
  exact ⟨sender, hS, hBuilt.congr hSame (fun _ _ => rfl)⟩

theorem SentBy.append
    {senders' : List (Option Sender)}
    {packets' : List P}
    (hSent : SentBy fmt e senders packets)
    (hMore : SentBy fmt e senders' packets') :
    SentBy fmt e (senders ++ senders')
      (packets ++ packets') :=
  List.rel_append hSent hMore

/- One more packet is transmitted. -/
theorem SentBy.snoc
    {x : P}
    (hSent : SentBy fmt e senders packets)
    (hBuilt : Built fmt e s x) :
    SentBy fmt e (senders ++ [some s]) (packets ++ [x]) :=
  hSent.append (.cons ⟨s, rfl, hBuilt⟩ .nil)

/- What is remembered when nothing was transmitted. -/
theorem Traced.transmits_eq
    (s : Option Sender)
    (hOut : e'.out = t.endpoint.out) :
    t.transmits s e' = { t with endpoint := e' } := by
  rw [Traced.transmits, handedOut_of_eq hOut, List.map_nil,
    List.append_nil]

theorem Traced.transmits_snoc
    {x : P}
    {size : BitVec 32}
    (s : Option Sender)
    (hOut : e'.out = t.endpoint.out ++ [(x, size)]) :
    (t.transmits s e').senders = t.senders ++ [s] := by
  rw [Traced.transmits, handedOut_of_append hOut]
  rfl

/-
  A step that requests nothing: connections keep what they
  hold, and buffers that were requested keep their addresses.
-/
theorem Attributed.quiet
    (hAttributed : Attributed fmt cfg t)
    (hSame : SameHosts t.endpoint e')
    (hHosts : HostsKept e')
    (hConns : ∀ c conn', e'.conns c = some conn' →
      ∃ conn, t.endpoint.conns c = some conn ∧
        conn'.remoteHostId = conn.remoteHostId ∧
        conn'.remoteAppId = conn.remoteAppId ∧
        conn'.localAppId = conn.localAppId ∧
        conn'.dstGlobalId = conn.dstGlobalId)
    (hNext : t.endpoint.nextPacket ≤ e'.nextPacket)
    (hPackets : ∀ p, t.requestedFor p ≠ none →
      p < t.endpoint.nextPacket →
      ∀ f : Field, f.addresses = true →
        fmt.getInteger f (e'.packets p) =
          fmt.getInteger f (t.endpoint.packets p))
    (hQueued : QueuedIn (fun p => p < e'.nextPacket ∧
      t.requestedFor p = none) e')
    (hTimers : TimersFor fmt cfg (t.requestedFor · ≠ none) e')
    (hSent : SentBy fmt e' senders (e'.out.map Prod.fst)) :
    Attributed fmt cfg
      { t with endpoint := e', senders := senders } := by
  refine ⟨hHosts, ?_, ?_, hQueued, hTimers, hSent⟩
  · intro c conn' hConn'
    rcases hConns c conn' hConn' with
      ⟨conn, hConn, hHost, hRemote, hLocal, hGlobal⟩
    rcases hAttributed.conns c conn hConn with
      ⟨s, hEstablished, hHeld⟩
    exact ⟨s, hEstablished, hHeld.congr hSame hHost hRemote
      hLocal hGlobal⟩
  · intro p s hFor
    rcases hAttributed.requested p s hFor with ⟨hOld, hBuilt⟩
    have hSome : t.requestedFor p ≠ none := by
      change t.requestedFor p = some s at hFor
      rw [hFor]
      simp
    exact ⟨Nat.lt_of_lt_of_le hOld hNext,
      hBuilt.congr hSame (hPackets p hSome hOld)⟩

/- A packet is requested for a connection and transmitted. -/
theorem Attributed.requests
    {call : Call P}
    {established : ConnPtr → Option Sender}
    (hAttributed : Attributed fmt cfg t)
    (hCall : Calls fmt cfg t.endpoint call e')
    (hNot : ∀ x len, call ≠ .ingress x len)
    (hEffect : RequestEffect fmt s t.endpoint e')
    (hConns : ∀ c conn, e'.conns c = some conn →
      ∃ s, established c = some s ∧ s.HeldBy e' conn) :
    Attributed fmt cfg
      { t.requests (some s) e' with
        established := established } := by
  have hSame := hCall.sameHosts
  have hOld : ∀ p, p < t.endpoint.nextPacket →
      (t.requests (some s) e').requestedFor p =
        t.requestedFor p :=
    fun p hp => if_neg (fun hNew =>
      Nat.lt_irrefl p (Nat.lt_of_lt_of_le hp hNew.1))
  have hLarger : ∀ p, t.requestedFor p ≠ none →
      (t.requests (some s) e').requestedFor p ≠ none := by
    intro p hFor
    cases hS : t.requestedFor p with
    | none => exact absurd hS hFor
    | some s' =>
        rw [hOld p (hAttributed.requested p s' hS).1]
        exact hFor
  refine ⟨hCall.hostsKept hAttributed.hosts, hConns, ?_, ?_,
    ?_, ?_⟩
  · intro p s' hFor
    by_cases hp : p < t.endpoint.nextPacket
    · have hBefore : t.requestedFor p = some s' :=
        (hOld p hp).symm.trans hFor
      refine ⟨Nat.lt_of_lt_of_le hp hCall.nextPacket_le,
        (hAttributed.requested p s' hBefore).2.congr hSame ?_⟩
      intro f _
      change fmt.getInteger f (e'.packets p) = _
      cases hEffect with
      | nothing _ hPackets => rw [hPackets]
      | sent _ _ hPackets =>
          rw [hPackets,
            Function.update_of_ne (Nat.ne_of_lt hp)]
    · have hAfter : (t.requests (some s) e').requestedFor p =
          some s' := hFor
      by_cases hNew : t.endpoint.nextPacket ≤ p ∧
          p < e'.nextPacket
      · have hIs : some s = some s' :=
          (if_pos hNew).symm.trans hAfter
        cases hIs
        refine ⟨hNew.2, ?_⟩
        change Built fmt e' s (e'.packets p)
        cases hEffect with
        | nothing _ _ hNext =>
            rw [hNext] at hNew
            exact absurd hNew.2 hp
        | sent hBuilt _ hPackets hNext =>
            have hEq : p = t.endpoint.nextPacket := by
              rw [hNext] at hNew
              exact Nat.le_antisymm (Nat.le_of_lt_succ hNew.2)
                hNew.1
            rw [hPackets, hEq, Function.update_self]
            exact hBuilt.congr hSame (fun _ _ => rfl)
      · have hBefore : t.requestedFor p = some s' :=
          (if_neg hNew).symm.trans hAfter
        exact absurd (hAttributed.requested p s' hBefore).1 hp
  · have hIn := hAttributed.queued.mono (fun p hp =>
      (⟨Nat.lt_of_lt_of_le hp.1 hCall.nextPacket_le,
        (hOld p hp.1).trans hp.2⟩ :
        p < e'.nextPacket ∧
          (t.requests (some s) e').requestedFor p = none))
    exact hCall.queuedIn hIn
      (fun x len hEq => absurd hEq (hNot x len))
  · refine (hAttributed.timers.mono hLarger).step
      hAttributed.hosts hCall ?_
    intro _ hNew
    have hIs : (t.requests (some s) e').requestedFor
        t.endpoint.nextPacket = some s :=
      if_pos ⟨Nat.le_refl _, hNew⟩
    rw [hIs]
    simp
  · have hSent := hAttributed.sent.congr hSame
    change SentBy fmt e' (t.transmits (some s) e').senders
      (e'.out.map Prod.fst)
    cases hEffect with
    | nothing hOut =>
        rw [Traced.transmits_eq _ hOut, hOut]
        exact hSent
    | sent hBuilt hOut =>
        rw [Traced.transmits_snoc _ hOut, hOut, List.map_append]
        exact hSent.snoc (hBuilt.congr hSame (fun _ _ => rfl))

/- Objects of connections that no ingress path replaces. -/
theorem TouchesOne.conns
    {p : PacketPtr}
    {conn' : Connection}
    (hTouches : TouchesOne p e e')
    (hConn : e'.conns c = some conn') :
    ∃ conn, e.conns c = some conn ∧
      conn'.remoteHostId = conn.remoteHostId ∧
      conn'.remoteAppId = conn.remoteAppId ∧
      conn'.localAppId = conn.localAppId ∧
      conn'.dstGlobalId = conn.dstGlobalId := by
  rcases hTouches with
    hSame | ⟨d, conn₁, conn₂, hConn₁, hTouches, hConns⟩
  · rw [hSame] at hConn
    exact ⟨conn', hConn, rfl, rfl, rfl, rfl⟩
  · rw [hConns] at hConn
    by_cases hEq : c = d
    · subst hEq
      rw [Function.update_self] at hConn
      cases hConn
      rcases hTouches.kept with
        ⟨hHost, hRemote, hLocal, -, hGlobal⟩
      exact ⟨conn₁, hConn₁, hHost, hRemote, hLocal, hGlobal⟩
    · rw [Function.update_of_ne hEq] at hConn
      exact ⟨conn', hConn, rfl, rfl, rfl, rfl⟩

/- A packet that was received is processed. -/
theorem Attributed.receives
    {p : PacketPtr}
    (hAttributed : Attributed fmt cfg t)
    (hRouting : cfg.routingEnabled = true)
    (hOld : p < t.endpoint.nextPacket)
    (hFor : t.requestedFor p = none)
    (hIngress : runIngressPath fmt cfg p t.endpoint = .ok e') :
    Attributed fmt cfg
      (t.transmits (t.established (routedTo fmt cfg t.endpoint
        (t.endpoint.packets p))) e') := by
  have hBuffer := Nat.ne_of_lt hOld
  have hTouches := runIngressPath_touchesOne hBuffer hIngress
  have hResult := (runIngressPath_iff hBuffer).mp hIngress
  have hSame := hResult.sameHosts
  have hNext := hResult.nextPacket_le
  have hHosts :=
    hResult.sameTable.hostsKept hAttributed.hosts
  refine hAttributed.quiet hSame hHosts
    (fun c conn' hConn => hTouches.conns hConn) hNext ?_ ?_
    (hAttributed.timers.processes (not_not.mpr hFor) hResult)
    ?_
  · intro q hQ hq
    refine hResult.keepsAddresses q ?_ hq
    rintro rfl
    exact hQ hFor
  · exact hTouches.queuedIn
      (hAttributed.queued.mono (fun q hq =>
        ⟨Nat.lt_of_lt_of_le hq.1 hNext, hq.2⟩))
      ⟨Nat.lt_of_lt_of_le hOld hNext, hFor⟩
  · have hSent := hAttributed.sent.congr hSame
    change SentBy fmt e' (t.transmits _ e').senders
      (e'.out.map Prod.fst)
    cases hResult.transmits with
    | nothing hOut =>
        rw [Traced.transmits_eq _ hOut, hOut]
        exact hSent
    | ack hConn hComplete hOut =>
        rcases hAttributed.conns _ _ hConn with
          ⟨s, hEstablished, hHeld⟩
        rw [Traced.transmits_snoc _ hOut, hOut, List.map_append,
          hEstablished]
        have hBuilt : Built fmt t.endpoint s _ :=
          completePacket_built hRouting hHeld
            (hAttributed.hosts.fits hConn)
            (sized_ackPacket _ _) hComplete
        exact hSent.snoc (hBuilt.congr hSame (fun _ _ => rfl))

/- A connection is established. -/
theorem Attributed.opens
    {fresh : Connection}
    (hAttributed : Attributed fmt cfg t)
    (hRouting : cfg.routingEnabled = true)
    (hCall : Calls fmt cfg t.endpoint
      (.establish c fresh h a sa) e') :
    Attributed fmt cfg (t.opens c fresh h a sa e') := by
  have hSame := hCall.sameHosts
  cases hCall with
  | establish hNe hFree hEstablish =>
      refine hAttributed.requests
        (.establish hNe hFree hEstablish) (by simp)
        (nbEstablish_requests hRouting hAttributed.hosts
          hEstablish) ?_
      intro d conn hConn
      rw [nbEstablish_conns hEstablish] at hConn
      by_cases hEq : d = c
      · subst hEq
        rw [Function.update_self] at hConn ⊢
        cases hConn
        exact ⟨_, rfl, (heldBy_openedConn hRouting fresh
          t.endpoint t.endpoint.nextPacket).congr hSame rfl rfl
            rfl rfl⟩
      · rw [Function.update_of_ne hEq] at hConn ⊢
        rcases hAttributed.conns d conn hConn with
          ⟨s, hEstablished, hHeld⟩
        exact ⟨s, hEstablished,
          hHeld.congr hSame rfl rfl rfl rfl⟩

/- A payload is sent. -/
theorem Attributed.sends
    {buff : List Byte}
    (hAttributed : Attributed fmt cfg t)
    (hRouting : cfg.routingEnabled = true)
    (hCall : Calls fmt cfg t.endpoint (.send c buff) e') :
    Attributed fmt cfg (t.requests (t.established c) e') := by
  have hSame := hCall.sameHosts
  have hLive : ∃ conn, t.endpoint.conns c = some conn := by
    cases hCall.conns with
    | numbers hConn => exact ⟨_, hConn⟩
    | touches hNot => exact absurd rfl (hNot c buff)
  rcases hLive with ⟨conn, hConn⟩
  rcases hAttributed.conns c conn hConn with
    ⟨s, hEstablished, hHeld⟩
  rw [hEstablished]
  have hEffect : RequestEffect fmt s t.endpoint e' := by
    cases hCall with
    | send hSend =>
        exact nbSend_requests hRouting hAttributed.hosts hConn
          hHeld hSend
  refine hAttributed.requests hCall (by simp) hEffect ?_
  intro d conn' hConn'
  cases hLive : t.endpoint.conns d with
  | none =>
      cases hCall.conns with
      | @numbers _ _ _ conn₁ hConn₁ hConns =>
          rw [hConns] at hConn'
          by_cases hEq : d = c
          · subst hEq
            rw [hLive] at hConn
            cases hConn
          · rw [Function.update_of_ne hEq, hLive] at hConn'
            cases hConn'
      | touches hNot => exact absurd rfl (hNot c buff)
  | some conn₁ =>
      rcases hCall.kept hLive (by simp) with
        ⟨conn₂, hConn₂, hHost, hRemote, hLocal, hGlobal, -⟩
      cases hConn'.symm.trans hConn₂
      rcases hAttributed.conns d conn₁ hLive with
        ⟨s', hEstablished', hHeld'⟩
      exact ⟨s', hEstablished', hHeld'.congr hSame hHost
        hRemote hLocal hGlobal⟩

/- The buffer of a received packet is taken. -/
theorem Attributed.polled
    (hAttributed : Attributed fmt cfg t)
    (x : P) :
    Attributed fmt cfg
      { t with endpoint := t.endpoint.polled x } := by
  have hSame : SameHosts t.endpoint (t.endpoint.polled x) :=
    ⟨rfl, rfl, rfl⟩
  have hBooks : SameBooks fmt t.endpoint
      (t.endpoint.polled x) := by
    refine ⟨rfl, fun _ => rfl, .of_old (Nat.le_succ _) ?_⟩
    intro q hq
    exact polled_packets_of_ne x (Nat.ne_of_lt hq)
  have hHosts : HostsKept (t.endpoint.polled x) :=
    ⟨hAttributed.hosts.own, hAttributed.hosts.remote⟩
  refine hAttributed.quiet hSame hHosts
    (fun c conn hConn => ⟨conn, hConn, rfl, rfl, rfl, rfl⟩)
    (Nat.le_succ _) ?_ ?_ (hAttributed.timers.of_same hBooks)
    (hAttributed.sent.congr hSame)
  · intro p _ hp f _
    rw [polled_packets_of_ne x (Nat.ne_of_lt hp)]
  · exact QueuedIn.of_conns_eq (hAttributed.queued.mono
      (fun p hp => ⟨Nat.lt_succ_of_lt hp.1, hp.2⟩)) rfl

/- Timers fire. -/
theorem Attributed.fires
    (hAttributed : Attributed fmt cfg t)
    (hCheck : checkTimers fmt t.endpoint = .ok e') :
    Attributed fmt cfg
      (t.after fmt cfg e' .checkTimers) := by
  have hCall : Calls fmt cfg t.endpoint .checkTimers e' :=
    .checkTimers hCheck
  have hOut := checkTimersLoop_out hCheck
  rcases checkTimersLoop_frame hCheck with
    ⟨timers, out, rfl⟩
  have hFired : ∀ p ∈ firedPackets t.endpoint,
      ∃ s, t.requestedFor p = some s := by
    intro p hp
    cases hOn : cfg.reliableEnabled with
    | false =>
        have hHead := hAttributed.timers.off hOn
        rw [firedPackets, checkCalls, hHead] at hp
        cases hp
    | true =>
        rcases hAttributed.timers.timed hOn with
          ⟨active, free, hSlots, hArmed⟩
        rcases startedFor_active hSlots.pool hp with
          ⟨u, hU, rfl⟩
        exact Option.ne_none_iff_exists'.mp (hArmed u hU)
  refine hAttributed.quiet ⟨rfl, rfl, rfl⟩
    (hCall.hostsKept hAttributed.hosts)
    (fun c conn hConn => ⟨conn, hConn, rfl, rfl, rfl, rfl⟩)
    (Nat.le_refl _) (fun _ _ _ _ _ => rfl)
    (hAttributed.queued.of_conns_eq rfl)
    (hAttributed.timers.step hAttributed.hosts hCall
      (fun _ hNew => absurd hNew (Nat.lt_irrefl _))) ?_
  have hAgain : SentBy fmt t.endpoint
      ((firedPackets t.endpoint).map t.requestedFor)
      (((firedPackets t.endpoint).map
        (t.endpoint.onWire fmt)).map Prod.fst) := by
    rw [List.map_map]
    apply List.forall₂_map_left_iff.mpr
    apply List.forall₂_map_right_iff.mpr
    apply List.forall₂_same.mpr
    intro p hp
    rcases hFired p hp with ⟨s, hFor⟩
    exact ⟨s, hFor, (hAttributed.requested p s hFor).2⟩
  rw [hOut, List.map_append]
  exact (hAttributed.sent.append hAgain).congr ⟨rfl, rfl, rfl⟩

/- Other members of one connection are assigned. -/
theorem Attributed.assigns
    {conn conn' : Connection}
    (hAttributed : Attributed fmt cfg t)
    (hConn : t.endpoint.conns c = some conn)
    (hEntry : conn'.tableEntry c = conn.tableEntry c)
    (hGlobal : conn'.dstGlobalId = conn.dstGlobalId)
    (hBuffer : conn'.redeliveryBuffer = conn.redeliveryBuffer)
    (hQueue : ∀ x ∈ conn'.acceptQueue, x ∈ conn.acceptQueue) :
    Attributed fmt cfg
      { t with endpoint := t.endpoint.setConn c conn' } := by
  have hSame : SameTable t.endpoint
      (t.endpoint.setConn c conn') := .setConn hConn hEntry
  have hHosts := hSame.hostsKept hAttributed.hosts
  refine hAttributed.quiet ⟨rfl, rfl, rfl⟩ hHosts ?_
    (Nat.le_refl _) (fun _ _ _ _ _ => rfl)
    (hAttributed.queued.assign hConn rfl hQueue)
    (hAttributed.timers.of_same (.setConn hConn hBuffer))
    (hAttributed.sent.congr ⟨rfl, rfl, rfl⟩)
  intro d conn₁ hConn₁
  by_cases hEq : d = c
  · subst hEq
    rw [Endpoint.setConn_conns_self] at hConn₁
    cases hConn₁
    exact ⟨conn, hConn,
      congrArg TableEntry.remoteHostId hEntry,
      congrArg TableEntry.remoteAppId hEntry,
      congrArg TableEntry.localAppId hEntry, hGlobal⟩
  · rw [Endpoint.setConn_conns_of_ne _ _ hEq] at hConn₁
    exact ⟨conn₁, hConn₁, rfl, rfl, rfl, rfl⟩

/- A connection is torn down. -/
theorem Attributed.frees
    (hAttributed : Attributed fmt cfg t)
    (hCall : Calls fmt cfg t.endpoint (.destablish c) e') :
    Attributed fmt cfg { t with endpoint := e' } := by
  have hHosts := hCall.hostsKept hAttributed.hosts
  have hSame := hCall.sameHosts
  have hQueued : QueuedIn (fun p => p < t.endpoint.nextPacket ∧
      t.requestedFor p = none) e' :=
    hCall.queuedIn hAttributed.queued
      (fun _ _ hEq => by cases hEq)
  have hTimers := hAttributed.timers.step hAttributed.hosts
    hCall (fun _ hNew => by
      cases hCall with
      | destablish hDestablish =>
          rcases nbDestablish_ok_iff.mp hDestablish with
            ⟨conn, -, rfl⟩
          exact absurd hNew (Nat.lt_irrefl _))
  have hSent := hAttributed.sent.congr hSame
  cases hCall with
  | destablish hDestablish =>
      rcases nbDestablish_ok_iff.mp hDestablish with
        ⟨conn, hConn, rfl⟩
      refine hAttributed.quiet hSame hHosts ?_ (Nat.le_refl _)
        (fun _ _ _ _ _ => rfl) hQueued hTimers hSent
      intro d conn₁ hConn₁
      by_cases hEq : d = c
      · simp [hEq] at hConn₁
      · simp only [Function.update_of_ne hEq] at hConn₁
        exact ⟨conn₁, hConn₁, rfl, rfl, rfl, rfl⟩

/- What a call of the API that is not `nb__accept` keeps. -/
theorem Attributed.call
    {call : Call P}
    (hAttributed : Attributed fmt cfg t)
    (hRouting : cfg.routingEnabled = true)
    (hCall : Calls fmt cfg t.endpoint call e') :
    Attributed fmt cfg (t.after fmt cfg e' call) := by
  cases hCall with
  | establish hNe hFree hEstablish =>
      exact hAttributed.opens hRouting
        (.establish hNe hFree hEstablish)
  | destablish hDestablish =>
      exact hAttributed.frees (.destablish hDestablish)
  | send hSend =>
      exact hAttributed.sends hRouting (.send hSend)
  | @ingress _ x len hIngress =>
      have hNone : t.requestedFor t.endpoint.nextPacket =
          none := by
        cases hFor : t.requestedFor t.endpoint.nextPacket with
        | none => rfl
        | some s =>
            exact absurd (hAttributed.requested _ s hFor).1
              (Nat.lt_irrefl _)
      have hPacket : routedTo fmt cfg (t.endpoint.polled x)
          ((t.endpoint.polled x).packets
            t.endpoint.nextPacket) =
          routedTo fmt cfg t.endpoint x := by
        rw [polled_packets_self]
        rfl
      have hReceived := (hAttributed.polled x).receives
        hRouting (Nat.lt_succ_self _) hNone hIngress
      rw [hPacket] at hReceived
      exact hReceived
  | checkTimers hCheck => exact hAttributed.fires hCheck
  | @tick now =>
      have hHosts : HostsKept (tick now t.endpoint) :=
        ⟨hAttributed.hosts.own, hAttributed.hosts.remote⟩
      exact hAttributed.quiet ⟨rfl, rfl, rfl⟩ hHosts
        (fun c conn hConn => ⟨conn, hConn, rfl, rfl, rfl, rfl⟩)
        (Nat.le_refl _) (fun _ _ _ _ _ => rfl)
        (hAttributed.queued.of_conns_eq rfl)
        (hAttributed.timers.of_same
          (.of_packets_eq rfl rfl rfl rfl))
        (hAttributed.sent.congr ⟨rfl, rfl, rfl⟩)
  | read hRead =>
      rcases nbRead_frame hRead with ⟨conn, q, hConn, rfl⟩
      exact hAttributed.assigns hConn rfl rfl rfl
        (fun _ hx => hx)

/- Packets queued before `nb__accept` were requested by none. -/
structure Accepting
    (fmt : PacketFormat P)
    (cfg : Config)
    (queued : PacketPtr → Prop)
    (t : Traced P) : Prop where
  attributed : Attributed fmt cfg t
  queued : ∀ p, queued p → p < t.endpoint.nextPacket ∧
    t.requestedFor p = none

theorem Traced.afterMove_requestedFor
    {p : PacketPtr}
    (move : AcceptMove)
    (hOld : p < t.endpoint.nextPacket) :
    (t.afterMove fmt cfg e' move).requestedFor p =
      t.requestedFor p := by
  cases move with
  | opens =>
      exact if_neg (fun hNew => Nat.lt_irrefl p
        (Nat.lt_of_lt_of_le hOld hNew.1))
  | _ => rfl

/- What a small step of `nb__accept` keeps. -/
theorem TracesMove.accepting
    {queued : PacketPtr → Prop}
    {move : AcceptMove}
    (hRouting : cfg.routingEnabled = true)
    (hAccepting : Accepting fmt cfg queued t)
    (hMove : TracesMove fmt cfg queued t move t') :
    Accepting fmt cfg queued t' := by
  rcases hMove with ⟨hStep, hEq⟩
  have hAttributed := hAccepting.attributed
  have hNext := hStep.nextPacket_le
  refine ⟨?_, ?_⟩
  · rw [hEq]
    generalize t'.endpoint = e' at hStep
    cases hStep with
    | opens hCall => exact hAttributed.opens hRouting hCall
    | replays hQueued hOld hIngress =>
        exact hAttributed.receives hRouting hOld
          (hAccepting.queued _ hQueued).2 hIngress
    | dequeues hConn hQueue =>
        exact hAttributed.assigns hConn rfl rfl rfl hQueue
    | signals hConn =>
        exact hAttributed.assigns hConn rfl rfl rfl
          (fun _ hx => hx)
  · intro p hp
    rcases hAccepting.queued p hp with ⟨hOld, hFor⟩
    refine ⟨Nat.lt_of_lt_of_le hOld hNext, ?_⟩
    rw [hEq, Traced.afterMove_requestedFor move hOld]
    exact hFor

/- What a call of the API keeps. -/
theorem Traces.attributed
    {call : ApiCall P}
    (hRouting : cfg.routingEnabled = true)
    (hAttributed : Attributed fmt cfg t)
    (hTraces : Traces fmt cfg t call t') :
    Attributed fmt cfg t' := by
  cases hTraces with
  | call hCall => exact hAttributed.call hRouting hCall
  | accept _ hRun =>
      have hAccepting : Accepting fmt cfg
          (IsQueued t.endpoint) t := by
        refine ⟨hAttributed, ?_⟩
        rintro p ⟨c, conn, x, hConn, hx, rfl⟩
        exact hAttributed.queued c conn x hConn hx
      exact (hRun.invariant (fun _ _ _ hKept hMove =>
        hMove.accepting hRouting hKept) hAccepting).attributed

/- Nothing was sent, and no timer is active. -/
theorem attributed_start
    (fresh : NetState)
    (hConns : ∀ c, e.conns c = none)
    (hHead : e.timers.timersHead = none)
    (hOut : e.out = []) :
    Attributed fmt cfg (.start (nbNetInit fresh e)) := by
  have hNone : ∀ c, (nbNetInit fresh e).conns c = none :=
    hConns
  rcases timersFor_netInit fresh hConns hHead with
    ⟨hHosts, hTimers⟩
  refine ⟨hHosts, ?_, ?_, ?_, hTimers, ?_⟩
  · intro c conn hConn
    cases (hNone c).symm.trans hConn
  · intro p s hFor
    cases hFor
  · intro c conn x hConn
    cases (hNone c).symm.trans hConn
  · change SentBy fmt _ [] (e.out.map Prod.fst)
    rw [hOut]
    exact .nil

/-
  In every run each packet handed to the transport was built
  for a connection, and has that connection's addresses
  exactly when the `dst_global_id` of the connection was the
  global id of its peer.
-/
theorem addressed_iff_of_run
    {fresh : NetState}
    {calls : List (ApiCall P)}
    (hRouting : cfg.routingEnabled = true)
    (hConns : ∀ c, e.conns c = none)
    (hHead : e.timers.timersHead = none)
    (hOut : e.out = [])
    (hRun : Run (Traces fmt cfg)
      (.start (nbNetInit fresh e)) calls t) :
    List.Forall₂ (fun s x => ∃ sender, s = some sender ∧
        (sender.a.toNat < 2 ^ 16 →
          sender.sa.toNat < 2 ^ 16 →
            (Addressed fmt t.endpoint sender x ↔
              sender.dstGlobalId = sender.h)))
      t.senders (t.endpoint.out.map Prod.fst) := by
  have hAttributed := hRun.invariant
    (fun _ _ _ hKept hStep => hStep.attributed hRouting hKept)
    (attributed_start fresh hConns hHead hOut)
  refine hAttributed.sent.imp ?_
  rintro s x ⟨sender, hS, hBuilt⟩
  exact ⟨sender, hS, fun hApp hOwn =>
    hBuilt.addressed_iff hApp hOwn⟩

end Invariant

------------------------------------------------------------
-- A Packet to the Wrong Host
------------------------------------------------------------

/- The small stack with routing switched on. -/
def routedConfig : Config :=
  { plainConfig .srcDstIdentifier with routingEnabled := true }

/- A connection of app 7 to app 8 at a host, and one send. -/
def sendRouted
    (h : BitVec 32)
    (e : Endpoint PacketBuffer) :
    Except Fault (Endpoint PacketBuffer ×
      Endpoint PacketBuffer) := do
  let e₁ ← nbEstablish netPacketFormat routedConfig 1
    blankConnection h 8 7 e
  let (_, e₂) ← nbSend netPacketFormat routedConfig 1 [104] e₁
  return (e₁, e₂)

/- What is remembered of the two calls. -/
theorem traces_sendRouted
    {h : BitVec 32}
    {e₁ e₂ : Endpoint PacketBuffer}
    (hSends : sendRouted h bareStack = .ok (e₁, e₂))
    (hQuiet : (handedOut bareStack e₁).length = 0)
    (hSent : (handedOut e₁ e₂).length = 1) :
    ∃ calls t, t.endpoint = e₂ ∧
      t.senders = [some ⟨h, 8, 7, 7⟩] ∧
      Run (Traces netPacketFormat routedConfig)
        (.start bareStack) calls t := by
  rcases bind_eq_ok_iff.mp hSends with ⟨e₁', hFirst, hRest⟩
  rcases bind_eq_ok_iff.mp hRest with
    ⟨⟨n, e₂'⟩, hSecond, hEnd⟩
  cases hEnd
  let t₀ : Traced PacketBuffer := .start bareStack
  let t₁ := t₀.after netPacketFormat routedConfig e₁
    (.establish 1 blankConnection h 8 7)
  let t₂ := t₁.after netPacketFormat routedConfig e₂
    (.send 1 [104])
  have hNone : t₁.senders = [] := by
    change [] ++ (handedOut bareStack e₁).map _ = []
    rw [List.length_eq_zero_iff.mp hQuiet]
    rfl
  have hOne : t₂.senders = [some ⟨h, 8, 7, 7⟩] := by
    change t₁.senders ++ (handedOut e₁ e₂).map
      (fun _ => some (⟨h, 8, 7, 7⟩ : Sender)) = _
    rw [hNone, List.map_const', hSent]
    rfl
  have hEstablish : Traces netPacketFormat routedConfig t₀
      (.call (.establish 1 blankConnection h 8 7)) t₁ :=
    .call (.establish (by decide) rfl hFirst)
  have hSend : Traces netPacketFormat routedConfig t₁
      (.call (.send 1 [104])) t₂ :=
    .call (.send hSecond)
  exact ⟨_, t₂, rfl, hOne,
    .cons hEstablish (.cons hSend (.nil t₂))⟩

/- A packet for host 9 carries its own app id as its host. -/
theorem not_forall_addressed :
    ¬ ∀ (fmt : PacketFormat PacketBuffer) cfg e fresh calls
        t,
      cfg.routingEnabled = true →
      (∀ c, e.conns c = none) →
      e.timers.timersHead = none →
      e.out = [] →
      Run (Traces fmt cfg) (.start (nbNetInit fresh e)) calls
        t →
      List.Forall₂ (fun s x => ∃ sender, s = some sender ∧
          (sender.a.toNat < 2 ^ 16 →
            sender.sa.toNat < 2 ^ 16 →
              Addressed fmt t.endpoint sender x))
        t.senders (t.endpoint.out.map Prod.fst) := by
  intro hAll
  have hTable : (do
      let (e₁, e₂) ← sendRouted 9 bareStack
      return ((handedOut bareStack e₁).length,
        (handedOut e₁ e₂).length,
        (e₂.out.map Prod.fst).map
          (netPacketFormat.getWord .dstGlobalId))) =
      .ok (0, 1, [7]) := by
    decide +kernel
  rcases bind_eq_ok_iff.mp hTable with
    ⟨⟨e₁, e₂⟩, hSends, hEnd⟩
  simp only [pure_eq_ok, Except.ok.injEq, Prod.mk.injEq]
    at hEnd
  rcases hEnd with ⟨hQuiet, hSent, hOut⟩
  rcases traces_sendRouted hSends hQuiet hSent with
    ⟨calls, t, rfl, hSenders, hRun⟩
  have hHolds := hAll netPacketFormat routedConfig bareEndpoint
    blankNetState calls t rfl (fun _ => rfl) rfl rfl hRun
  rw [hSenders] at hHolds
  rcases List.map_eq_singleton_iff.mp hOut with
    ⟨x, hOne, hGlobal⟩
  rw [hOne] at hHolds
  cases hHolds with
  | cons hFirst _ =>
      rcases hFirst with ⟨sender, hS, hAddressed⟩
      cases hS
      have hHost := (hAddressed (by decide) (by decide)
        ).dstGlobalId
      rw [hGlobal] at hHost
      exact absurd hHost (by decide)

/- A packet for host 7 carries the addresses it should. -/
theorem addressed_iff_of_run_one :
    ∃ (t : Traced PacketBuffer) (x : PacketBuffer),
      t.endpoint.out.map Prod.fst = [x] ∧
        Addressed netPacketFormat t.endpoint ⟨7, 8, 7, 7⟩
          x := by
  have hTable : (do
      let (e₁, e₂) ← sendRouted 7 bareStack
      return ((handedOut bareStack e₁).length,
        (handedOut e₁ e₂).length)) = .ok (0, 1) := by
    decide +kernel
  rcases bind_eq_ok_iff.mp hTable with
    ⟨⟨e₁, e₂⟩, hSends, hEnd⟩
  simp only [pure_eq_ok, Except.ok.injEq, Prod.mk.injEq]
    at hEnd
  rcases traces_sendRouted hSends hEnd.1 hEnd.2 with
    ⟨calls, t, rfl, hSenders, hRun⟩
  have hHolds := addressed_iff_of_run rfl (fun _ => rfl) rfl
    rfl hRun
  rw [hSenders] at hHolds
  generalize hPackets : t.endpoint.out.map Prod.fst = packets
    at hHolds
  cases hHolds with
  | cons hFirst hNone =>
      cases hNone
      rcases hFirst with ⟨sender, hS, hIff⟩
      cases hS
      exact ⟨t, _, hPackets,
        (hIff (by decide) (by decide)).mpr rfl⟩

end NetBlocks
