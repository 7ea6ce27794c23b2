import NetBlocks.Core.Calls

/-
  What each call does to the connection objects, as an
  equation for the objects after it.

  Main declarations:
    * `openedConn`
    * `Touches`
    * `Announces` and `Calls.announces`
    * `Takes` and `Calls.takes`
    * `ConnEffect` and `Calls.conns`
-/

namespace NetBlocks

open Except

variable {P : Type}

------------------------------------------------------------
-- Establishing
------------------------------------------------------------

/-
  What signaling makes of a new connection. Its packet, if
  there is one, is in the buffer at `p`.
-/
def signaledConn
    (cfg : Config)
    (h a : BitVec 32)
    (p : PacketPtr)
    (conn : Connection) : Connection :=
  if IsWildcard h a then
    { conn with signalingState := .signalNa }
  else if cfg.signalingEnabled then
    numberedConn cfg
      { conn with signalingState := .waitingForSignal } p
  else
    { conn with signalingState := .signaled }

/- The object `nb__establish` leaves behind. -/
def openedConn
    (cfg : Config)
    (fresh : Connection)
    (hostLocalId : BitVec 64)
    (h a sa : BitVec 32)
    (p : PacketPtr) : Connection :=
  routedConn cfg sa (signaledConn cfg h a p
    (establishedConn cfg fresh hostLocalId a sa))

section Establish

variable
    {fmt : PacketFormat P}
    {cfg : Config}
    {c : ConnPtr}
    {conn conn' fresh : Connection}
    {h a sa : BitVec 32}
    {e e₁ e' : Endpoint P}

/- Signaling assigns to the new object only. -/
theorem SignalResult.conns
    (hSignal : SignalResult fmt cfg c conn h a e conn' e') :
    e'.conns = Function.update e.conns c (some conn') := by
  cases hSignal <;> rfl

theorem SignalResult.conn_eq
    (hSignal : SignalResult fmt cfg c conn h a e conn' e') :
    conn' = signaledConn cfg h a e.nextPacket conn := by
  unfold signaledConn
  cases hSignal with
  | wildcard hIs hEq => rw [if_pos hIs, hEq]
  | unsignaled hNot hOff hEq =>
      rw [if_neg hNot, if_neg (by simp [hOff]), hEq]
  | signals hNot hOn hEq =>
      rw [if_neg hNot, if_pos hOn, hEq]

theorem nbEstablish_conns
    (hEstablish : nbEstablish fmt cfg c fresh h a sa e =
      .ok e') :
    e'.conns = Function.update e.conns c
      (some (openedConn cfg fresh (e.hostLocalId h) h a sa
        e.nextPacket)) := by
  rcases nbEstablish_ok_iff.mp hEstablish with
    ⟨netState, conn', e₁, -, hSignal, rfl⟩
  change Function.update e₁.conns c _ = _
  rw [hSignal.conns, Function.update_idem, hSignal.conn_eq]
  exact Function.update_idem _ _ _

/- Routing and signaling leave the table entry alone. -/
theorem openedConn_tableEntry
    (hostLocalId : BitVec 64)
    (p : PacketPtr) :
    (openedConn cfg fresh hostLocalId h a sa p).tableEntry c =
      ⟨c, sa, a, hostLocalId⟩ := by
  have hRouted : ∀ conn : Connection,
      (routedConn cfg sa conn).tableEntry c =
        conn.tableEntry c := by
    intro conn
    unfold routedConn
    split <;> rfl
  rw [openedConn, hRouted, signaledConn]
  split
  · rfl
  · split <;> rfl

/- The inorder module starts from the same state. -/
theorem openedConn_inorderView
    (cfg : Config)
    (fresh : Connection)
    (hostLocalId : BitVec 64)
    (h a sa : BitVec 32)
    (p : PacketPtr) :
    (openedConn cfg fresh hostLocalId h a sa p).inorderView =
      (establishedConn cfg fresh hostLocalId a sa
        ).inorderView := by
  have hRouted : ∀ conn : Connection,
      (routedConn cfg sa conn).inorderView =
        conn.inorderView := by
    intro conn
    unfold routedConn
    split <;> rfl
  rw [openedConn, hRouted, signaledConn]
  split
  · rfl
  · split <;> rfl

end Establish

------------------------------------------------------------
-- Touched Connections
------------------------------------------------------------

/-
  The ways in which the packet at `p`, on the ingress path,
  or a read changes the connection it is for.
-/
inductive Touches
    (p : PacketPtr)
    (conn : Connection) : Connection → Prop
| parked (x : AcceptEntry) :
    x.packet = p →
    Touches p conn
      { conn with acceptQueue := conn.acceptQueue ++ [x] }
| acked (b : Slot → Option PacketPtr) :
    Touches p conn { conn with redeliveryBuffer := b }
| arrived (status : HookStatus) (v : InorderView) :
    Touches p conn (arrivedConn conn status v)
| taken (q : DataQueue) :
    Touches p conn { conn with inputQueue := q }

/- The members that no packet received and no read assigns. -/
theorem Touches.kept
    {p : PacketPtr}
    {conn conn' : Connection}
    (hTouches : Touches p conn conn') :
    conn'.remoteHostId = conn.remoteHostId ∧
      conn'.remoteAppId = conn.remoteAppId ∧
      conn'.localAppId = conn.localAppId ∧
      conn'.lastSentSequence = conn.lastSentSequence ∧
      conn'.dstGlobalId = conn.dstGlobalId := by
  cases hTouches with
  | arrived status v =>
      unfold arrivedConn
      dsimp only
      split <;> exact ⟨rfl, rfl, rfl, rfl, rfl⟩
  | _ => exact ⟨rfl, rfl, rfl, rfl, rfl⟩

/- At most one connection changed, and only in those ways. -/
def TouchesOne
    (p : PacketPtr)
    (e e' : Endpoint P) : Prop :=
  e'.conns = e.conns ∨
    ∃ c conn conn', e.conns c = some conn ∧
      Touches p conn conn' ∧
      e'.conns = Function.update e.conns c (some conn')

/- An entry is put at the end of an accept queue. -/
theorem insertAcceptQueue_ok_iff
    {q q' : AcceptQueue}
    {srcAppId : BitVec 32}
    {srcHostId : BitVec 64}
    {p : PacketPtr} :
    insertAcceptQueue q srcAppId srcHostId p = .ok q' ↔
      q.length < maxAcceptQueueElems ∧
        q' = q ++ [⟨srcAppId, srcHostId, p⟩] := by
  unfold insertAcceptQueue
  split
  · next hLt => simp [hLt, eq_comm]
  · next hGe => simp [hGe]

section Touched

variable
    {fmt : PacketFormat P}
    {cfg : Config}
    {p : PacketPtr}
    {c : ConnPtr}
    {e e' : Endpoint P}

theorem FrontResult.touchesOne
    {status : HookStatus}
    (hFront : FrontResult fmt cfg p e status e') :
    TouchesOne p e e' := by
  cases hFront with
  | rejected => exact Or.inl rfl
  | unclaimed => exact Or.inl rfl
  | parked _ _ _ _ _ _ hConn hInsert =>
      rcases insertAcceptQueue_ok_iff.mp hInsert with ⟨-, rfl⟩
      exact Or.inr ⟨_, _, _, hConn, .parked _ rfl, rfl⟩
  | routed => exact Or.inl rfl

theorem BackResult.touchesOne
    {q : PacketPtr}
    {status : HookStatus}
    (hBack : BackResult fmt cfg p c e status e') :
    TouchesOne q e e' := by
  cases hBack with
  | ack _ _ hReceive =>
      rcases receiveAck_ok_iff.mp hReceive with
        ⟨conn, hConn, ⟨-, rfl⟩ | ⟨_, t, -, -, rfl⟩⟩
      · exact Or.inl rfl
      · exact Or.inr ⟨_, _, _, hConn, .acked _, rfl⟩
  | @data _ e₁ status v _ _ hConn hAcked _ =>
      refine Or.inr ⟨_, _, _, hConn, .arrived status v, ?_⟩
      change Function.update e₁.conns c _ = _
      rw [hAcked.conns_eq]

theorem runIngressPath_touchesOne
    (hBuffer : p ≠ e.nextPacket)
    (hIngress : runIngressPath fmt cfg p e = .ok e') :
    TouchesOne p e e' := by
  cases (runIngressPath_iff hBuffer).mp hIngress with
  | dropped hFront => exact hFront.touchesOne
  | routed _ _ _ hBack => exact hBack.touchesOne

theorem ingress_touchesOne
    {x : P}
    {len : Int}
    (hIngress : ingress fmt cfg x len e = .ok e') :
    TouchesOne e.nextPacket e e' := by
  cases ingress_iff.mp hIngress with
  | dropped hFront => exact hFront.touchesOne
  | routed _ _ _ hBack => exact hBack.touchesOne

theorem nbRead_touchesOne
    {maxLen : Int}
    {bytes : List Byte}
    (hRead : nbRead fmt c maxLen e = .ok (bytes, e')) :
    TouchesOne p e e' := by
  rcases nbRead_frame hRead with ⟨conn, queue, hConn, rfl⟩
  exact Or.inr ⟨_, _, _, hConn, .taken _, rfl⟩

/-
  The callbacks made since: none but to tell a listener of a
  packet that was parked.
-/
def Announces
    (e e' : Endpoint P) : Prop :=
  ∃ listeners : List ConnPtr, e'.events = e.events ++
    listeners.map (fun c => (.acceptReady, c))

theorem Announces.of_eq
    (hEvents : e'.events = e.events) :
    Announces e e' :=
  ⟨[], by simp [hEvents]⟩

theorem Announces.trans
    {e₁ : Endpoint P}
    (hFirst : Announces e e₁)
    (hSecond : Announces e₁ e') :
    Announces e e' := by
  rcases hFirst with ⟨first, hFirst⟩
  rcases hSecond with ⟨second, hSecond⟩
  refine ⟨first ++ second, ?_⟩
  rw [hSecond, hFirst, List.map_append, List.append_assoc]

theorem FrontResult.announces
    {status : HookStatus}
    (hFront : FrontResult fmt cfg p e status e') :
    Announces e e' := by
  cases hFront with
  | parked => exact ⟨[_], rfl⟩
  | rejected => exact .of_eq rfl
  | unclaimed => exact .of_eq rfl
  | routed => exact .of_eq rfl

theorem BackResult.events
    {status : HookStatus}
    (hBack : BackResult fmt cfg p c e status e') :
    e'.events = e.events := by
  cases hBack with
  | ack _ _ hReceive =>
      rcases receiveAck_ok_iff.mp hReceive with
        ⟨conn, -, ⟨-, rfl⟩ | ⟨_, t, -, -, rfl⟩⟩ <;> rfl
  | data _ _ hAcked _ =>
      cases hAcked <;> rfl

theorem IngressResult.announces
    (hIngress : IngressResult fmt cfg p e e') :
    Announces e e' := by
  cases hIngress with
  | dropped hFront => exact hFront.announces
  | routed _ _ _ hBack => exact .of_eq hBack.events

theorem Calls.announces
    {call : Call P}
    (hCall : Calls fmt cfg e call e') :
    Announces e e' := by
  cases hCall with
  | establish _ _ hEstablish =>
      rcases nbEstablish_ok_iff.mp hEstablish with
        ⟨netState, conn', e₁, -, hSignal, rfl⟩
      cases hSignal <;> exact .of_eq rfl
  | destablish hDestablish =>
      rcases nbDestablish_ok_iff.mp hDestablish with
        ⟨conn, -, rfl⟩
      exact .of_eq rfl
  | send hSend =>
      rcases nbSend_ok_iff.mp hSend with
        ⟨_, _, _, _, _, -, -, -, -, rfl⟩
      exact .of_eq rfl
  | ingress hIngress =>
      exact (ingress_iff.mp hIngress).announces
  | checkTimers hCheck =>
      rcases checkTimersLoop_frame hCheck with
        ⟨timers, out, rfl⟩
      exact .of_eq rfl
  | tick => exact .of_eq rfl
  | read hRead =>
      rcases nbRead_frame hRead with ⟨_, _, _, rfl⟩
      exact .of_eq rfl

/- Buffers are taken in order. -/
theorem IngressResult.nextPacket_le
    (hIngress : IngressResult fmt cfg p e e') :
    e.nextPacket ≤ e'.nextPacket := by
  cases hIngress with
  | dropped hFront =>
      cases hFront <;> exact Nat.le_refl _
  | routed _ _ _ hBack =>
      cases hBack with
      | ack _ _ hReceive =>
          rcases receiveAck_ok_iff.mp hReceive with
            ⟨conn, -, ⟨-, rfl⟩ | ⟨_, t, -, -, rfl⟩⟩ <;>
              exact Nat.le_refl _
      | data _ _ hAcked _ =>
          cases hAcked with
          | off => exact Nat.le_refl _
          | sent => exact Nat.le_succ _

theorem Calls.nextPacket_le
    {call : Call P}
    (hCall : Calls fmt cfg e call e') :
    e.nextPacket ≤ e'.nextPacket := by
  cases hCall with
  | establish _ _ hEstablish =>
      rcases nbEstablish_ok_iff.mp hEstablish with
        ⟨netState, conn', e₁, -, hSignal, rfl⟩
      cases hSignal with
      | wildcard => exact Nat.le_refl _
      | unsignaled => exact Nat.le_refl _
      | signals => exact Nat.le_succ _
  | destablish hDestablish =>
      rcases nbDestablish_ok_iff.mp hDestablish with
        ⟨conn, -, rfl⟩
      exact Nat.le_refl _
  | send hSend =>
      rcases nbSend_ok_iff.mp hSend with
        ⟨_, _, _, _, _, -, -, -, -, rfl⟩
      exact Nat.le_succ _
  | ingress hIngress =>
      exact Nat.le_of_succ_le
        (ingress_iff.mp hIngress).nextPacket_le
  | checkTimers hCheck =>
      rcases checkTimersLoop_frame hCheck with
        ⟨timers, out, rfl⟩
      exact Nat.le_refl _
  | tick => exact Nat.le_refl _
  | read hRead =>
      rcases nbRead_frame hRead with ⟨_, _, _, rfl⟩
      exact Nat.le_refl _

/-
  At most one buffer is taken, and nothing but the next
  buffer is written then.
-/
inductive Takes
    (e e' : Endpoint P) : Prop
| nothing :
    e'.nextPacket = e.nextPacket →
    e'.packets = e.packets →
    Takes e e'
| next :
    e'.nextPacket = e.nextPacket + 1 →
    (∀ q, q ≠ e.nextPacket → e'.packets q = e.packets q) →
    Takes e e'

theorem Acked.takes
    {conn : Connection}
    {seq : BitVec 32}
    (hAcked : Acked fmt cfg conn seq e e') :
    Takes e e' := by
  cases hAcked with
  | off => exact .nothing rfl rfl
  | sent =>
      apply Takes.next rfl
      intro q hNe
      exact Endpoint.setPacket_packets_of_ne e.requested _ hNe

/- Receiving writes to the buffer of the packet as well. -/
theorem Calls.takes
    {call : Call P}
    (hNot : ∀ x len, call ≠ .ingress x len)
    (hCall : Calls fmt cfg e call e') :
    Takes e e' := by
  cases hCall with
  | establish _ _ hEstablish =>
      rcases nbEstablish_ok_iff.mp hEstablish with
        ⟨netState, conn', e₁, -, hSignal, rfl⟩
      cases hSignal with
      | wildcard => exact .nothing rfl rfl
      | unsignaled => exact .nothing rfl rfl
      | signals =>
          apply Takes.next rfl
          intro q hNe
          exact Endpoint.setPacket_packets_of_ne _ _ hNe
  | destablish hDestablish =>
      rcases nbDestablish_ok_iff.mp hDestablish with
        ⟨conn, -, rfl⟩
      exact .nothing rfl rfl
  | send hSend =>
      rcases nbSend_ok_iff.mp hSend with
        ⟨_, _, _, _, _, -, -, -, -, rfl⟩
      apply Takes.next rfl
      intro q hNe
      exact Endpoint.setPacket_packets_of_ne _ _ hNe
  | @ingress _ x len => exact absurd rfl (hNot x len)
  | checkTimers hCheck =>
      rcases checkTimersLoop_frame hCheck with
        ⟨timers, out, rfl⟩
      exact .nothing rfl rfl
  | tick => exact .nothing rfl rfl
  | read hRead =>
      rcases nbRead_frame hRead with ⟨_, _, _, rfl⟩
      exact .nothing rfl rfl

end Touched

------------------------------------------------------------
-- Calls
------------------------------------------------------------

/- What a call does to the connection objects. -/
inductive ConnEffect
    (cfg : Config)
    (e : Endpoint P) :
    Call P → Endpoint P → Prop
| opens {e' : Endpoint P} {c : ConnPtr} {fresh : Connection}
    {h a sa : BitVec 32} :
    c ≠ 0 →
    e.conns c = none →
    e'.conns = Function.update e.conns c
      (some (openedConn cfg fresh (e.hostLocalId h) h a sa
        e.nextPacket)) →
    ConnEffect cfg e (.establish c fresh h a sa) e'
| frees {e' : Endpoint P} {c : ConnPtr} {conn : Connection} :
    e.conns c = some conn →
    e'.conns = Function.update e.conns c none →
    ConnEffect cfg e (.destablish c) e'
| numbers {e' : Endpoint P} {c : ConnPtr} {buff : List Byte}
    {conn : Connection} :
    e.conns c = some conn →
    e'.conns = Function.update e.conns c
      (some (numberedConn cfg conn e.nextPacket)) →
    ConnEffect cfg e (.send c buff) e'
| touches {e' : Endpoint P} {call : Call P} :
    (∀ c buff, call ≠ .send c buff) →
    TouchesOne e.nextPacket e e' →
    ConnEffect cfg e call e'

theorem Calls.conns
    {fmt : PacketFormat P}
    {cfg : Config}
    {e e' : Endpoint P}
    {call : Call P}
    (hCall : Calls fmt cfg e call e') :
    ConnEffect cfg e call e' := by
  cases hCall with
  | establish hNe hFree hEstablish =>
      exact .opens hNe hFree (nbEstablish_conns hEstablish)
  | destablish hDestablish =>
      rcases nbDestablish_ok_iff.mp hDestablish with
        ⟨conn, hConn, rfl⟩
      exact .frees hConn rfl
  | send hSend =>
      rcases nbSend_ok_iff.mp hSend with
        ⟨conn, y, x, t, timers, hConn, -, -, -, rfl⟩
      exact .numbers hConn rfl
  | ingress hIngress =>
      exact .touches (by simp) (ingress_touchesOne hIngress)
  | checkTimers hCheck =>
      rcases checkTimersLoop_frame hCheck with
        ⟨timers, out, rfl⟩
      exact .touches (by simp) (Or.inl rfl)
  | tick => exact .touches (by simp) (Or.inl rfl)
  | read hRead =>
      exact .touches (by simp) (nbRead_touchesOne hRead)

/-
  A connection that is not freed by a call keeps the members
  only `nb__establish` and `nb__send` assign; a send counts
  its number up.
-/
theorem Calls.kept
    {fmt : PacketFormat P}
    {cfg : Config}
    {e e' : Endpoint P}
    {call : Call P}
    {c : ConnPtr}
    {conn : Connection}
    (hCall : Calls fmt cfg e call e')
    (hConn : e.conns c = some conn)
    (hOpen : call ≠ .destablish c) :
    ∃ conn', e'.conns c = some conn' ∧
      conn'.remoteHostId = conn.remoteHostId ∧
      conn'.remoteAppId = conn.remoteAppId ∧
      conn'.localAppId = conn.localAppId ∧
      conn'.dstGlobalId = conn.dstGlobalId ∧
      ((∃ buff, call = .send c buff) ∧
          conn'.lastSentSequence = conn.lastSentSequence + 1 ∨
        (∀ buff, call ≠ .send c buff) ∧
          conn'.lastSentSequence = conn.lastSentSequence) := by
  cases hCall.conns with
  | @opens _ d _ _ _ _ _ hFree hConns =>
      have hNe : c ≠ d := by
        rintro rfl
        rw [hFree] at hConn
        cases hConn
      refine ⟨conn, ?_, rfl, rfl, rfl, rfl,
        Or.inr ⟨by simp, rfl⟩⟩
      rw [hConns, Function.update_of_ne hNe, hConn]
  | @frees _ d _ _ hConns =>
      have hNe : c ≠ d := by
        rintro rfl
        exact hOpen rfl
      refine ⟨conn, ?_, rfl, rfl, rfl, rfl,
        Or.inr ⟨by simp, rfl⟩⟩
      rw [hConns, Function.update_of_ne hNe, hConn]
  | @numbers _ d buff conn₁ hConn₁ hConns =>
      by_cases hEq : c = d
      · subst hEq
        cases hConn.symm.trans hConn₁
        exact ⟨numberedConn cfg conn e.nextPacket,
          by rw [hConns, Function.update_self],
          rfl, rfl, rfl, rfl, Or.inl ⟨⟨buff, rfl⟩, rfl⟩⟩
      · refine ⟨conn, ?_, rfl, rfl, rfl, rfl,
          Or.inr ⟨?_, rfl⟩⟩
        · rw [hConns, Function.update_of_ne hEq, hConn]
        · rintro buff' hSend
          cases hSend
          exact hEq rfl
  | touches hNot hTouches =>
      rcases hTouches with
        hSame | ⟨d, conn₁, conn₂, hConn₁, hTouches, hConns⟩
      · exact ⟨conn, by rw [hSame, hConn], rfl, rfl, rfl, rfl,
          Or.inr ⟨hNot c, rfl⟩⟩
      · by_cases hEq : c = d
        · subst hEq
          cases hConn.symm.trans hConn₁
          rcases hTouches.kept with
            ⟨hHost, hRemote, hLocal, hLast, hGlobal⟩
          exact ⟨_, by rw [hConns, Function.update_self],
            hHost, hRemote, hLocal, hGlobal,
            Or.inr ⟨hNot c, hLast⟩⟩
        · refine ⟨conn, ?_, rfl, rfl, rfl, rfl,
            Or.inr ⟨hNot c, rfl⟩⟩
          rw [hConns, Function.update_of_ne hEq, hConn]

end NetBlocks
