import NetBlocks.Core.CallEffects
import NetBlocks.Core.Delivery
import NetBlocks.Lib.SwapRemoval

/-
  A packet that was received before is run through the
  ingress path again, and goes to a connection.

  Main declarations:
    * `receiver`
    * `Replays` and `replays_iff`
    * `Replays.delivers`
    * `Replays.setConn`
    * `replays_of_receiver`
-/

namespace NetBlocks

open Except TransitionSystem

variable {P : Type}

------------------------------------------------------------
-- Receivers
------------------------------------------------------------

/-
  The connection that the ingress path hands a packet to. The
  packet at `p` may also be dropped or parked instead.
-/
def receiver
    (fmt : PacketFormat P)
    (cfg : Config)
    (p : PacketPtr)
    (e : Endpoint P) : Option ConnPtr :=
  match checkPacket fmt cfg (e.packets p) with
  | .ok (y, true) =>
      if fmt.getInteger .dstHostId y = e.myLocalHostId ∧
          lookup fmt cfg e y ≠ 0 then
        some (lookup fmt cfg e y)
      else
        none
  | _ => none

/- The packet at `p` is processed, as one for `s`. -/
structure Replays
    (fmt : PacketFormat P)
    (cfg : Config)
    (s : ConnPtr)
    (e : Endpoint P)
    (p : PacketPtr)
    (e' : Endpoint P) : Prop where
  handedOut : p < e.nextPacket
  receiver : receiver fmt cfg p e = some s
  ingress : runIngressPath fmt cfg p e = .ok e'

section Receivers

variable
    {fmt : PacketFormat P}
    {cfg : Config}
    {p : PacketPtr}
    {s : ConnPtr}
    {e e' : Endpoint P}

theorem receiver_eq_some_iff :
    receiver fmt cfg p e = some s ↔
      ∃ y, checkPacket fmt cfg (e.packets p) =
          .ok (y, true) ∧
        fmt.getInteger .dstHostId y = e.myLocalHostId ∧
        lookup fmt cfg e y = s ∧ s ≠ 0 := by
  unfold receiver
  cases hCheck : checkPacket fmt cfg (e.packets p) with
  | error fault => simp
  | ok result =>
      rcases result with ⟨y, passes⟩
      cases passes with
      | false => simp
      | true =>
          dsimp only
          constructor
          · intro hReceiver
            split at hReceiver
            · next hBoth =>
                cases hReceiver
                exact ⟨y, rfl, hBoth.1, rfl, hBoth.2⟩
            · cases hReceiver
          · rintro ⟨z, hz, hHost, rfl, hNe⟩
            cases hz
            rw [if_pos ⟨hHost, hNe⟩]

/- A packet that is handed to `s` is worked on there. -/
theorem replays_iff :
    Replays fmt cfg s e p e' ↔
      p < e.nextPacket ∧
        ∃ y status,
          checkPacket fmt cfg (e.packets p) = .ok (y, true) ∧
          fmt.getInteger .dstHostId y = e.myLocalHostId ∧
          lookup fmt cfg e y = s ∧ s ≠ 0 ∧
          BackResult fmt cfg p s (e.setPacket p
            (fmt.setInteger .flowIdentifier s y)) status
            e' := by
  constructor
  · rintro ⟨hOld, hReceiver, hIngress⟩
    rcases receiver_eq_some_iff.mp hReceiver with
      ⟨y, hCheck, hHost, rfl, hNe⟩
    refine ⟨hOld, ?_⟩
    cases (runIngressPath_iff (Nat.ne_of_lt hOld)).mp
        hIngress with
    | dropped hFront =>
        cases hFront with
        | rejected hCheck' => cases hCheck.symm.trans hCheck'
        | unclaimed hCheck' hOther =>
            cases hCheck.symm.trans hCheck'
            rcases hOther with hOther | ⟨hNone, -⟩
            · exact absurd hHost hOther
            · exact absurd hNone hNe
        | parked hCheck' _ hNone =>
            cases hCheck.symm.trans hCheck'
            exact absurd hNone hNe
    | routed hCheck' _ _ hBack =>
        cases hCheck.symm.trans hCheck'
        exact ⟨y, _, hCheck, hHost, rfl, hNe, hBack⟩
  · rintro ⟨hOld, y, status, hCheck, hHost, rfl, hNe, hBack⟩
    exact ⟨hOld,
      receiver_eq_some_iff.mpr ⟨y, hCheck, hHost, rfl, hNe⟩,
      (runIngressPath_iff (Nat.ne_of_lt hOld)).mpr
        (.routed hCheck hHost hNe hBack)⟩

end Receivers

------------------------------------------------------------
-- What Is Delivered
------------------------------------------------------------

/- The packets a connection holds, queued or shelved. -/
def Connection.held
    (strategy : InorderStrategy)
    (conn : Connection) : Nat :=
  conn.inputQueue.length + conn.inorderView.shelved strategy

/-
  What handing the packet at `p` to a connection changes:
  that connection, its packets, and the buffers of packets
  that are sent.
-/
structure Delivers
    (strategy : InorderStrategy)
    (p : PacketPtr)
    (s : ConnPtr)
    (conn conn' : Connection)
    (e e' : Endpoint P) : Prop where
  found : e.conns s = some conn
  conns : e'.conns = Function.update e.conns s (some conn')
  acceptQueue : conn'.acceptQueue = conn.acceptQueue
  netState : e'.netState = e.netState
  host : e'.myLocalHostId = e.myLocalHostId
  hostId : e'.myHostId = e.myHostId
  events : e'.events = e.events
  next : e.nextPacket ≤ e'.nextPacket
  packets : ∀ q, q ≠ p →
    (∀ k, conn.inorderView.slots strategy k ≠ some q) →
    q < e.nextPacket ∨ e'.nextPacket ≤ q →
      e'.packets q = e.packets q
  slots : ∀ k q, conn'.inorderView.slots strategy k = some q →
    q = p ∨ ∃ k, conn.inorderView.slots strategy k = some q
  count : conn'.held strategy ≤ conn.held strategy + 1

/- A new connection has shelved nothing. -/
theorem openedConn_slots
    (cfg : Config)
    (fresh : Connection)
    (hostLocalId : BitVec 64)
    (h a sa : BitVec 32)
    (p : PacketPtr)
    (k : Slot) :
    (openedConn cfg fresh hostLocalId h a sa p
      ).inorderView.slots cfg.inorderStrategy k = none := by
  rw [openedConn_inorderView]
  cases hStrategy : cfg.inorderStrategy with
  | holdForever =>
      simp [InorderView.slots, Connection.inorderView,
        establishedConn, hStrategy]
  | dropOutOfOrder => rfl
  | noInorder => rfl

section Delivers

variable
    {fmt : PacketFormat P}
    {cfg : Config}
    {p : PacketPtr}
    {s : ConnPtr}
    {conn : Connection}
    {e e' : Endpoint P}

/- Only an acknowledgement takes a buffer. -/
theorem Acked.frame
    {seq : BitVec 32}
    {e₁ : Endpoint P}
    (hAcked : Acked fmt cfg conn seq e e₁) :
    e₁.netState = e.netState ∧
      e₁.myLocalHostId = e.myLocalHostId ∧
      e₁.myHostId = e.myHostId ∧
      e₁.events = e.events ∧
      e.nextPacket ≤ e₁.nextPacket ∧
      ∀ q, q < e.nextPacket ∨ e₁.nextPacket ≤ q →
        e₁.packets q = e.packets q := by
  cases hAcked with
  | off =>
      exact ⟨rfl, rfl, rfl, rfl, Nat.le_refl _,
        fun _ _ => rfl⟩
  | @sent x hOn hComplete =>
      refine ⟨rfl, rfl, rfl, rfl, Nat.le_succ _, ?_⟩
      intro q hq
      apply Endpoint.setPacket_packets_of_ne
      rcases hq with hq | hq
      · exact Nat.ne_of_lt hq
      · exact Nat.ne_of_gt hq

theorem BackResult.delivers
    {status : HookStatus}
    (hBack : BackResult fmt cfg p s e status e') :
    ∃ conn conn', Delivers cfg.inorderStrategy p s conn conn'
      e e' := by
  cases hBack with
  | ack _ _ hReceive =>
      rcases receiveAck_ok_iff.mp hReceive with
        ⟨conn, hConn, ⟨-, rfl⟩ | ⟨_, t, -, -, rfl⟩⟩
      · refine ⟨conn, conn, hConn, ?_, rfl, rfl, rfl, rfl,
          rfl, Nat.le_refl _, fun _ _ _ _ => rfl,
          fun k q hq => Or.inr ⟨k, hq⟩, Nat.le_succ _⟩
        rw [← hConn, Function.update_eq_self]
      · exact ⟨conn, _, hConn, rfl, rfl, rfl, rfl, rfl,
          rfl, Nat.le_refl _, fun _ _ _ _ => rfl,
          fun k q hq => Or.inr ⟨k, hq⟩, Nat.le_succ _⟩
  | @data conn e₁ status v taken _ hConn hAcked hAbsorb =>
      rcases absorb_ok_iff.mp hAbsorb with
        ⟨w, hPlace, -, hView⟩
      rcases place_slots hPlace with ⟨hSlots, hTaken, hCount⟩
      rcases hAcked.frame with ⟨hNetState, hHost, hHostId,
        hEvents, hNext, hPackets⟩
      rcases arrivedConn_members conn status v with
        ⟨hArrived, hQueue⟩
      have hSame : ∀ strategy queue,
          InorderView.slots strategy
            { w with inputQueue := queue } =
              w.slots strategy ∧
          InorderView.shelved strategy
            { w with inputQueue := queue } =
              w.shelved strategy := by
        intro strategy queue
        cases strategy <;> exact ⟨rfl, rfl⟩
      have hSlots' : ∀ k q,
          (arrivedConn conn status v).inorderView.slots
            cfg.inorderStrategy k = some q →
          q = p ∨ ∃ k, conn.inorderView.slots
            cfg.inorderStrategy k = some q := by
        intro k q hq
        rw [hArrived, hView, (hSame _ _).1] at hq
        rcases hSlots k q hq with rfl | hq
        · exact Or.inl rfl
        · exact Or.inr ⟨k, hq⟩
      refine ⟨conn, arrivedConn conn status v, hConn, ?_,
        hQueue, hNetState, hHost, hHostId, hEvents, hNext,
        ?_, hSlots', ?_⟩
      · change Function.update e₁.conns s _ = _
        rw [hAcked.conns_eq]
      · intro q hNe hNot hq
        have hAway : q ∉ arrivedPackets status p taken := by
          intro hMem
          unfold arrivedPackets at hMem
          have hIn : q = p ∨ q ∈ taken := by
            split at hMem
            · exact List.mem_cons.mp hMem
            · exact Or.inr hMem
          rcases hIn with hEq | hIn
          · exact hNe hEq
          · rcases hTaken q hIn with ⟨k, hk⟩
            exact hNot k hk
        change (if q ∈ arrivedPackets status p taken then
          fmt.restoreTotalLen (e₁.packets q)
            else e₁.packets q) = _
        rw [if_neg hAway]
        exact hPackets q hq
      · -- what is queued was shelved before, or is the packet
        have hNew : (payloads
            (InorderModule.ingressLen fmt
              cfg.inorderStrategy e₁ p)
            (arrivedPackets status p taken)).length ≤
              (arrivedPackets status p taken).length := by
          rw [payloads, List.length_map]
          exact List.length_filter_le _ _
        change (arrivedConn conn status
            v).inorderView.inputQueue.length +
          (arrivedConn conn status v).inorderView.shelved
            cfg.inorderStrategy ≤ _
        rw [hArrived, hView, (hSame _ _).2, List.length_append]
        unfold Connection.held
        change conn.inputQueue.length + _ + _ ≤ _
        omega

/- What a packet changes in packets that are not shelved. -/
theorem BackResult.packets_eq
    {status : HookStatus}
    {q : PacketPtr}
    (hBack : BackResult fmt cfg p s e status e')
    (hNe : q ≠ p)
    (hShelved : ∀ c conn k, e.conns c = some conn →
      conn.inorderView.slots cfg.inorderStrategy k ≠ some q)
    (hNext : e'.nextPacket = e.nextPacket ∨
      q ≠ e.nextPacket) :
    e'.packets q = e.packets q := by
  have hTaken : e'.nextPacket = e.nextPacket ∨
      e'.nextPacket = e.nextPacket + 1 := by
    cases hBack with
    | ack _ _ hReceive =>
        rcases receiveAck_ok_iff.mp hReceive with
          ⟨conn, -, ⟨-, rfl⟩ | ⟨_, t, -, -, rfl⟩⟩ <;>
            exact Or.inl rfl
    | data _ _ hAcked _ =>
        cases hAcked with
        | off => exact Or.inl rfl
        | sent => exact Or.inr rfl
  rcases hBack.delivers with ⟨conn, conn', hDelivers⟩
  apply hDelivers.packets q hNe
  · intro k
    exact hShelved s conn k hDelivers.found
  · rcases hTaken with hSame | hTaken
    · rw [hSame]
      exact Nat.lt_or_ge q e.nextPacket
    · rw [hTaken]
      rcases hNext with hSame | hOther
      · exact absurd (hSame.symm.trans hTaken)
          (Nat.ne_of_lt (Nat.lt_succ_self _))
      · exact (Nat.lt_or_gt_of_ne hOther).imp_right
          Nat.succ_le_of_lt

theorem Replays.delivers
    (hReplays : Replays fmt cfg s e p e') :
    ∃ conn conn', Delivers cfg.inorderStrategy p s conn conn'
      e e' := by
  rcases replays_iff.mp hReplays with
    ⟨hOld, y, status, -, -, -, -, hBack⟩
  rcases hBack.delivers with ⟨conn, conn', hDelivers⟩
  refine ⟨conn, conn', hDelivers.found, hDelivers.conns,
    hDelivers.acceptQueue, hDelivers.netState,
    hDelivers.host, hDelivers.hostId, hDelivers.events,
    hDelivers.next, ?_, hDelivers.slots, hDelivers.count⟩
  intro q hNe hNot hq
  rw [hDelivers.packets q hNe hNot hq]
  exact Endpoint.setPacket_packets_of_ne e _ hNe

end Delivers

------------------------------------------------------------
-- Other Connections
------------------------------------------------------------

section Frame

variable
    {fmt : PacketFormat P}
    {cfg : Config}
    {p : PacketPtr}
    {c s : ConnPtr}
    {e e' : Endpoint P}

theorem setConn_comm
    (hNe : s ≠ c)
    (conn conn' : Connection) :
    (e.setConn s conn).setConn c conn' =
      (e.setConn c conn').setConn s conn := by
  have hConns : Function.update
      (Function.update e.conns s (some conn)) c
        (some conn') =
      Function.update
        (Function.update e.conns c (some conn')) s
          (some conn) :=
    Function.update_comm hNe _ _ _
  exact congrArg (fun conns => { e with conns := conns })
    hConns

theorem receiver_setConn
    (conn : Connection) :
    receiver fmt cfg p (e.setConn c conn) =
      receiver fmt cfg p e :=
  rfl

/- Whatever is assigned to another connection stays there. -/
theorem BackResult.setConn
    {status : HookStatus}
    (hNe : s ≠ c)
    (conn : Connection)
    (hBack : BackResult fmt cfg p s e status e') :
    BackResult fmt cfg p s (e.setConn c conn) status
      (e'.setConn c conn) := by
  cases hBack with
  | ack hOn hAck hReceive =>
      refine .ack hOn hAck (receiveAck_ok_iff.mpr ?_)
      rcases receiveAck_ok_iff.mp hReceive with
        ⟨connS, hConn, hCases⟩
      refine ⟨connS, ?_, ?_⟩
      · rw [Endpoint.setConn_conns_of_ne _ _ hNe, hConn]
      · rcases hCases with
          ⟨hNone, rfl⟩ | ⟨q, t, hSlot, hTimer, rfl⟩
        · exact Or.inl ⟨hNone, rfl⟩
        · exact Or.inr ⟨q, t, hSlot, hTimer,
            setConn_comm hNe _ _⟩
  | @data connS e₁ status v taken hData hConn hAcked
      hAbsorb =>
      have hConn' : (e.setConn c conn).conns s =
          some connS := by
        rw [Endpoint.setConn_conns_of_ne _ _ hNe, hConn]
      have hAcked' : Acked fmt cfg connS
          (fmt.getWord .sequenceNumber
            ((e.setConn c conn).packets p))
          (e.setConn c conn) (e₁.setConn c conn) := by
        cases hAcked with
        | off hOff => exact .off hOff
        | sent hOn hComplete => exact .sent hOn hComplete
      have hResult : BackResult fmt cfg p s
          (e.setConn c conn) status
          (((e₁.setConn c conn).setConn s
            (arrivedConn connS status v)).restoreAll fmt
              (arrivedPackets status p taken)) :=
        .data hData hConn' hAcked' hAbsorb
      rw [← setConn_comm hNe] at hResult
      exact hResult

theorem Replays.setConn
    (hNe : s ≠ c)
    (conn : Connection)
    (hReplays : Replays fmt cfg s e p e') :
    Replays fmt cfg s (e.setConn c conn) p
      (e'.setConn c conn) := by
  rcases replays_iff.mp hReplays with
    ⟨hOld, y, status, hCheck, hHost, hLookup, hNull, hBack⟩
  exact replays_iff.mpr ⟨hOld, y, status, hCheck, hHost,
    hLookup, hNull, hBack.setConn hNe conn⟩

/- So does whatever is assigned around a whole run. -/
theorem setConn_of_replays
    {ps : List PacketPtr}
    (hNe : s ≠ c)
    (conn : Connection)
    (hRun : Run (Replays fmt cfg s) e ps e') :
    Run (Replays fmt cfg s) (e.setConn c conn) ps
      (e'.setConn c conn) := by
  induction hRun with
  | nil e => exact .nil _
  | cons hStep _ ih => exact .cons (hStep.setConn hNe conn) ih

end Frame

------------------------------------------------------------
-- Packets That Can Be Delivered
------------------------------------------------------------

/-
  The buffers that the transport hands out next hold an
  acknowledgement, once it is completed for a connection.
-/
def HoldsAcks
    (fmt : PacketFormat P)
    (cfg : Config)
    (e : Endpoint P) : Prop :=
  ∀ p, e.nextPacket ≤ p → ∀ conn seq,
    ∃ x, completePacket fmt cfg conn e.myLocalHostId
      e.myHostId (ackPacket fmt seq (e.packets p)) = .ok x

/-
  The packets in a redelivery buffer have a timer that an
  acknowledgement can stop.
-/
def SlotsHaveTimers
    (fmt : PacketFormat P)
    (e : Endpoint P)
    (conn : Connection) : Prop :=
  ∀ k q, conn.redeliveryBuffer k = some q →
    toTimerPtr (fmt.getInteger .redeliveryTimer
      (e.packets q)) ≠ none

section Returns

variable
    {fmt : PacketFormat P}
    {cfg : Config}
    {p : PacketPtr}
    {s : ConnPtr}
    {conn : Connection}
    {e e' : Endpoint P}

theorem HoldsAcks.delivers
    {conn' : Connection}
    (hHolds : HoldsAcks fmt cfg e)
    (hOld : p < e.nextPacket)
    (hShelved : ∀ k q, conn.inorderView.slots
      cfg.inorderStrategy k = some q → q < e.nextPacket)
    (hDelivers : Delivers cfg.inorderStrategy p s conn conn' e
      e') :
    HoldsAcks fmt cfg e' := by
  intro q hq connA seq
  have hNext := Nat.le_trans hDelivers.next hq
  have hPacket : e'.packets q = e.packets q := by
    apply hDelivers.packets q _ _ (Or.inr hq)
    · exact Nat.ne_of_gt (Nat.lt_of_lt_of_le hOld hNext)
    · intro k hk
      exact Nat.not_lt_of_le hNext (hShelved k q hk)
  rw [hPacket, hDelivers.host, hDelivers.hostId]
  exact hHolds q hNext connA seq

theorem backResult_of_conn
    (hConn : e.conns s = some conn)
    (hHolds : HoldsAcks fmt cfg e)
    (hTimers : cfg.reliableEnabled = true →
      SlotsHaveTimers fmt e conn)
    (hRoom : conn.held cfg.inorderStrategy <
      maxDataQueueElems) :
    ∃ status e', BackResult fmt cfg p s e status e' := by
  by_cases hAck : cfg.reliableEnabled = true ∧
      fmt.getWord .ackSequenceNumber (e.packets p) ≠ 0
  · -- an acknowledgement
    have hReceive : ∃ e', ReliableModule.receiveAck fmt s
        (fmt.getWord .ackSequenceNumber (e.packets p)) e =
          .ok e' := by
      cases hSlot : conn.redeliveryBuffer (slot
          (fmt.getWord .ackSequenceNumber (e.packets p))) with
      | none =>
          exact ⟨e, receiveAck_ok_iff.mpr
            ⟨conn, hConn, Or.inl ⟨hSlot, rfl⟩⟩⟩
      | some q =>
          rcases Option.ne_none_iff_exists'.mp
            (hTimers hAck.1 _ q hSlot) with ⟨t, ht⟩
          exact ⟨_, receiveAck_ok_iff.mpr
            ⟨conn, hConn, Or.inr ⟨q, t, hSlot, ht, rfl⟩⟩⟩
    rcases hReceive with ⟨e', hReceive⟩
    exact ⟨_, e', .ack hAck.1 hAck.2 hReceive⟩
  · -- a data packet
    have hData : cfg.reliableEnabled = true →
        fmt.getWord .ackSequenceNumber (e.packets p) = 0 := by
      intro hOn
      by_contra hNe
      exact hAck ⟨hOn, hNe⟩
    have hAcked : ∃ e₁, Acked fmt cfg conn
        (fmt.getWord .sequenceNumber (e.packets p)) e e₁ := by
      cases hOn : cfg.reliableEnabled with
      | false => exact ⟨e, .off hOn⟩
      | true =>
          rcases hHolds e.nextPacket (Nat.le_refl _) conn
            (fmt.getWord .sequenceNumber (e.packets p)) with
            ⟨x, hComplete⟩
          exact ⟨_, .sent hOn hComplete⟩
    rcases hAcked with ⟨e₁, hAcked⟩
    rcases hPlace : place cfg.inorderStrategy
        (fmt.getWord .sequenceNumber (e.packets p)) p
        conn.inorderView with ⟨status, w, taken⟩
    have hCount := (place_slots hPlace).2.2
    have hFits : Room conn.inorderView.inputQueue
        (payloads (InorderModule.ingressLen fmt
          cfg.inorderStrategy e₁ p)
          (arrivedPackets status p taken)) := by
      right
      have hNew : (payloads (InorderModule.ingressLen fmt
          cfg.inorderStrategy e₁ p)
          (arrivedPackets status p taken)).length ≤
            (arrivedPackets status p taken).length := by
        rw [payloads, List.length_map]
        exact List.length_filter_le _ _
      unfold Connection.held at hRoom
      change conn.inputQueue.length + _ ≤ _
      omega
    exact ⟨status, _, .data hData hConn hAcked
      (absorb_ok_iff.mpr ⟨w, hPlace, hFits, rfl⟩)⟩

/-
  A packet for a connection with room is processed without a
  fault.
-/
theorem replays_of_receiver
    (hOld : p < e.nextPacket)
    (hReceiver : receiver fmt cfg p e = some s)
    (hConn : e.conns s = some conn)
    (hHolds : HoldsAcks fmt cfg e)
    (hTimers : cfg.reliableEnabled = true →
      SlotsHaveTimers fmt e conn)
    (hUntimed : cfg.reliableEnabled = true →
      ∀ k, conn.redeliveryBuffer k ≠ some p)
    (hRoom : conn.held cfg.inorderStrategy <
      maxDataQueueElems) :
    ∃ e', Replays fmt cfg s e p e' := by
  rcases receiver_eq_some_iff.mp hReceiver with
    ⟨y, hCheck, hHost, hLookup, hNe⟩
  let routed := e.setPacket p
    (fmt.setInteger .flowIdentifier s y)
  have hHolds' : HoldsAcks fmt cfg routed := by
    intro q hq seq conn'
    have hNe : q ≠ p :=
      Nat.ne_of_gt (Nat.lt_of_lt_of_le hOld hq)
    rw [Endpoint.setPacket_packets_of_ne e _ hNe]
    exact hHolds q hq seq conn'
  have hTimers' : cfg.reliableEnabled = true →
      SlotsHaveTimers fmt routed conn := by
    intro hOn k q hSlot
    have hNe : q ≠ p := by
      rintro rfl
      exact hUntimed hOn k hSlot
    rw [Endpoint.setPacket_packets_of_ne e _ hNe]
    exact hTimers hOn k q hSlot
  have hConn' : routed.conns s = some conn := hConn
  have hReturns : ∃ status e',
      BackResult fmt cfg p s routed status e' :=
    backResult_of_conn hConn' hHolds' hTimers' hRoom
  rcases hReturns with ⟨status, e', hBack⟩
  exact ⟨e', replays_iff.mpr ⟨hOld, y, status, hCheck, hHost,
    hLookup, hNe, hBack⟩⟩

end Returns

end NetBlocks
