import NetBlocks.Core.Journal
import NetBlocks.Correctness.Addressing
import NetBlocks.Correctness.Demultiplexing

/-
  What one step of a host hands to the transport, and what it
  does to its connections, their timers and their queues.

  Main declarations:
    * `Moves.transmits`
    * `Moves.timersFor` and `Moves.queuedIn`
    * `Moves.conn_cases`
    * `IngressResult.places`
-/

namespace NetBlocks

open Except TransitionSystem

variable {P : Type}

------------------------------------------------------------
-- What a Step Transmits
------------------------------------------------------------

/-
  What a step adds to the packets handed out: nothing, a
  packet with a post, an ack for a packet that was received,
  or the packets of timers that fire.
-/
inductive MoveTransmits
    (fmt : PacketFormat P)
    (cfg : Config)
    (e : Endpoint P) :
    StackMove P → Endpoint P → Prop
| nothing {move : StackMove P} {e' : Endpoint P} :
    e'.out = e.out →
    (move.processes e = none →
      e'.nextPacket = e.nextPacket) →
    MoveTransmits fmt cfg e move e'
| post {move : StackMove P} {e' : Endpoint P} {c : ConnPtr}
    {bytes : List Byte} {conn : Connection} {x : P} :
    move.posts = some (c, bytes) →
    move.processes e = none →
    e'.conns c = some conn →
    fmt.IsPost cfg e.myLocalHostId
      ⟨conn.tableEntry c, conn.lastSentSequence, bytes⟩ x →
    fmt.restoreTotalLen x = x →
    e'.out = e.out ++ [(x, fmt.getWord .totalLen x)] →
    e'.packets e.nextPacket = x →
    e'.nextPacket = e.nextPacket + 1 →
    MoveTransmits fmt cfg e move e'
| ack {move : StackMove P} {e' e₀ : Endpoint P}
    {p : PacketPtr} {c : ConnPtr} {conn : Connection}
    {x : P} :
    move.processes e = some (p, e₀) →
    dataReceiver fmt cfg p e₀ = some c →
    e₀.conns c = some conn →
    fmt.IsAck cfg e.myLocalHostId ⟨conn.tableEntry c,
      fmt.getWord .sequenceNumber (e₀.packets p)⟩ x →
    e'.out = e.out ++ [(x, fmt.getWord .totalLen x)] →
    MoveTransmits fmt cfg e move e'
| fires {e' : Endpoint P} :
    e'.out = e.out ++
      (firedPackets e).map (e.onWire fmt) →
    e'.nextPacket = e.nextPacket →
    MoveTransmits fmt cfg e (.call .checkTimers) e'

section Transmits

variable
    {fmt : PacketFormat P}
    {cfg : Config}
    {c : ConnPtr}
    {p : PacketPtr}
    {bytes buff : List Byte}
    {conn fresh : Connection}
    {e e' : Endpoint P}
    {x y : P}
    {h a sa : BitVec 32}
    {move : StackMove P}

theorem restoreTotalLen_of_eq
    (hEq : fmt.getInteger .computedTotalLen x =
      fmt.getInteger .totalLen x) :
    fmt.restoreTotalLen x = x := by
  rw [PacketFormat.restoreTotalLen, ← hEq, fmt.set_get]

/- A packet that is as long as its header says. -/
theorem getWord_of_eq
    (hEq : fmt.getInteger .computedTotalLen x =
      fmt.getInteger .totalLen x) :
    fmt.getWord .computedTotalLen x =
      fmt.getWord .totalLen x := by
  rw [PacketFormat.getWord, hEq, PacketFormat.getWord]

/- The payload module writes both lengths. -/
theorem lengthPacket_lengths
    (n : Nat)
    (x : P) :
    fmt.getInteger .computedTotalLen (lengthPacket fmt n x) =
      fmt.getInteger .totalLen (lengthPacket fmt n x) := by
  have hComputed : ∀ v, Field.computedTotalLen.Fits v :=
    Field.fits_of_bits_ne (by decide)
  have hTotal : ∀ v, Field.totalLen.Fits v :=
    Field.fits_of_bits_ne (by decide)
  simp only [lengthPacket, PacketFormat.setWord]
  rw [fmt.get_set_self _ _ _ (hComputed _),
    fmt.get_set_ne _ _ _ _ (hComputed _) (by decide),
    fmt.get_set_self _ _ _ (hTotal _)]
  rfl

/- What a connection sends is a packet with its post. -/
theorem Sends.isPost
    {t : Option TimerPtr}
    {timers : TimerPool}
    (hSends : Sends fmt cfg e conn p y x t timers)
    (hFits : HostsFit conn e.myLocalHostId)
    (hLength : fmt.headerLen + buff.length < 2 ^ 31)
    (hLengths : fmt.getInteger .computedTotalLen y =
      fmt.getInteger .totalLen y)
    (hTotal : fmt.getWord .totalLen y =
      BitVec.ofNat 32 (fmt.headerLen + buff.length))
    (hPayload : buff ≠ [] →
      fmt.readPayload buff.length y = .ok buff)
    (c : ConnPtr) :
    fmt.IsPost cfg e.myLocalHostId
        ⟨conn.tableEntry c, conn.lastSentSequence + 1, buff⟩
        x ∧
      fmt.getInteger .computedTotalLen x =
        fmt.getInteger .totalLen x := by
  have hComputed : (fmt.getWord .computedTotalLen y).toInt =
      ((fmt.headerLen + buff.length : Nat) : Int) := by
    rw [getWord_of_eq hLengths, hTotal, toInt_length hLength]
  have hSized : fmt.Sized y := by
    rw [PacketFormat.Sized,
      PacketFormat.toInt_getInteger rfl rfl, hComputed]
    omega
  have hKept : ∀ f : Field, f.completed = false →
      f ≠ .sequenceNumber → f ≠ .ackSequenceNumber →
      f ≠ .redeliveryTimer →
        fmt.getInteger f x = fmt.getInteger f y :=
    fun f => hSends.get hFits hSized
  refine ⟨⟨?_, ?_, ?_⟩, ?_⟩
  · exact completePacket_isFrom hFits
      (Sends.sized_armPacket hSized) hSends.complete c
  · refine ⟨fmt.getWord .sequenceNumber x,
      ⟨rfl, ?_, hLength, ?_⟩, ?_⟩
    · rw [PacketFormat.getWord, hKept _ rfl (by decide)
        (by decide) (by decide), ← PacketFormat.getWord,
        hTotal]
    · intro hNe
      rw [hSends.read hFits (by rw [hComputed]), hPayload hNe]
    · exact hSends.sequenceNumber hFits hSized
  · exact hSends.ackSequenceNumber hFits hSized
  · rw [hKept _ rfl (by decide) (by decide) (by decide),
      hKept _ rfl (by decide) (by decide) (by decide),
      hLengths]

/- So is what `nb__send` hands to the transport. -/
theorem nbSend_transmits
    {n : Nat}
    (hHosts : HostsKept e)
    (hSend : nbSend fmt cfg c buff e = .ok (n, e')) :
    MoveTransmits fmt cfg e (.call (.send c buff)) e' := by
  rcases nbSend_ok_iff.mp hSend with
    ⟨conn, y, x, t, timers, hConn, hWrite, hSends, -, rfl⟩
  have hGet : ∀ f : Field, fmt.getInteger f y =
      fmt.getInteger f (lengthPacket fmt buff.length
        (e.packets e.nextPacket)) :=
    fun f => fmt.write_get f _ _ y hWrite
  have hLengths : fmt.getInteger .computedTotalLen y =
      fmt.getInteger .totalLen y := by
    rw [hGet, hGet, lengthPacket_lengths]
  have hTotal : fmt.getWord .totalLen y =
      BitVec.ofNat 32 (fmt.headerLen + buff.length) := by
    rw [PacketFormat.getWord, hGet, ← PacketFormat.getWord,
      lengthPacket_total]
  rcases hSends.isPost (hHosts.fits hConn)
      (fmt.write_length _ _ y hWrite) hLengths hTotal
      (fun _ => fmt.write_read _ _ y hWrite) c with
    ⟨hPost, hSame⟩
  let e' := e.requested.sent fmt cfg c conn e.nextPacket timers
    x
  have hConn' : e'.conns c =
      some (numberedConn cfg conn e.nextPacket) :=
    Endpoint.setConn_conns_self _ _ _
  have hPacket : e'.packets e.nextPacket = x :=
    Endpoint.setPacket_packets_self _ _ _
  have hOut : e'.out =
      e.out ++ [(x, fmt.getWord .totalLen x)] := by
    rw [← getWord_of_eq hSame]
    simp [e', Endpoint.sent, Endpoint.transmit,
      Endpoint.sendPacket, Endpoint.setConn,
      Endpoint.setPacket, Endpoint.requested]
  exact .post rfl rfl hConn' hPost
    (restoreTotalLen_of_eq hSame) hOut hPacket rfl

/- So is the signal that `nb__establish` sends. -/
theorem nbEstablish_transmits
    (hHosts : HostsKept e)
    (hPosts : move.posts = some (c, []))
    (hNone : move.processes e = none)
    (hEstablish : nbEstablish fmt cfg c fresh h a sa e =
      .ok e') :
    MoveTransmits fmt cfg e move e' := by
  rcases nbEstablish_ok_iff.mp hEstablish with
    ⟨netState, conn', e₁, -, hSignal, rfl⟩
  let conn₀ := establishedConn cfg fresh (e.hostLocalId h) a sa
  let e₀ := e.registered c conn₀ netState
  change SignalResult fmt cfg c conn₀ h a e₀ conn' e₁
    at hSignal
  cases hSignal with
  | wildcard => exact .nothing rfl (fun _ => rfl)
  | unsignaled => exact .nothing rfl (fun _ => rfl)
  | @signals conn₁ x t timers _ _ hEq hSends =>
      have hFits : HostsFit conn₁ e₀.myLocalHostId := by
        rw [hEq]
        exact ⟨Nat.lt_trans (lookup_lt _ _) (by decide),
          Nat.lt_trans hHosts.own (by decide)⟩
      have hLength : fmt.headerLen +
          ([] : List Byte).length < 2 ^ 31 :=
        Nat.lt_trans (Nat.lt_succ_self _) fmt.headerLen_lt
      rcases hSends.isPost hFits hLength
          (lengthPacket_lengths 0 _) lengthPacket_total
          (fun hNe => absurd rfl hNe) c with ⟨hPost, hSame⟩
      let conn₂ := numberedConn cfg conn₁ e₀.nextPacket
      let routed := routedConn cfg sa conn₂
      have hRouted : routed.tableEntry c =
            conn₁.tableEntry c ∧
          routed.lastSentSequence =
            conn₁.lastSentSequence + 1 := by
        simp only [routed, routedConn]
        split <;> exact ⟨rfl, rfl⟩
      let e₂ := (e₀.requested.sent fmt cfg c conn₁
        e₀.nextPacket timers x).setConn c routed
      have hConn' : e₂.conns c = some routed :=
        Endpoint.setConn_conns_self _ _ _
      have hPacket : e₂.packets e.nextPacket = x :=
        Endpoint.setPacket_packets_self _ _ _
      have hOut : e₂.out =
          e.out ++ [(x, fmt.getWord .totalLen x)] := by
        rw [← getWord_of_eq hSame]
        simp [e₂, e₀, Endpoint.registered, Endpoint.sent,
          Endpoint.transmit, Endpoint.sendPacket,
          Endpoint.setConn, Endpoint.setPacket,
          Endpoint.requested]
      rw [← hRouted.1, ← hRouted.2] at hPost
      exact .post hPosts hNone hConn' hPost
        (restoreTotalLen_of_eq hSame) hOut hPacket rfl

/- What answers a packet is an ack of its number. -/
theorem completePacket_isAck
    {seq : BitVec 32}
    {localHostId : BitVec 64}
    {hostId : BitVec 32}
    (hReliable : cfg.reliableEnabled = true)
    (hFits : HostsFit conn localHostId)
    (hComplete : completePacket fmt cfg conn localHostId
      hostId (ackPacket fmt seq y) = .ok x)
    (c : ConnPtr) :
    fmt.IsAck cfg localHostId ⟨conn.tableEntry c, seq⟩ x ∧
      fmt.getInteger .computedTotalLen x =
        fmt.getInteger .totalLen x := by
  have hSized : fmt.Sized (ackPacket fmt seq y) :=
    sized_ackPacket seq y
  have hKept : ∀ f : Field, f.completed = false →
      fmt.getInteger f x =
        fmt.getInteger f (ackPacket fmt seq y) :=
    fun f => completePacket_get hFits hComplete hSized
  have hTotal : fmt.getWord .totalLen x =
      BitVec.ofNat 32 (fmt.headerLen + 1) := by
    rw [PacketFormat.getWord, hKept _ rfl,
      ← PacketFormat.getWord, ackPacket, lengthPacket_total]
  have hNumber : fmt.getWord .ackSequenceNumber x = seq := by
    rw [PacketFormat.getWord, hKept _ rfl, ackPacket,
      lengthPacket_get (by decide) (by decide)]
    exact PacketFormat.getWord_setWord_self rfl
  refine ⟨⟨hReliable, completePacket_isFrom hFits hSized
    hComplete c, ?_, hNumber⟩, ?_⟩
  · rw [PacketFormat.Whole, hTotal,
      toInt_length fmt.headerLen_lt]
    omega
  · rw [hKept _ rfl, hKept _ rfl, ackPacket,
      lengthPacket_lengths]

/- The ingress path answers data, and nothing else. -/
theorem IngressResult.acks
    (hIngress : IngressResult fmt cfg p e e')
    (hHosts : HostsKept e)
    (hWhole : fmt.Whole (e.packets p)) :
    e'.out = e.out ∨
      ∃ c conn x, dataReceiver fmt cfg p e = some c ∧
        e.conns c = some conn ∧
        fmt.IsAck cfg e.myLocalHostId ⟨conn.tableEntry c,
          fmt.getWord .sequenceNumber (e.packets p)⟩ x ∧
        e'.out = e.out ++ [(x, fmt.getWord .totalLen x)] := by
  cases hIngress with
  | dropped hFront => cases hFront <;> exact Or.inl rfl
  | @routed y status _ hCheck hHost hNe hBack =>
      cases hBack with
      | ack _ _ hReceive =>
          rcases receiveAck_ok_iff.mp hReceive with
            ⟨conn, -, ⟨-, rfl⟩ | ⟨_, t, -, -, rfl⟩⟩ <;>
              exact Or.inl rfl
      | @data conn e₁ _ v taken hAck hConn hAcked _ =>
          rw [Endpoint.setPacket_packets_self] at hAck hAcked
          have hFlow : ∀ f : Field, f ≠ .flowIdentifier →
              fmt.getWord f (fmt.setInteger .flowIdentifier
                (lookup fmt cfg e y) y) = fmt.getWord f y :=
            fun f hField => PacketFormat.getWord_setInteger_ne
              (Field.fits_of_bits_ne (by decide) _) hField
          rw [hFlow _ (by decide)] at hAck hAcked
          have hNumber : fmt.getWord .sequenceNumber y =
              fmt.getWord .sequenceNumber (e.packets p) := by
            rw [PacketFormat.getWord, checkPacket_get hCheck
              hWhole.sized (by decide), PacketFormat.getWord]
          rw [hNumber] at hAcked
          have hReceiver : dataReceiver fmt cfg p e =
              some (lookup fmt cfg e y) :=
            dataReceiver_eq_some_iff.mpr
              ⟨y, hCheck, hHost, rfl, hNe, hAck⟩
          cases hAcked with
          | off => exact Or.inl rfl
          | sent hReliable hComplete =>
              rcases completePacket_isAck hReliable
                  (hHosts.fits hConn) hComplete
                  (lookup fmt cfg e y) with ⟨hIsAck, hSame⟩
              refine Or.inr ⟨_, conn, _, hReceiver, hConn,
                hIsAck, ?_⟩
              rw [← getWord_of_eq hSame]
              simp [Endpoint.transmit, Endpoint.sendPacket,
                Endpoint.restoreAll, Endpoint.requested,
                Endpoint.setConn, Endpoint.setPacket]

/- What any step of a host transmits -/
theorem Moves.transmits
    (hHosts : HostsKept e)
    (hWhole : ∀ p e₀, move.processes e = some (p, e₀) →
      fmt.Whole (e₀.packets p))
    (hMoves : Moves fmt cfg e move e') :
    MoveTransmits fmt cfg e move e' := by
  cases hProcesses : move.processes e with
  | some processed =>
      rcases processed with ⟨p, e₀⟩
      rcases hMoves.processed hProcesses with
        ⟨-, hIngress, -, -, hTable, -⟩
      have hOut : e₀.out = e.out := by
        cases hMoves with
        | call hCall =>
            cases hCall with
            | ingress =>
                cases hProcesses
                rfl
            | _ => cases hProcesses
        | accept hStep =>
            cases hStep with
            | replays =>
                cases hProcesses
                rfl
            | _ => cases hProcesses
      rcases hIngress.acks (hTable.hostsKept hHosts)
          (hWhole p e₀ hProcesses) with
        hSame | ⟨c, conn, x, hReceiver, hConn, hAck, hMore⟩
      · apply MoveTransmits.nothing (hSame.trans hOut)
        intro hNone
        cases hProcesses.symm.trans hNone
      · rw [hTable.host] at hAck
        rw [hOut] at hMore
        exact .ack hProcesses hReceiver hConn hAck hMore
  | none =>
      cases hMoves with
      | call hCall =>
          cases hCall with
          | establish _ _ hEstablish =>
              exact nbEstablish_transmits hHosts rfl rfl
                hEstablish
          | destablish hDestablish =>
              rcases nbDestablish_ok_iff.mp hDestablish with
                ⟨conn, -, rfl⟩
              exact .nothing rfl (fun _ => rfl)
          | send hSend => exact nbSend_transmits hHosts hSend
          | ingress => cases hProcesses
          | checkTimers hCheck =>
              have hOut := checkTimersLoop_out hCheck
              rcases checkTimersLoop_frame hCheck with
                ⟨timers, out, rfl⟩
              exact .fires hOut rfl
          | tick => exact .nothing rfl (fun _ => rfl)
          | read hRead =>
              rcases nbRead_frame hRead with ⟨_, _, -, rfl⟩
              exact .nothing rfl (fun _ => rfl)
      | accept hStep =>
          cases hStep with
          | opens hCall =>
              cases hCall with
              | establish _ _ hEstablish =>
                  exact nbEstablish_transmits hHosts rfl rfl
                    hEstablish
          | replays => cases hProcesses
          | dequeues => exact .nothing rfl (fun _ => rfl)
          | signals => exact .nothing rfl (fun _ => rfl)

end Transmits

------------------------------------------------------------
-- Timers and Accept Queues
------------------------------------------------------------

/- The buffers of packets that are sent, after a step. -/
def ownAfter
    (own : PacketPtr → Prop)
    (e e' : Endpoint P)
    (move : StackMove P)
    (p : PacketPtr) : Prop :=
  own p ∨ move.processes e = none ∧
    e.nextPacket ≤ p ∧ p < e'.nextPacket

section Queues

variable
    {fmt : PacketFormat P}
    {cfg : Config}
    {own queued : PacketPtr → Prop}
    {p : PacketPtr}
    {e e' : Endpoint P}
    {move : StackMove P}

/- Timers are started for packets that are sent. -/
theorem Moves.timersFor
    (hHosts : HostsKept e)
    (hTimers : TimersFor fmt cfg own e)
    (hNot : ∀ p e₀, move.processes e = some (p, e₀) →
      ¬ own p)
    (hMoves : Moves fmt cfg e move e') :
    TimersFor fmt cfg (ownAfter own e e' move) e' := by
  have hLarger : TimersFor fmt cfg (ownAfter own e e' move)
      e := hTimers.mono (fun p hp => Or.inl hp)
  cases hMoves with
  | @call call _ hCall =>
      apply hLarger.step hHosts hCall
      intro hOther hNext
      refine Or.inr ⟨?_, Nat.le_refl _, hNext⟩
      cases call with
      | ingress x len => exact absurd rfl (hOther x len)
      | _ => rfl
  | accept hStep =>
      cases hStep with
      | opens hCall =>
          apply hLarger.step hHosts hCall
          intro _ hNext
          exact Or.inr ⟨rfl, Nat.le_refl _, hNext⟩
      | @replays _ p _ hOld hIngress =>
          apply hLarger.processes (p := p) _
            ((runIngressPath_iff (Nat.ne_of_lt hOld)).mp
              hIngress)
          rintro (hOwn | ⟨hNone, -⟩)
          · exact hNot p e rfl hOwn
          · cases hNone
      | dequeues hConn =>
          exact hLarger.of_same (.setConn hConn rfl)
      | signals hConn =>
          exact hLarger.of_same (.setConn hConn rfl)

/- Only the packet that is processed may be parked. -/
theorem Moves.queuedIn
    (hIn : QueuedIn queued e)
    (hPacket : ∀ p e₀, move.processes e = some (p, e₀) →
      queued p)
    (hMoves : Moves fmt cfg e move e') :
    QueuedIn queued e' := by
  cases hMoves with
  | call hCall =>
      apply hCall.queuedIn hIn
      rintro x len rfl
      exact hPacket _ _ rfl
  | accept hStep =>
      cases hStep with
      | opens hCall =>
          exact hCall.queuedIn hIn (fun _ _ hEq => by cases hEq)
      | replays _ hOld hIngress =>
          exact (runIngressPath_touchesOne (Nat.ne_of_lt hOld)
            hIngress).queuedIn hIn (hPacket _ _ rfl)
      | dequeues hConn hQueue =>
          exact hIn.assign hConn rfl hQueue
      | signals hConn =>
          exact hIn.assign hConn rfl (fun _ hx => hx)

end Queues

------------------------------------------------------------
-- Connections
------------------------------------------------------------

/- What the table's invariants ask of a step. -/
def KeepsEntries
    (cfg : Config)
    (e : Endpoint P) : StackMove P → Prop
| .call call => FindsOwnEntry cfg e call ∧ KeepsHosts cfg e call
| .accept _ => True

/- The connection that a step opens -/
def StackMove.opens : StackMove P → Option ConnPtr
| .call (.establish c _ _ _ _) => some c
| .accept (.opens c _ _ _ _) => some c
| _ => none

/- A connection right after it was opened -/
def IsOpened
    (cfg : Config)
    (conn : Connection) : Prop :=
  ∃ fresh hostLocalId h a sa p,
    conn = openedConn cfg fresh hostLocalId h a sa p

section Conns

variable
    {fmt : PacketFormat P}
    {cfg : Config}
    {c : ConnPtr}
    {p : PacketPtr}
    {conn conn' : Connection}
    {e e' : Endpoint P}
    {move : StackMove P}

theorem Moves.myLocalHostId_eq
    (hMoves : Moves fmt cfg e move e') :
    e'.myLocalHostId = e.myLocalHostId := by
  cases hMoves with
  | call hCall => exact hCall.sameHosts.localHost
  | accept hStep => exact hStep.sameHosts.localHost

theorem Moves.tableInvariant
    (hTable : TableInvariant e)
    (hKeeps : KeepsEntries cfg e move)
    (hMoves : Moves fmt cfg e move e') :
    TableInvariant e' := by
  cases hMoves with
  | call hCall => exact hCall.tableInvariant hTable hKeeps.1
  | accept hStep =>
      rcases hStep.table with ⟨x, hAdds⟩ | hSame
      · exact hAdds.tableInvariant hTable
      · exact hSame.tableInvariant hTable

theorem Moves.agrees
    (hTable : TableInvariant e)
    (hAgrees : Agrees cfg e)
    (hKeeps : KeepsEntries cfg e move)
    (hMoves : Moves fmt cfg e move e') :
    Agrees cfg e' := by
  cases hMoves with
  | call hCall =>
      exact hCall.agrees hTable hAgrees hKeeps.1 hKeeps.2
  | accept hStep =>
      rcases hStep.table with ⟨x, hAdds⟩ | hSame
      · exact hAdds.agrees hAgrees
      · exact hSame.agrees hAgrees

/- An open connection keeps its ids. -/
theorem Moves.describe_eq
    (hConn : e.conns c = some conn)
    (hOpen : move ≠ .call (.destablish c))
    (hMoves : Moves fmt cfg e move e') :
    e'.describe c = e.describe c := by
  have hAdded : ∀ x, TableAdds e x e' →
      e'.describe c = e.describe c := by
    intro x hAdds
    have hNe : c ≠ x.conn := by
      rintro rfl
      have hFree := hAdds.fresh.2
      rw [Endpoint.describe, hConn] at hFree
      cases hFree
    rw [hAdds.describe, Function.update_of_ne hNe]
  cases hMoves with
  | call hCall =>
      cases hCall.table with
      | adds hAdds => exact hAdded _ hAdds
      | @deletes _ x hDeletes =>
          have hNe : c ≠ x.conn := by
            rintro rfl
            exact hOpen rfl
          rw [hDeletes.describe, Function.update_of_ne hNe]
      | same hSame => exact hSame.describe c
  | accept hStep =>
      rcases hStep.table with ⟨x, hAdds⟩ | hSame
      · exact hAdded x hAdds
      · exact hSame.describe c

theorem IsOpened.blank
    (hOpened : IsOpened cfg conn) :
    (∀ k, conn.inorderView.slots cfg.inorderStrategy k =
        none) ∧
      conn.inputQueue = [] := by
  rcases hOpened with ⟨fresh, host, h, a, sa, p, rfl⟩
  refine ⟨openedConn_slots cfg fresh host h a sa p, ?_⟩
  exact congrArg InorderView.inputQueue
    (openedConn_inorderView cfg fresh host h a sa p)

/- A connection that was not open is new. -/
theorem Moves.conn_of_none
    (hFree : e.conns c = none)
    (hMoves : Moves fmt cfg e move e')
    (hConn' : e'.conns c = some conn') :
    move.opens = some c ∧ IsOpened cfg conn' := by
  have hUpdated : ∀ d conn₁ conn₂, e.conns d = some conn₁ →
      e'.conns ≠ Function.update e.conns d conn₂ := by
    intro d conn₁ conn₂ hConn₁ hConns
    have hNe : c ≠ d := by
      rintro rfl
      cases hFree.symm.trans hConn₁
    rw [hConns, Function.update_of_ne hNe, hFree] at hConn'
    cases hConn'
  have hSameConns : e'.conns ≠ e.conns := by
    intro hConns
    rw [hConns, hFree] at hConn'
    cases hConn'
  have hTouched : ∀ q, ¬ TouchesOne q e e' := by
    rintro q (hSame | ⟨d, conn₁, conn₂, hConn₁, -, hConns⟩)
    · exact hSameConns hSame
    · exact hUpdated d conn₁ _ hConn₁ hConns
  have hCalled : ∀ call, Calls fmt cfg e call e' →
      (StackMove.call call).opens = some c ∧
        IsOpened cfg conn' := by
    intro call hCall
    cases hCall.conns with
    | @opens _ d fresh h a sa _ _ hConns =>
        rw [hConns] at hConn'
        by_cases hEq : c = d
        · subst hEq
          rw [Function.update_self] at hConn'
          cases hConn'
          exact ⟨rfl, fresh, _, h, a, sa, _, rfl⟩
        · rw [Function.update_of_ne hEq, hFree] at hConn'
          cases hConn'
    | frees hConn₁ hConns =>
        exact absurd hConns (hUpdated _ _ _ hConn₁)
    | numbers hConn₁ hConns =>
        exact absurd hConns (hUpdated _ _ _ hConn₁)
    | touches _ hTouches => exact absurd hTouches (hTouched _)
  cases hMoves with
  | call hCall => exact hCalled _ hCall
  | accept hStep =>
      cases hStep with
      | opens hCall => exact hCalled _ hCall
      | replays _ hOld hIngress =>
          exact absurd (runIngressPath_touchesOne
            (Nat.ne_of_lt hOld) hIngress) (hTouched _)
      | dequeues hConn _ =>
          exact absurd rfl (hUpdated _ _ _ hConn)
      | signals hConn =>
          exact absurd rfl (hUpdated _ _ _ hConn)

/- A step that opens a connection found it closed. -/
theorem Moves.opened
    (hMoves : Moves fmt cfg e move e')
    (hOpens : move.opens = some c) :
    e.conns c = none ∧
      ∃ conn', e'.conns c = some conn' := by
  have hCalled : ∀ {fresh h a sa},
      Calls fmt cfg e (.establish c fresh h a sa) e' →
        e.conns c = none ∧
          ∃ conn', e'.conns c = some conn' := by
    intro fresh h a sa hCall
    cases hCall with
    | establish _ hFree hEstablish =>
        have hConns := congrFun (nbEstablish_conns hEstablish) c
        rw [Function.update_self] at hConns
        exact ⟨hFree, _, hConns⟩
  cases hMoves with
  | @call call _ hCall =>
      cases call with
      | establish =>
          cases hOpens
          exact hCalled hCall
      | _ => cases hOpens
  | accept hStep =>
      cases hStep with
      | opens hCall =>
          cases hOpens
          exact hCalled hCall
      | _ => cases hOpens

/- One that is closed then stays closed otherwise. -/
theorem Moves.closed
    (hMoves : Moves fmt cfg e move e')
    (hFree : e.conns c = none)
    (hNot : move.opens ≠ some c) :
    e'.conns c = none := by
  cases hConn' : e'.conns c with
  | none => rfl
  | some conn' =>
      exact absurd (hMoves.conn_of_none hFree hConn').1 hNot

/-
  Where the connections of a host come from: each was open
  before, with the same ids, or is new and empty.
-/
theorem Moves.conn_cases
    (hMoves : Moves fmt cfg e move e')
    (hConn' : e'.conns c = some conn') :
    (∃ conn, e.conns c = some conn ∧
        move ≠ .call (.destablish c) ∧
        conn'.tableEntry c = conn.tableEntry c) ∨
      (∀ k, conn'.inorderView.slots cfg.inorderStrategy k =
          none) ∧
        conn'.inputQueue = [] := by
  cases hConn : e.conns c with
  | none =>
      exact Or.inr (hMoves.conn_of_none hConn hConn').2.blank
  | some conn =>
      have hOpen : move ≠ .call (.destablish c) := by
        rintro rfl
        cases hMoves with
        | call hCall =>
            cases hCall with
            | destablish hDestablish =>
                rcases nbDestablish_ok_iff.mp hDestablish with
                  ⟨conn, -, rfl⟩
                simp at hConn'
      have hEntry := hMoves.describe_eq hConn hOpen
      rw [Endpoint.describe, hConn', Endpoint.describe, hConn]
        at hEntry
      exact Or.inl ⟨conn, rfl, hOpen, Option.some.inj hEntry⟩

/- A read takes the entry in front, if there is one. -/
theorem nbRead_queue
    {maxLen : Int}
    {bytes : List Byte}
    (hConn : e.conns c = some conn)
    (hConn' : e'.conns c = some conn')
    (hRead : nbRead fmt c maxLen e = .ok (bytes, e')) :
    conn.inputQueue = [] ∧ bytes = [] ∧
        conn'.inputQueue = [] ∨
      ∃ p size, conn.inputQueue =
          (p, size) :: conn'.inputQueue ∧
        0 ≤ min maxLen size ∧
        fmt.readPayload (min maxLen size).toNat
          (e.packets p) = .ok bytes := by
  unfold nbRead at hRead
  rw [Endpoint.loadConn_eq_ok_iff.mpr hConn, ok_bind] at hRead
  cases hQueue : conn.inputQueue with
  | nil =>
      rw [hQueue] at hRead
      cases hRead
      cases hConn.symm.trans hConn'
      exact Or.inl ⟨rfl, rfl, hQueue⟩
  | cons entry rest =>
      rcases entry with ⟨p, size⟩
      rw [hQueue] at hRead
      dsimp only at hRead
      have hMin : (if maxLen < size then maxLen else size) =
          min maxLen size := by
        split <;> omega
      rw [hMin] at hRead
      split at hRead
      · cases hRead
      · next hNot =>
          rcases bind_eq_ok_iff.mp hRead with
            ⟨copied, hCopy, hEnd⟩
          cases hEnd
          rw [Endpoint.modifyConn_eq hConn,
            Endpoint.setConn_conns_self] at hConn'
          cases hConn'
          exact Or.inr ⟨p, size, rfl, by omega, hCopy⟩

end Conns

------------------------------------------------------------
-- Where Data Is Put
------------------------------------------------------------

section Data

variable
    {fmt : PacketFormat P}
    {cfg : Config}
    {c : ConnPtr}
    {p : PacketPtr}
    {e e' : Endpoint P}

/-
  The connection that data is for places the packet by its
  number, and queues what can be read now.
-/
theorem IngressResult.places
    (hIngress : IngressResult fmt cfg p e e')
    (hOld : p < e.nextPacket)
    (hWhole : fmt.Whole (e.packets p))
    (hReceiver : dataReceiver fmt cfg p e = some c) :
    ∃ conn conn' status w taken,
      e.conns c = some conn ∧ e'.conns c = some conn' ∧
      place cfg.inorderStrategy
          (fmt.getWord .sequenceNumber (e.packets p)) p
          conn.inorderView = (status, w, taken) ∧
      conn'.inorderView =
        { w with inputQueue := conn'.inputQueue } ∧
      conn'.inputQueue = conn.inputQueue ++
        payloads (fun q => fmt.sentLen (e'.packets q))
          (arrivedPackets status p taken) := by
  rcases dataReceiver_eq_some_iff.mp hReceiver with
    ⟨y, hCheck, hHost, hLookup, hNe, hAck⟩
  cases hIngress with
  | dropped hFront =>
      cases hFront with
      | rejected hCheck' => cases hCheck.symm.trans hCheck'
      | unclaimed hCheck' hOther =>
          cases hCheck.symm.trans hCheck'
          rcases hOther with hOther | ⟨hNone, -⟩
          · exact absurd hHost hOther
          · exact absurd (hLookup.symm.trans hNone) hNe
      | parked hCheck' _ hNone =>
          cases hCheck.symm.trans hCheck'
          exact absurd (hLookup.symm.trans hNone) hNe
  | @routed _ status _ hCheck' _ _ hBack =>
      cases hCheck.symm.trans hCheck'
      rw [hLookup] at hBack
      let z := fmt.setInteger .flowIdentifier c y
      have hOwn : (e.setPacket p z).packets p = z :=
        Endpoint.setPacket_packets_self _ _ _
      cases hBack with
      | ack hOn hNot =>
          refine absurd ?_ hNot
          rw [hOwn, PacketFormat.getWord_setInteger_ne
            (Field.fits_of_bits_ne (by decide) _) (by decide)]
          exact hAck hOn
      | @data conn e₁ _ v taken _ hConn hAcked hAbsorb =>
          rcases absorb_ok_iff.mp hAbsorb with
            ⟨w, hPlace, -, hView⟩
          have hRestored : fmt.restoreTotalLen z = z :=
            restoreTotalLen_setInteger
              (checkPacket_restored hCheck hWhole.sized)
              (Field.fits_of_bits_ne (by decide)) (by decide)
              (by decide) c
          have hOwn₁ : e₁.packets p = z :=
            (hAcked.packets_eq (Nat.ne_of_lt hOld)).trans hOwn
          have hLen := InorderModule.ingressLen_eq
            cfg.inorderStrategy (show fmt.restoreTotalLen
              (e₁.packets p) = _ by rw [hOwn₁, hRestored])
          have hAfter : ((e₁.setConn c (arrivedConn conn status
              v)).restoreAll fmt (arrivedPackets status p
                taken)).conns c =
              some (arrivedConn conn status v) :=
            Endpoint.setConn_conns_self _ _ _
          have hView' : (arrivedConn conn status v
              ).inorderView = v :=
            (arrivedConn_members conn status v).1
          have hQueue : (arrivedConn conn status v
              ).inputQueue = v.inputQueue :=
            congrArg InorderView.inputQueue hView'
          have hLens : (fun q => fmt.sentLen (((e₁.setConn c
                (arrivedConn conn status v)).restoreAll fmt
                  (arrivedPackets status p taken)).packets q)) =
              fun q => fmt.sentLen (e₁.packets q) := by
            funext q
            exact (PacketFormat.SamePacket.restoreAll
              (e := e₁.setConn c _) _ q).sentLen
          have hNumber : fmt.getWord .sequenceNumber
              ((e.setPacket p z).packets p) =
              fmt.getWord .sequenceNumber (e.packets p) := by
            rw [hOwn, PacketFormat.getWord_setInteger_ne
              (Field.fits_of_bits_ne (by decide) _)
              (by decide)]
            exact (PacketFormat.SamePacket.checked hWhole
              hCheck).getWord rfl (by decide)
          rw [hNumber] at hPlace
          refine ⟨conn, _, status, w, taken, hConn, hAfter,
            hPlace, ?_, ?_⟩
          · rw [hView', hQueue, hView]
          · rw [hLens, hQueue, hView, hLen]
            rfl

/- Entries are made for packets that are delivered. -/
theorem mem_payloads_iff
    {len : PacketPtr → Int}
    {packets : List PacketPtr}
    {entry : PacketPtr × Int} :
    entry ∈ payloads len packets ↔
      entry.1 ∈ packets ∧ entry.2 = len entry.1 ∧
        entry.2 ≠ 0 := by
  rcases entry with ⟨q, size⟩
  simp only [payloads, List.mem_map, List.mem_filter,
    decide_eq_true_eq, Prod.mk.injEq]
  constructor
  · rintro ⟨_, ⟨hMem, hNe⟩, rfl, rfl⟩
    exact ⟨hMem, rfl, hNe⟩
  · rintro ⟨hMem, rfl, hNe⟩
    exact ⟨q, ⟨hMem, hNe⟩, rfl, rfl⟩

end Data

end NetBlocks
