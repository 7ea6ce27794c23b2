import NetBlocks.Correctness.Ledger
import NetBlocks.Core.TimerCalls
import NetBlocks.Correctness.ConnectionTable

/-
  Redelivery over whole runs: which packets have an active
  timer, and which are in a redelivery buffer.

  Main declarations:
    * `Records`
    * `KeepsSlots`
    * `Sends.effect`, `nbEstablish_effect`, and
      `ingress_effect`
    * `redelivers_of_run`
-/

namespace NetBlocks

open TransitionSystem Except

variable {P : Type}

------------------------------------------------------------
-- Recording What Is Sent and Acknowledged
------------------------------------------------------------

/-
  The connection and number a received packet acknowledges,
  when it reaches a connection and is an ack.
-/
def ackOf
    (fmt : PacketFormat P)
    (cfg : Config)
    (e : Endpoint P)
    (x : P) : Option (ConnPtr × BitVec 32) :=
  match checkPacket fmt cfg x with
  | .ok (y, true) =>
      if fmt.getInteger .dstHostId y = e.myLocalHostId ∧
          lookup fmt cfg e y ≠ 0 ∧
          fmt.getWord .ackSequenceNumber y ≠ 0 then
        some (lookup fmt cfg e y,
          fmt.getWord .ackSequenceNumber y)
      else
        none
  | _ => none

/- The ledger after a call that is made at `e`. -/
def record
    (fmt : PacketFormat P)
    (cfg : Config)
    (e : Endpoint P)
    (ledger : Ledger) : Call P → Ledger
| .establish c _ h a _ =>
    if ¬ IsWildcard h a ∧ cfg.signalingEnabled then
      ledger ++ [⟨some c, e.nextPacket, 1011, false⟩]
    else
      ledger
| .destablish c => ledger.map (SentRecord.orphan c)
| .send c _ =>
    match e.conns c with
    | none => ledger
    | some conn =>
        ledger ++ [⟨some c, e.nextPacket,
          conn.lastSentSequence + 1, false⟩]
| .ingress x _ =>
    match ackOf fmt cfg e x with
    | none => ledger
    | some (c, n) =>
        ledger.map (SentRecord.receiveAck c n)
| _ => ledger

/- A call, and what the ledger notes of it. -/
def Records
    (fmt : PacketFormat P)
    (cfg : Config)
    (s : Endpoint P × Ledger)
    (call : Call P)
    (s' : Endpoint P × Ledger) : Prop :=
  Calls fmt cfg s.1 call s'.1 ∧
    s'.2 = record fmt cfg s.1 s.2 call

/-
  Packets are sent while the slot of their number is empty,
  and acks are for the packet in the slot of theirs.
-/
def KeepsSlots
    (fmt : PacketFormat P)
    (cfg : Config)
    (e : Endpoint P) : Call P → Prop
| .send c _ => ∀ conn, e.conns c = some conn →
    conn.redeliveryBuffer
      (slot (conn.lastSentSequence + 1)) = none
| .ingress x _ => ∀ c n, ackOf fmt cfg e x = some (c, n) →
    ∀ conn q, e.conns c = some conn →
      conn.redeliveryBuffer (slot n) = some q →
        e.numberOf fmt q = n
| _ => True

------------------------------------------------------------
-- Steps and the Books
------------------------------------------------------------

/- The timers, buffers, and old packets are as they were. -/
structure SameBooks
    (fmt : PacketFormat P)
    (e e' : Endpoint P) : Prop where
  timers : e'.timers = e.timers
  buffers : ∀ c, e'.buffers c = e.buffers c
  packets : KeepsPackets fmt e e'

section Frames

variable
    {fmt : PacketFormat P}
    {cfg : Config}
    {e e₁ e' : Endpoint P}
    {c : ConnPtr}
    {p : PacketPtr}
    {conn conn' : Connection}

theorem SameBooks.of_packets_eq
    (hTimers : e'.timers = e.timers)
    (hConns : e'.conns = e.conns)
    (hPackets : e'.packets = e.packets)
    (hNext : e'.nextPacket = e.nextPacket) :
    SameBooks fmt e e' where
  timers := hTimers
  buffers c := by
    rw [Endpoint.buffers, hConns, Endpoint.buffers]
  packets := .of_old (Nat.le_of_eq hNext.symm)
    (fun p _ => congrFun hPackets p)

theorem SameBooks.refl
    (e : Endpoint P) :
    SameBooks fmt e e :=
  .of_packets_eq rfl rfl rfl rfl

theorem SameBooks.trans
    (hFirst : SameBooks fmt e e₁)
    (hSecond : SameBooks fmt e₁ e') :
    SameBooks fmt e e' where
  timers := hSecond.timers.trans hFirst.timers
  buffers c := (hSecond.buffers c).trans (hFirst.buffers c)
  packets := hFirst.packets.trans hSecond.packets

theorem buffers_of_some
    (hConn : e.conns c = some conn) :
    e.buffers c = some conn.redeliveryBuffer := by
  rw [Endpoint.buffers, hConn]
  rfl

theorem buffers_setConn
    (conn : Connection) :
    (e.setConn c conn).buffers =
      Function.update e.buffers c
        (some conn.redeliveryBuffer) := by
  funext d
  rw [Function.update_apply]
  split
  · next hEq =>
      subst hEq
      exact buffers_of_some (Endpoint.setConn_conns_self _ _ _)
  · next hNe =>
      rw [Endpoint.buffers,
        Endpoint.setConn_conns_of_ne _ _ hNe,
        Endpoint.buffers]

/- Assigning other members than the redelivery buffer. -/
theorem SameBooks.setConn
    (hConn : e.conns c = some conn)
    (hBuffer : conn'.redeliveryBuffer =
      conn.redeliveryBuffer) :
    SameBooks fmt e (e.setConn c conn') where
  timers := rfl
  buffers d := by
    rw [buffers_setConn, hBuffer, ← buffers_of_some hConn,
      Function.update_eq_self]
  packets := .of_old (Nat.le_refl _) (fun _ _ => rfl)

theorem SameBooks.restoreAll
    (taken : List PacketPtr) :
    SameBooks fmt e (e.restoreAll fmt taken) :=
  ⟨rfl, fun _ => rfl, .restoreAll taken⟩

/- The packet of an ack is new. -/
theorem Acked.sameBooks
    {seq : BitVec 32}
    (hAcked : Acked fmt cfg conn seq e e') :
    SameBooks fmt e e' := by
  cases hAcked with
  | off => exact .refl e
  | sent =>
      refine ⟨rfl, fun _ => rfl, .of_old (Nat.le_succ _) ?_⟩
      intro q hq
      exact Endpoint.setPacket_packets_of_ne e.requested _
        (Nat.ne_of_lt hq)

/- The buffer of a received packet is new. -/
theorem SameBooks.received
    (x y : P) :
    SameBooks fmt e
      ((e.polled x).setPacket e.nextPacket y) := by
  refine ⟨rfl, fun _ => rfl, .of_old (Nat.le_succ _) ?_⟩
  intro q hq
  have hNe := Nat.ne_of_lt hq
  exact (Endpoint.setPacket_packets_of_ne _ _ hNe).trans
    (polled_packets_of_ne x hNe)

theorem FrontResult.sameBooks
    {x : P}
    {status : HookStatus}
    (hFront : FrontResult fmt cfg e.nextPacket (e.polled x)
      status e') :
    SameBooks fmt e e' := by
  cases hFront with
  | rejected => exact .received x _
  | unclaimed => exact .received x _
  | @parked y listener conn q _ _ _ _ _ _ hConn =>
      let e₁ := (e.polled x).setPacket e.nextPacket y
      have hQueued : SameBooks fmt e₁ (e₁.setConn listener
          { conn with acceptQueue := q }) :=
        .setConn hConn rfl
      have hTold : SameBooks fmt
          (e₁.setConn listener { conn with acceptQueue := q })
          ((e.polled x).parked e.nextPacket y listener conn
            q) :=
        .of_packets_eq rfl rfl rfl rfl
      exact ((SameBooks.received x y).trans hQueued).trans
        hTold
  | routed => exact .received x _

theorem arrivedConn_redeliveryBuffer
    (conn : Connection)
    (status : HookStatus)
    (v : InorderView) :
    (arrivedConn conn status v).redeliveryBuffer =
      conn.redeliveryBuffer := by
  unfold arrivedConn
  dsimp only
  split <;> rfl

/- Reading takes from another queue. -/
theorem nbRead_sameBooks
    {maxLen : Int}
    {bytes : List Byte}
    (hRead : nbRead fmt c maxLen e = .ok (bytes, e')) :
    SameBooks fmt e e' := by
  rcases nbRead_frame hRead with ⟨conn, queue, hConn, rfl⟩
  exact .setConn hConn rfl

end Frames

------------------------------------------------------------
-- Calls and the Books
------------------------------------------------------------

section Steps

variable
    {fmt : PacketFormat P}
    {cfg : Config}
    {e e' : Endpoint P}
    {ledger : Ledger}
    {active free : List TimerPtr}
    {c : ConnPtr}
    {conn : Connection}

theorem SameBooks.books
    (hSame : SameBooks fmt e e')
    (hBooks : Books fmt e ledger active free) :
    Books fmt e' ledger active free :=
  hBooks.congr (hSame.timers ▸ hBooks.pool) (List.Perm.refl _)
    (fun _ => by rw [hSame.timers]) hSame.buffers hSame.packets

theorem numberedConn_redeliveryBuffer
    (hReliable : cfg.reliableEnabled = true)
    (p : PacketPtr) :
    (numberedConn cfg conn p).redeliveryBuffer =
      Function.update conn.redeliveryBuffer
        (slot (conn.lastSentSequence + 1)) (some p) := by
  rw [numberedConn, if_pos hReliable]

/-
  What sending the packet in the next buffer does to timers,
  buffers, and packets.
-/
structure SendEffect
    (fmt : PacketFormat P)
    (e : Endpoint P)
    (c : ConnPtr)
    (conn : Connection)
    (active free : List TimerPtr)
    (u : TimerPtr)
    (active' : List TimerPtr)
    (e' : Endpoint P) : Prop where
  pool : e'.timers.Represents active' free
  perm : active'.Perm (u :: active)
  argument : (e'.timers.allocatedTimers u).argument =
    e.nextPacket
  others : ∀ x, x ≠ u →
    (e'.timers.allocatedTimers x).argument =
      (e.timers.allocatedTimers x).argument
  buffers : e'.buffers = Function.update e.buffers c
    (some (Function.update conn.redeliveryBuffer
      (slot (conn.lastSentSequence + 1))
      (some e.nextPacket)))
  packets : KeepsPackets fmt e e'
  handedOut : e.nextPacket < e'.nextPacket
  timer : e'.timerOf fmt e.nextPacket = some u
  number : e'.numberOf fmt e.nextPacket =
    conn.lastSentSequence + 1

theorem Sends.effect
    {y x : P}
    {t : Option TimerPtr}
    {timers : TimerPool}
    (hPool : e.timers.Represents active free)
    (hReliable : cfg.reliableEnabled = true)
    (hSends : Sends fmt cfg e conn e.nextPacket y x t timers)
    (hFits : HostsFit conn e.myLocalHostId)
    (hSized : fmt.Sized y)
    (c : ConnPtr) :
    ∃ u free' active', free = u :: free' ∧
      SendEffect fmt e c conn active free' u active'
        (e.requested.sent fmt cfg c conn e.nextPacket timers
          x) := by
  rcases startTimer_represents hReliable hPool
      hSends.timer with
    ⟨u, free', active', rfl, rfl, hPool', hPerm, hArgument,
      hOthers⟩
  let e₁ := e.requested.sent fmt cfg c conn e.nextPacket
    timers x
  have hPacket : e₁.packets e.nextPacket = x :=
    Endpoint.setPacket_packets_self _ _ _
  have hOld : ∀ p, p < e.nextPacket →
      e₁.packets p = e.packets p := fun p hp =>
    Endpoint.setPacket_packets_of_ne _ _ (Nat.ne_of_lt hp)
  refine ⟨u, free', active', rfl, hPool', hPerm, hArgument,
    hOthers, ?_, .of_old (Nat.le_succ _) hOld,
    Nat.lt_succ_self _, ?_, ?_⟩
  · rw [← numberedConn_redeliveryBuffer hReliable]
    exact buffers_setConn (e := e) _
  · change toTimerPtr (fmt.getInteger _
      (e₁.packets e.nextPacket)) = _
    rw [hPacket, hSends.redeliveryTimer hFits hSized hReliable]
    exact toTimerPtr_toUll u
  · change fmt.getWord _ (e₁.packets e.nextPacket) = _
    rw [hPacket]
    exact hSends.sequenceNumber hFits hSized
      (Or.inr hReliable)

/- A packet is entered when it is sent. -/
theorem Books.sends
    {y x : P}
    {t : Option TimerPtr}
    {timers : TimerPool}
    (hBooks : Books fmt e ledger active free)
    (hReliable : cfg.reliableEnabled = true)
    (hSends : Sends fmt cfg e conn e.nextPacket y x t timers)
    (hFits : HostsFit conn e.myLocalHostId)
    (hSized : fmt.Sized y)
    (hBuffer : e.buffers c = some conn.redeliveryBuffer)
    (hEmpty : conn.redeliveryBuffer
      (slot (conn.lastSentSequence + 1)) = none) :
    ∃ active' free', Books fmt
      (e.requested.sent fmt cfg c conn e.nextPacket timers x)
      (ledger ++ [⟨some c, e.nextPacket,
        conn.lastSentSequence + 1, false⟩])
      active' free' := by
  rcases hSends.effect hBooks.pool hReliable hFits hSized c
    with ⟨u, free', active', rfl, hEffect⟩
  exact ⟨active', free', hBooks.sent hEffect.pool hEffect.perm
    hEffect.argument hEffect.others hBuffer hEmpty
    hEffect.buffers hEffect.packets (Nat.le_refl _)
    hEffect.handedOut hEffect.timer hEffect.number⟩

/-
  What establishing does: the connection starts with an empty
  buffer, and may send a signal.
-/
inductive EstablishEffect
    (fmt : PacketFormat P)
    (cfg : Config)
    (e : Endpoint P)
    (c : ConnPtr)
    (h a : BitVec 32) : Endpoint P → Prop
| quiet {e₀ e' : Endpoint P} :
    ¬ (¬ IsWildcard h a ∧ cfg.signalingEnabled = true) →
    e₀.timers = e.timers →
    e₀.buffers = Function.update e.buffers c
      (some (fun _ => none)) →
    KeepsPackets fmt e e₀ →
    SameBooks fmt e₀ e' →
    EstablishEffect fmt cfg e c h a e'
| signals {e₀ e' : Endpoint P} {conn : Connection} {x : P}
    {t : Option TimerPtr} {timers : TimerPool} :
    ¬ IsWildcard h a ∧ cfg.signalingEnabled = true →
    e₀.timers = e.timers →
    e₀.buffers = Function.update e.buffers c
      (some (fun _ => none)) →
    KeepsPackets fmt e e₀ →
    e₀.nextPacket = e.nextPacket ∧ e₀.timeNow = e.timeNow →
    conn.redeliveryBuffer = (fun _ => none) →
    conn.lastSentSequence + 1 = 1011 →
    HostsFit conn e₀.myLocalHostId →
    Sends fmt cfg e₀ conn e₀.nextPacket
      (lengthPacket fmt 0 (e₀.packets e₀.nextPacket)) x t
      timers →
    SameBooks fmt (e₀.requested.sent fmt cfg c conn
      e₀.nextPacket timers x) e' →
    EstablishEffect fmt cfg e c h a e'

theorem nbEstablish_effect
    {fresh : Connection}
    {h a sa : BitVec 32}
    (hReliable : cfg.reliableEnabled = true)
    (hHosts : HostsKept e)
    (hEstablish : nbEstablish fmt cfg c fresh h a sa e =
      .ok e') :
    EstablishEffect fmt cfg e c h a e' := by
  rcases nbEstablish_ok_iff.mp hEstablish with
    ⟨netState, conn', e₁, hAdd, hSignal, rfl⟩
  let conn₀ := establishedConn cfg fresh (e.hostLocalId h) a sa
  let e₀ := e.registered c conn₀ netState
  have hConn₀ : e₀.conns c = some conn₀ :=
    Endpoint.setConn_conns_self _ c _
  have hTimers : e₀.timers = e.timers := rfl
  have hNext : e₀.nextPacket = e.nextPacket ∧
      e₀.timeNow = e.timeNow := ⟨rfl, rfl⟩
  have hBlank : conn₀.redeliveryBuffer = fun _ => none :=
    if_pos hReliable
  have hBuffers : e₀.buffers = Function.update e.buffers c
      (some (fun _ => none)) := by
    rw [← hBlank]
    exact buffers_setConn (e := { e with netState }) _
  have hPackets : KeepsPackets fmt e e₀ :=
    .of_old (Nat.le_refl _) (fun _ _ => rfl)
  have hRouted : SameBooks fmt e₁
      (e₁.setConn c (routedConn cfg sa conn')) := by
    refine .setConn hSignal.conns_self ?_
    unfold routedConn
    split <;> rfl
  change SignalResult fmt cfg c conn₀ h a e₀ conn' e₁
    at hSignal
  cases hSignal with
  | wildcard hWildcard hEq =>
      have hSet : SameBooks fmt e₀ (e₀.setConn c conn') :=
        .setConn hConn₀ (by rw [hEq])
      exact .quiet (fun hBoth => hBoth.1 hWildcard) hTimers
        hBuffers hPackets (hSet.trans hRouted)
  | unsignaled _ hOff hEq =>
      have hSet : SameBooks fmt e₀ (e₀.setConn c conn') :=
        .setConn hConn₀ (by rw [hEq])
      exact .quiet (by simp [hOff]) hTimers hBuffers hPackets
        (hSet.trans hRouted)
  | @signals conn₁ x t timers hNot hOn hEq hSends =>
      have hBuffer₁ : conn₁.redeliveryBuffer =
          fun _ => none := by
        rw [hEq]
        exact hBlank
      have hLast : conn₁.lastSentSequence + 1 = 1011 := by
        rw [hEq]
        rfl
      have hFits : HostsFit conn₁ e₀.myLocalHostId := by
        rw [hEq]
        exact ⟨Nat.lt_trans (lookup_lt _ _) (by decide),
          Nat.lt_trans hHosts.own (by decide)⟩
      exact .signals ⟨hNot, hOn⟩ hTimers hBuffers hPackets
        hNext hBuffer₁ hLast hFits hSends hRouted

/- A signal is as long as the headers. -/
theorem sized_signal
    (x : P) :
    fmt.Sized (lengthPacket fmt 0 x) :=
  sized_lengthPacket
    (Nat.lt_trans (Nat.lt_succ_self _) fmt.headerLen_lt)

/- An established connection may have sent a signal. -/
theorem Books.nbEstablish
    {fresh : Connection}
    {h a sa : BitVec 32}
    (hBooks : Books fmt e ledger active free)
    (hReliable : cfg.reliableEnabled = true)
    (hHosts : HostsKept e)
    (hFree : e.conns c = none)
    (hEstablish : nbEstablish fmt cfg c fresh h a sa e =
      .ok e') :
    ∃ active' free', Books fmt e'
      (record fmt cfg e ledger (.establish c fresh h a sa))
      active' free' := by
  have hNone : e.buffers c = none := by
    rw [Endpoint.buffers, hFree]
    rfl
  cases nbEstablish_effect hReliable hHosts hEstablish with
  | quiet hQuiet hTimers hBuffers hPackets hSame =>
      rw [record, if_neg hQuiet]
      exact ⟨active, free, hSame.books
        (hBooks.established hNone hTimers hBuffers hPackets)⟩
  | signals hSignals hTimers hBuffers hPackets hNext hBuffer
      hLast hFits hSends hSame =>
      rw [record, if_pos hSignals]
      have hBooks₀ :=
        hBooks.established hNone hTimers hBuffers hPackets
      rcases hBooks₀.sends (c := c) hReliable hSends hFits
          (sized_signal _)
          (by rw [hBuffers, Function.update_self, hBuffer])
          (by rw [hBuffer]) with
        ⟨active', free', hBooks₁⟩
      rw [hLast] at hBooks₁
      rw [← hNext.1]
      exact ⟨active', free', hSame.books hBooks₁⟩

/- A packet that is dropped on the way is no ack. -/
theorem ackOf_of_dropped
    {x : P}
    (hFront : FrontResult fmt cfg e.nextPacket (e.polled x)
      .hookDrop e') :
    ackOf fmt cfg e x = none := by
  have hCheckOf : ∀ {y : P} {passes : Bool},
      checkPacket fmt cfg ((e.polled x).packets e.nextPacket) =
        .ok (y, passes) →
      checkPacket fmt cfg x = .ok (y, passes) := by
    intro y passes hCheck
    rw [polled_packets_self] at hCheck
    exact hCheck
  cases hFront with
  | rejected hCheck => rw [ackOf, hCheckOf hCheck]
  | unclaimed hCheck hDrop =>
      rw [ackOf, hCheckOf hCheck]
      apply if_neg
      rintro ⟨hHost, hFound, -⟩
      rcases hDrop with hOther | ⟨hNone, -⟩
      · exact hOther hHost
      · exact hFound hNone
  | parked hCheck _ hNone =>
      rw [ackOf, hCheckOf hCheck]
      exact if_neg (fun hAck => hAck.2.1 hNone)

/-
  What a received packet does: an ack empties the slot of its
  number and returns the timer, anything else changes neither
  buffers nor timers.
-/
inductive IngressEffect
    (fmt : PacketFormat P)
    (cfg : Config)
    (e : Endpoint P)
    (x : P) : Endpoint P → Prop
| other {e' : Endpoint P} :
    ackOf fmt cfg e x = none →
    SameBooks fmt e e' →
    IngressEffect fmt cfg e x e'
| duplicate {e' : Endpoint P} {c : ConnPtr} {n : BitVec 32}
    {b : Slot → Option PacketPtr} :
    ackOf fmt cfg e x = some (c, n) →
    e.buffers c = some b →
    b (slot n) = none →
    SameBooks fmt e e' →
    IngressEffect fmt cfg e x e'
| acked {e₁ e' : Endpoint P} {c : ConnPtr} {n : BitVec 32}
    {b : Slot → Option PacketPtr} {q : PacketPtr}
    {t : TimerPtr} :
    ackOf fmt cfg e x = some (c, n) →
    e.buffers c = some b →
    b (slot n) = some q →
    SameBooks fmt e e₁ →
    e₁.timerOf fmt q = some t →
    e'.timers = (e₁.timers.removeTimer t).returnTimer t →
    e'.buffers = Function.update e₁.buffers c
      (some (Function.update b (slot n) none)) →
    KeepsPackets fmt e₁ e' →
    IngressEffect fmt cfg e x e'

theorem ingress_effect
    {x : P}
    {len : Int}
    (hReliable : cfg.reliableEnabled = true)
    (hIngress : ingress fmt cfg x len e = .ok e') :
    IngressEffect fmt cfg e x e' := by
  cases ingress_iff.mp hIngress with
  | dropped hFront =>
      exact .other (ackOf_of_dropped hFront) hFront.sameBooks
  | @routed y _ _ hCheck hHost hFound hBack =>
      rw [polled_packets_self] at hCheck
      let c := lookup fmt cfg e y
      let e₁ := (e.polled x).setPacket e.nextPacket
        (fmt.setInteger .flowIdentifier c y)
      have hSame : SameBooks fmt e e₁ := .received x _
      have hNumber : fmt.getWord .ackSequenceNumber
            (e₁.packets e.nextPacket) =
          fmt.getWord .ackSequenceNumber y := by
        rw [Endpoint.setPacket_packets_self]
        exact PacketFormat.getWord_setInteger_ne
          (Field.fits_of_bits_ne (by decide) _) (by decide)
      change BackResult fmt cfg e.nextPacket c e₁ _ _ at hBack
      cases hBack with
      | ack _ hAck hReceive =>
          rw [hNumber] at hAck hReceive
          have hAckOf : ackOf fmt cfg e x = some (c,
              fmt.getWord .ackSequenceNumber y) := by
            rw [ackOf, hCheck]
            exact if_pos ⟨hHost, hFound, hAck⟩
          rcases receiveAck_ok_iff.mp hReceive with
            ⟨conn, hConn, ⟨hEmpty, rfl⟩ |
              ⟨q, t, hHeld, hTimer, rfl⟩⟩
          · exact .duplicate hAckOf (buffers_of_some hConn)
              hEmpty hSame
          · let e₂ : Endpoint P := { e₁ with
              timers := (e₁.timers.removeTimer t
                ).returnTimer t }
            let conn₂ : Connection := { conn with
              redeliveryBuffer :=
                Function.update conn.redeliveryBuffer
                  (slot (fmt.getWord .ackSequenceNumber y))
                  none }
            have hPool : (e₂.setConn c conn₂).timers =
                (e₁.timers.removeTimer t).returnTimer t := rfl
            have hPackets : KeepsPackets fmt e₁
                (e₂.setConn c conn₂) :=
              .of_old (Nat.le_refl _) (fun _ _ => rfl)
            exact .acked hAckOf (buffers_of_some hConn) hHeld
              hSame hTimer hPool (buffers_setConn conn₂)
              hPackets
      | data hNone hConn hAcked =>
          have hAckOf : ackOf fmt cfg e x = none := by
            rw [ackOf, hCheck]
            apply if_neg
            rintro ⟨-, -, hAck⟩
            rw [hNumber] at hNone
            exact hAck (hNone hReliable)
          have hConn' := hConn
          rw [← hAcked.conns_eq] at hConn'
          refine .other hAckOf (hSame.trans ?_)
          exact (hAcked.sameBooks.trans (.setConn hConn'
            (arrivedConn_redeliveryBuffer _ _ _))).trans
              (.restoreAll _)

/- A received packet is entered when it is an ack. -/
theorem Books.ingress
    {x : P}
    {len : Int}
    (hBooks : Books fmt e ledger active free)
    (hReliable : cfg.reliableEnabled = true)
    (hSlots : KeepsSlots fmt cfg e (.ingress x len))
    (hIngress : ingress fmt cfg x len e = .ok e') :
    ∃ active' free', Books fmt e'
      (record fmt cfg e ledger (.ingress x len))
      active' free' := by
  cases ingress_effect hReliable hIngress with
  | other hAckOf hSame =>
      rw [record, hAckOf]
      exact ⟨active, free, hSame.books hBooks⟩
  | duplicate hAckOf hBuffer hEmpty hSame =>
      rw [record, hAckOf]
      refine ⟨active, free, ?_⟩
      change Books fmt e' (ledger.map _) active free
      rw [hBooks.receiveAck_eq hBuffer hEmpty]
      exact hSame.books hBooks
  | @acked e₁ _ c n b q t hAckOf hBuffer hHeld hSame hTimer
      hPool hBuffers hPackets =>
      rw [record, hAckOf]
      have hBooks₁ := hSame.books hBooks
      have hBuffer₁ : e₁.buffers c = some b :=
        (hSame.buffers c).trans hBuffer
      have hNumberOf : e₁.numberOf fmt q = n := by
        rcases hBooks.slots c b _ q hBuffer hHeld with
          ⟨r, hr, -, -, rfl, -⟩
        rw [hSame.packets.number _ (hBooks.handedOut r hr)]
        rcases Option.map_eq_some_iff.mp hBuffer with
          ⟨conn, hConn, rfl⟩
        exact hSlots _ _ hAckOf conn _ hConn hHeld
      rcases hBooks₁.acked hBuffer₁ hHeld hTimer hNumberOf
          hPool hBuffers hPackets with ⟨active', hBooks'⟩
      exact ⟨active', t :: free, hBooks'⟩

/- What one call preserves. -/
theorem Books.step
    {call : Call P}
    (hBooks : Books fmt e ledger active free)
    (hReliable : cfg.reliableEnabled = true)
    (hHosts : HostsKept e)
    (hSlots : KeepsSlots fmt cfg e call)
    (hCall : Calls fmt cfg e call e') :
    ∃ active' free', Books fmt e'
      (record fmt cfg e ledger call) active' free' := by
  cases hCall with
  | establish _ hFree hEstablish =>
      exact hBooks.nbEstablish hReliable hHosts hFree
        hEstablish
  | destablish hDestablish =>
      rcases nbDestablish_ok_iff.mp hDestablish with
        ⟨conn, hConn, rfl⟩
      refine ⟨active, free, hBooks.destablished rfl ?_ rfl
        rfl⟩
      funext d
      simp only [Endpoint.buffers, Function.update_apply]
      split <;> rfl
  | send hSend =>
      rcases nbSend_ok_iff.mp hSend with
        ⟨conn, y, x, t, timers, hConn, hWrite, hSends, -, rfl⟩
      rw [record, hConn]
      exact hBooks.sends hReliable hSends (hHosts.fits hConn)
        (sized_of_write hWrite) (buffers_of_some hConn)
        (hSlots conn hConn)
  | ingress hIngress =>
      exact hBooks.ingress hReliable hSlots hIngress
  | checkTimers hCheck =>
      rcases checkTimers_fires hBooks.pool hCheck with
        ⟨hPool, hPerm, hArgument, -⟩
      exact ⟨_, free, hBooks.congr hPool hPerm hArgument
        (fun _ => rfl)
        (.of_old (Nat.le_refl _) (fun _ _ => rfl))⟩
  | @tick now =>
      have hSame : SameBooks fmt e (NetBlocks.tick now e) :=
        .of_packets_eq rfl rfl rfl rfl
      exact ⟨active, free, hSame.books hBooks⟩
  | read hRead =>
      exact ⟨active, free,
        (nbRead_sameBooks hRead).books hBooks⟩

end Steps

------------------------------------------------------------
-- Redelivery on Live Connections
------------------------------------------------------------

/-
  A packet that was sent on a live connection and is not
  acknowledged is in the slot of its number and has an active
  timer. Once an ack of its number arrived it is in no buffer
  and no active timer is for it.
-/
structure Redelivers
    (fmt : PacketFormat P)
    (e : Endpoint P)
    (ledger : Ledger) : Prop where
  number : ∀ r ∈ ledger, e.numberOf fmt r.packet = r.number
  pending : ∀ r ∈ ledger, r.acked = false →
    ∀ c, r.conn = some c → ∃ conn, e.conns c = some conn ∧
      conn.redeliveryBuffer (slot r.number) = some r.packet ∧
      ∃ t, e.timers.IsActive t ∧
        (e.timers.allocatedTimers t).argument = r.packet
  acked : ∀ r ∈ ledger, r.acked = true →
    (∀ t, e.timers.IsActive t →
      (e.timers.allocatedTimers t).argument ≠ r.packet) ∧
    ∀ c conn k, e.conns c = some conn →
      conn.redeliveryBuffer k ≠ some r.packet

/- The books are in order, and host ids fit. -/
def RedeliveryInvariant
    (fmt : PacketFormat P)
    (s : Endpoint P × Ledger) : Prop :=
  HostsKept s.1 ∧
    ∃ active free, Books fmt s.1 s.2 active free

section Runs

variable
    {fmt : PacketFormat P}
    {cfg : Config}
    {e : Endpoint P}
    {ledger : Ledger}

theorem Books.redelivers
    {active free : List TimerPtr}
    (hBooks : Books fmt e ledger active free) :
    Redelivers fmt e ledger := by
  refine ⟨hBooks.number, ?_, ?_⟩
  · intro r hr hUnacked c hConn
    cases hLive : e.conns c with
    | none =>
        have hNone : e.buffers c = none := by
          rw [Endpoint.buffers, hLive]
          rfl
        exact absurd hNone (hBooks.owner r hr c hConn)
    | some conn =>
        rcases hBooks.armed r hr hUnacked with
          ⟨t, hActive, -, hArgument⟩
        exact ⟨conn, rfl, hBooks.held r hr hUnacked c _ hConn
          (buffers_of_some hLive), t,
          hBooks.pool.isActive_iff.mpr hActive, hArgument⟩
  · intro r hr hAcked
    have hNot : ∀ s ∈ ledger, s.acked = false →
        s.packet ≠ r.packet := by
      intro s hs hUnacked hPacket
      rw [hBooks.record_unique hs hr hPacket, hAcked]
        at hUnacked
      cases hUnacked
    constructor
    · intro t ht
      rcases hBooks.timed t
          (hBooks.pool.isActive_iff.mp ht) with
        ⟨s, hs, hUnacked, hTimer⟩
      rw [(hBooks.argument_eq hs hUnacked hTimer).2]
      exact hNot s hs hUnacked
    · intro c conn k hConn hHeld
      rcases hBooks.slots c _ k _ (buffers_of_some hConn) hHeld
        with ⟨s, hs, hUnacked, -, hPacket, -⟩
      exact hNot s hs hUnacked hPacket

/- A stack starts without packets and connections. -/
theorem redeliveryInvariant_netInit
    (fresh : NetState)
    (hConns : ∀ c, e.conns c = none)
    (hHead : e.timers.timersHead = none) :
    RedeliveryInvariant fmt (nbNetInit fresh e, []) := by
  have hBuffers : ∀ c, e.buffers c = none := by
    intro c
    rw [Endpoint.buffers, hConns]
    rfl
  refine ⟨.netInit fresh ?_, ?_⟩
  · intro c x hx
    rw [Endpoint.describe, hConns] at hx
    cases hx
  · have hReset : ∃ all, Books fmt (nbNetInit fresh e) []
        [] all :=
      Books.netInit fresh hHead (by simp) (by simp)
        (fun c b k hB => by simp [hBuffers c] at hB)
        (by simp) List.nodup_nil (by simp)
    rcases hReset with ⟨all, hBooks⟩
    exact ⟨[], all, hBooks⟩

theorem Records.redeliveryInvariant
    {s s' : Endpoint P × Ledger}
    {call : Call P}
    (hReliable : cfg.reliableEnabled = true)
    (hInvariant : RedeliveryInvariant fmt s)
    (hSlots : KeepsSlots fmt cfg s.1 call)
    (hRecords : Records fmt cfg s call s') :
    RedeliveryInvariant fmt s' := by
  rcases hInvariant with ⟨hHosts, active, free, hBooks⟩
  rcases hRecords with ⟨hCall, hLedger⟩
  refine ⟨hCall.hostsKept hHosts, ?_⟩
  rw [hLedger]
  exact hBooks.step hReliable hHosts hSlots hCall

/-
  Packets are redelivered exactly until they are acknowledged
  in every run that sends into empty slots only, and in which
  acks find the packet of their number or none.
-/
theorem redelivers_of_run
    {fresh : NetState}
    {calls : List (Call P)}
    {s' : Endpoint P × Ledger}
    (hReliable : cfg.reliableEnabled = true)
    (hConns : ∀ c, e.conns c = none)
    (hHead : e.timers.timersHead = none)
    (hRun : Run
      (Guarded (fun s => KeepsSlots fmt cfg s.1)
        (Records fmt cfg))
      (nbNetInit fresh e, []) calls s') :
    Redelivers fmt s'.1 s'.2 := by
  have hStep : ∀ (s : Endpoint P × Ledger) call s₁,
      RedeliveryInvariant fmt s →
      Guarded (fun s => KeepsSlots fmt cfg s.1)
        (Records fmt cfg) s call s₁ →
      RedeliveryInvariant fmt s₁ :=
    fun _ _ _ hInvariant hGuarded =>
      hGuarded.2.redeliveryInvariant hReliable hInvariant
        hGuarded.1
  rcases hRun.invariant hStep
      (redeliveryInvariant_netInit fresh hConns hHead) with
    ⟨-, active, free, hBooks⟩
  exact hBooks.redelivers

end Runs

------------------------------------------------------------
-- Thirty-Three Packets in Flight
------------------------------------------------------------

/- The small stack with reliability switched on. -/
def reliableConfig : Config :=
  { plainConfig .srcDstIdentifier with
    reliableEnabled := true }

/-
  `n` packets were sent on the connection `c`, from the buffer
  `p` on, and none was acknowledged.
-/
structure SentMany
    (fmt : PacketFormat P)
    (c : ConnPtr)
    (p : PacketPtr)
    (n : Nat)
    (s : Endpoint P × Ledger) : Prop where
  pool : ∃ active free, s.1.timers.Represents active free ∧
    free.length + n = maxTimerAllocs
  next : s.1.nextPacket = p + n
  conn : ∃ conn, s.1.conns c = some conn ∧
    conn.lastSentSequence = 1010 + BitVec.ofNat 32 n ∧
    ∀ m, n = m + 1 →
      conn.redeliveryBuffer
        (slot (1010 + BitVec.ofNat 32 n)) = some (p + m)
  first : n ≠ 0 → ⟨some c, p, 1011, false⟩ ∈ s.2

section Many

variable
    {fmt : PacketFormat P}
    {cfg : Config}
    {c : ConnPtr}
    {p : PacketPtr}

/- One more packet can be sent while there are timers. -/
theorem SentMany.succ
    {n : Nat}
    {s : Endpoint P × Ledger}
    (hReliable : cfg.reliableEnabled = true)
    (hChecksum : cfg.checksumEnabled = false)
    (hWrite : ∀ x, ∃ y, fmt.writePayload [] x = .ok y)
    (hMany : SentMany fmt c p n s)
    (hTimers : n < maxTimerAllocs) :
    ∃ s', Records fmt cfg s (.send c []) s' ∧
      SentMany fmt c p (n + 1) s' := by
  rcases hMany with
    ⟨⟨active, free, hPool, hLength⟩, hNext,
      ⟨conn, hConn, hLast, -⟩, hFirst⟩
  cases free with
  | nil =>
      rw [List.length_nil] at hLength
      omega
  | cons u free =>
      rcases startTimer_ok s.1.timeNow s.1.nextPacket
          hReliable hPool with ⟨timers, hStart⟩
      rcases startTimer_represents hReliable hPool hStart with
        ⟨u', free', active', -, hCons, hPool', -⟩
      cases hCons
      rcases hWrite (lengthPacket fmt 0
          (s.1.packets s.1.nextPacket)) with ⟨y, hY⟩
      have hComplete : ∀ z, ∃ x, completePacket fmt cfg conn
          s.1.myLocalHostId s.1.myHostId z = .ok x := by
        intro z
        simp [completePacket, checksumPacket, hChecksum]
      rcases hComplete (armPacket fmt cfg (some u)
          (sequencePacket fmt cfg conn y)) with ⟨x, hX⟩
      let e' := s.1.requested.sent fmt cfg c conn
        s.1.nextPacket timers x
      have hSend : nbSend fmt cfg c [] s.1 = .ok (0, e') :=
        nbSend_ok_iff.mpr ⟨conn, y, x, some u, timers, hConn,
          hY, ⟨hStart, hX⟩, rfl, rfl⟩
      have hNumber : conn.lastSentSequence + 1 =
          1010 + BitVec.ofNat 32 (n + 1) := by
        rw [hLast, BitVec.ofNat_add, BitVec.add_assoc]
        rfl
      refine ⟨(e', record fmt cfg s.1 s.2 (.send c [])),
        ⟨.send hSend, rfl⟩, ⟨active', free, hPool', ?_⟩, ?_,
        ⟨numberedConn cfg conn s.1.nextPacket,
          Endpoint.setConn_conns_self _ _ _, hNumber, ?_⟩, ?_⟩
      · rw [List.length_cons] at hLength
        omega
      · exact congrArg Nat.succ hNext
      · rintro m hM
        cases hM
        rw [← hNumber, numberedConn_redeliveryBuffer hReliable,
          Function.update_self, hNext]
      · intro _
        rw [record, hConn]
        by_cases hZero : n = 0
        · subst hZero
          apply List.mem_append_right
          rw [hNumber, hNext]
          exact List.mem_singleton_self _
        · exact List.mem_append_left _ (hFirst hZero)

/- Any number of packets can be sent, up to the timers. -/
theorem SentMany.exists
    {n : Nat}
    {s : Endpoint P × Ledger}
    (hReliable : cfg.reliableEnabled = true)
    (hChecksum : cfg.checksumEnabled = false)
    (hWrite : ∀ x, ∃ y, fmt.writePayload [] x = .ok y)
    (hNone : SentMany fmt c p 0 s)
    (hTimers : n ≤ maxTimerAllocs) :
    ∃ calls s', Run (Records fmt cfg) s calls s' ∧
      SentMany fmt c p n s' := by
  induction n with
  | zero => exact ⟨[], s, .nil s, hNone⟩
  | succ n ih =>
      rcases ih (by omega) with ⟨calls, s₁, hRun, hMany⟩
      rcases hMany.succ hReliable hChecksum hWrite hTimers with
        ⟨s₂, hRecords, hMany'⟩
      exact ⟨calls ++ [.send c []], s₂,
        hRun.append (.cons hRecords (.nil s₂)), hMany'⟩

/- The 33rd packet takes the slot of the first. -/
theorem SentMany.not_redelivers
    {s : Endpoint P × Ledger}
    (hMany : SentMany fmt c p 33 s) :
    ¬ Redelivers fmt s.1 s.2 := by
  intro hRedelivers
  rcases hMany.conn with ⟨conn, hConn, -, hSlot⟩
  rcases hRedelivers.pending _ (hMany.first (by decide)) rfl c
      rfl with ⟨conn', hConn', hHeld, -⟩
  cases hConn.symm.trans hConn'
  have hSame : slot (1010 + BitVec.ofNat 32 33) =
      slot 1011 := by decide
  have hLast := hSlot 32 rfl
  rw [hSame, hHeld] at hLast
  have hEq : p = p + 32 := Option.some.inj hLast
  exact absurd hEq (Nat.ne_of_lt (by omega))

end Many

/- A connection of app 7 to app 8 at host 9. -/
def establishReliable
    (e : Endpoint PacketBuffer) :
    Except Fault (Endpoint PacketBuffer) :=
  nbEstablish netPacketFormat reliableConfig 1
    blankConnection 9 8 7 e

/- Establishing is a recorded call that leaves the ledger. -/
theorem records_establishReliable
    {e₁ : Endpoint PacketBuffer}
    (hEstablish : establishReliable bareStack = .ok e₁) :
    Records netPacketFormat reliableConfig (bareStack, [])
      (.establish 1 blankConnection 9 8 7) (e₁, []) :=
  ⟨.establish (by decide) rfl hEstablish, rfl⟩

/- With an empty ledger every timer is free. -/
theorem Books.length_free
    {fmt : PacketFormat P}
    {e : Endpoint P}
    {active free : List TimerPtr}
    (hBooks : Books fmt e [] active free) :
    free.length = maxTimerAllocs := by
  have hNone : active = [] := by
    rw [List.eq_nil_iff_forall_not_mem]
    intro t ht
    rcases hBooks.timed t ht with ⟨r, hr, -⟩
    cases hr
  have hNodup := hBooks.pool.nodup
  have hAll := hBooks.all
  rw [hNone, List.nil_append] at hNodup
  rw [hNone] at hAll
  have hPerm : free.Perm (List.finRange maxTimerAllocs) := by
    rw [List.perm_ext_iff_of_nodup hNodup
      (List.nodup_finRange _)]
    intro t
    exact ⟨fun _ => List.mem_finRange t, fun _ => hAll t⟩
  rw [hPerm.length_eq, List.length_finRange]

/- A stack that sent any number of packets it has timers for. -/
theorem sentMany_of_run
    {n : Nat}
    (hTimers : n ≤ maxTimerAllocs) :
    ∃ calls s p,
      Run (Records netPacketFormat reliableConfig)
        (bareStack, []) calls s ∧
      SentMany netPacketFormat 1 p n s := by
  have hTable : (do
      let e₁ ← establishReliable bareStack
      return (e₁.conns 1).map Connection.lastSentSequence) =
      .ok (some 1010) := by
    decide +kernel
  rcases bind_eq_ok_iff.mp hTable with ⟨e₁, hFirst, hEnd⟩
  simp only [pure_eq_ok, Except.ok.injEq,
    Option.map_eq_some_iff] at hEnd
  rcases hEnd with ⟨conn, hConn, hLast⟩
  have hRecords := records_establishReliable hFirst
  have hBare : RedeliveryInvariant netPacketFormat
      (bareStack, []) :=
    redeliveryInvariant_netInit blankNetState (fun _ => rfl)
      rfl
  have hSlots : KeepsSlots netPacketFormat reliableConfig
      bareStack (.establish 1 blankConnection 9 8 7) := trivial
  rcases hRecords.redeliveryInvariant rfl hBare hSlots with
    ⟨-, active, free, hBooks⟩
  have hNone : SentMany netPacketFormat 1 e₁.nextPacket 0
      (e₁, []) :=
    ⟨⟨active, free, hBooks.pool, hBooks.length_free⟩, rfl,
      ⟨conn, hConn, hLast, fun _ hM => by cases hM⟩,
      fun hNe => absurd rfl hNe⟩
  have hMore : ∃ calls s',
      Run (Records netPacketFormat reliableConfig)
        (e₁, []) calls s' ∧
        SentMany netPacketFormat 1 e₁.nextPacket n s' :=
    hNone.exists rfl rfl
      (fun x => ⟨_, if_pos x.payloadStart_le⟩) hTimers
  rcases hMore with ⟨calls, s', hRun, hMany⟩
  exact ⟨_, s', e₁.nextPacket, .cons hRecords hRun, hMany⟩

/-
  More than 32 packets in flight share slots: the first one
  is no longer in the buffer, though it is not acknowledged.
-/
theorem not_forall_redelivers :
    ¬ ∀ (fmt : PacketFormat PacketBuffer) cfg e fresh calls
        s',
      cfg.reliableEnabled = true →
      (∀ c, e.conns c = none) →
      e.timers.timersHead = none →
      Run (Records fmt cfg) (nbNetInit fresh e, []) calls
        s' → Redelivers fmt s'.1 s'.2 := by
  intro hAll
  have hMore : 33 ≤ maxTimerAllocs := by decide
  rcases sentMany_of_run hMore with
    ⟨calls, s', p, hRun, hMany⟩
  exact hMany.not_redelivers (hAll netPacketFormat
    reliableConfig bareEndpoint blankNetState _ s' rfl
    (fun _ => rfl) rfl hRun)

/- A packet that was sent is being redelivered. -/
theorem redelivers_of_run_one :
    ∃ s' calls, s'.2 ≠ [] ∧
      Run (Guarded
        (fun s => KeepsSlots netPacketFormat reliableConfig
          s.1)
        (Records netPacketFormat reliableConfig))
        (bareStack, []) calls s' ∧
      Redelivers netPacketFormat s'.1 s'.2 := by
  have hTable : (do
      let e₁ ← establishReliable bareStack
      let (n, e₂) ← nbSend netPacketFormat reliableConfig 1
        [104, 105] e₁
      return ((e₁.conns 1).map (fun conn : Connection =>
        (conn.redeliveryBuffer
          (slot (conn.lastSentSequence + 1))).isNone),
        (e₂.conns 1).isSome, n)) =
      .ok (some true, true, 2) := by
    decide +kernel
  rcases bind_eq_ok_iff.mp hTable with ⟨e₁, hFirst, hRest⟩
  rcases bind_eq_ok_iff.mp hRest with
    ⟨⟨n, e₂⟩, hSecond, hEnd⟩
  simp only [pure_eq_ok, Except.ok.injEq, Prod.mk.injEq,
    Option.map_eq_some_iff, Option.isNone_iff_eq_none]
    at hEnd
  rcases hEnd with ⟨⟨conn, hConn, hEmpty⟩, -, -⟩
  have hSlots : KeepsSlots netPacketFormat reliableConfig e₁
      (.send 1 [104, 105]) := by
    intro conn' hConn'
    cases hConn.symm.trans hConn'
    exact hEmpty
  let ledger := record netPacketFormat reliableConfig e₁ []
    (.send 1 [104, 105])
  have hLedger : ledger ≠ [] := by
    simp only [ledger, record, hConn]
    exact List.cons_ne_nil _ _
  have hRun : Run (Guarded
      (fun s => KeepsSlots netPacketFormat reliableConfig s.1)
      (Records netPacketFormat reliableConfig))
      (bareStack, [])
      [.establish 1 blankConnection 9 8 7,
        .send 1 [104, 105]] (e₂, ledger) :=
    .cons ⟨trivial, records_establishReliable hFirst⟩
      (.cons ⟨hSlots, .send hSecond, rfl⟩ (.nil _))
  exact ⟨_, _, hLedger, hRun,
    redelivers_of_run rfl (fun _ => rfl) rfl hRun⟩

end NetBlocks
