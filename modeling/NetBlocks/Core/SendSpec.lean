import NetBlocks.Core.Framework

/-
  What the send path computes, as pure functions of the
  sending connection and the packet buffer, and what each of
  them leaves as it was.

  Main declarations:
    * `numberedConn` and `numberedPacket`
    * `completePacket`
    * `nbSend_ok`, `runSendAfter_reliable_ok`, and
      `runSendAfter_signaling_ok`
-/

namespace NetBlocks

open Except

variable {P : Type}

------------------------------------------------------------
-- Completing a Packet
------------------------------------------------------------

/- What the identifier module writes. -/
def identifyPacket
    (fmt : PacketFormat P)
    (conn : Connection)
    (localHostId : BitVec 64)
    (x : P) : P :=
  let x := fmt.setInteger .dstHostId conn.remoteHostId x
  let x := fmt.setWord .dstAppId conn.remoteAppId x
  let x := fmt.setInteger .srcHostId localHostId x
  fmt.setWord .srcAppId conn.localAppId x

/- What the routing module writes. -/
def routePacket
    (fmt : PacketFormat P)
    (cfg : Config)
    (conn : Connection)
    (hostId : BitVec 32)
    (x : P) : P :=
  if cfg.routingEnabled then
    fmt.setWord .srcGlobalId hostId
      (fmt.setWord .dstGlobalId conn.dstGlobalId x)
  else
    x

/- What the checksum module writes. -/
def checksumPacket
    (fmt : PacketFormat P)
    (cfg : Config)
    (x : P) : Except Fault P :=
  if cfg.checksumEnabled then do
    let (y, checksum) ← fmt.computeChecksum x
    return fmt.setInteger .checksum (checksum.setWidth 64) y
  else
    return x

/- What the modules after the reliable one write. -/
def completePacket
    (fmt : PacketFormat P)
    (cfg : Config)
    (conn : Connection)
    (localHostId : BitVec 64)
    (hostId : BitVec 32)
    (x : P) : Except Fault P :=
  checksumPacket fmt cfg
    (routePacket fmt cfg conn hostId
      (identifyPacket fmt conn localHostId x))

/- Hand a completed packet to the transport. -/
def Endpoint.transmit
    (fmt : PacketFormat P)
    (p : PacketPtr)
    (x : P)
    (e : Endpoint P) : Endpoint P :=
  (e.setPacket p x).sendPacket p
    (fmt.getWord .computedTotalLen x)

/- The modules after the reliable one. -/
def tailModules
    (cfg : Config) : List Module :=
  [.identifier, .signalingAfter] ++
    (if cfg.routingEnabled then [.routing] else []) ++
    (if cfg.checksumEnabled then [.checksum] else []) ++
    [.network]

section Tail

variable
    {fmt : PacketFormat P}
    {cfg : Config}
    {c : ConnPtr}
    {e : Endpoint P}
    {conn : Connection}
    (hConn : e.conns c = some conn)
    (p : PacketPtr)
    (buff : List Byte)

include hConn in
theorem runHooks_identifier_eq :
    runHooks (hookSend fmt cfg c p buff)
        [.identifier, .signalingAfter] e =
      .ok (.hookContinue, e.setPacket p
        (identifyPacket fmt conn e.myLocalHostId
          (e.packets p))) := by
  have hLoad := Endpoint.loadConn_of_some hConn
  simp only [runHooks, hookSend, IdentifierModule.hookSend,
    hLoad, ok_bind, pure_eq_ok, Endpoint.modifyPacket_eq,
    Endpoint.setPacket_setPacket,
    Endpoint.setPacket_packets_self]
  rfl

variable (fmt cfg) in
include hConn in
theorem runHooks_routing_eq :
    runHooks (hookSend fmt cfg c p buff)
        (if cfg.routingEnabled then [.routing] else []) e =
      .ok (.hookContinue, e.setPacket p
        (routePacket fmt cfg conn e.myHostId
          (e.packets p))) := by
  have hLoad := Endpoint.loadConn_of_some hConn
  cases hRouting : cfg.routingEnabled
  · simp [runHooks, routePacket, hRouting]
  · simp only [if_true, runHooks_singleton, hookSend,
      RoutingModule.hookSend, hLoad, ok_bind, pure_eq_ok,
      Endpoint.modifyPacket_eq, Endpoint.setPacket_setPacket,
      Endpoint.setPacket_packets_self, routePacket, hRouting]
    rfl

theorem runHooks_checksum_eq :
    runHooks (hookSend fmt cfg c p buff)
        (if cfg.checksumEnabled then [.checksum] else []) e =
      (checksumPacket fmt cfg (e.packets p)).map
        (fun x => (.hookContinue, e.setPacket p x)) := by
  cases hChecksum : cfg.checksumEnabled
  · simp [runHooks, checksumPacket, hChecksum, Except.map]
  · simp only [if_true, runHooks_singleton, hookSend,
      ChecksumModule.hookSend, checksumPacket, hChecksum]
    cases fmt.computeChecksum (e.packets p) <;> rfl

variable (fmt cfg) in
include hConn in
/- The end of the send path, as one function of the packet. -/
theorem runTail_eq :
    runHooks (hookSend fmt cfg c p buff) (tailModules cfg) e =
      (completePacket fmt cfg conn e.myLocalHostId e.myHostId
          (e.packets p)).map
        (fun x => (.hookContinue, e.transmit fmt p x)) := by
  have hRouting := runHooks_routing_eq fmt cfg
    (e := e.setPacket p
      (identifyPacket fmt conn e.myLocalHostId
        (e.packets p))) hConn p buff
  rw [tailModules, List.append_assoc, List.append_assoc,
    runHooks_append_of_continue
      (runHooks_identifier_eq hConn p buff),
    runHooks_append_of_continue hRouting,
    runHooks_append, runHooks_checksum_eq, completePacket]
  simp only [Endpoint.setPacket_packets_self,
    Endpoint.setPacket_setPacket, Endpoint.setPacket_myHostId]
  cases checksumPacket fmt cfg
      (routePacket fmt cfg conn e.myHostId
        (identifyPacket fmt conn e.myLocalHostId
          (e.packets p))) with
  | error fault => rfl
  | ok x =>
      simp [Except.map, hookSend, NetworkModule.hookSend,
        Endpoint.transmit]

end Tail

------------------------------------------------------------
-- Numbering a Packet
------------------------------------------------------------

/- The connection after it sent the packet at `p`. -/
def numberedConn
    (cfg : Config)
    (conn : Connection)
    (p : PacketPtr) : Connection :=
  { conn with
    lastSentSequence := conn.lastSentSequence + 1
    redeliveryBuffer :=
      if cfg.reliableEnabled then
        Function.update conn.redeliveryBuffer
          (slot (conn.lastSentSequence + 1)) (some p)
      else
        conn.redeliveryBuffer }

/- What the inorder module writes. -/
def sequencePacket
    (fmt : PacketFormat P)
    (cfg : Config)
    (conn : Connection)
    (x : P) : P :=
  if cfg.inorderStrategy ≠ .noInorder ∨
      cfg.reliableEnabled then
    fmt.setWord .sequenceNumber
      (conn.lastSentSequence + 1) x
  else
    x

/- What the reliable module writes. -/
def armPacket
    (fmt : PacketFormat P)
    (cfg : Config)
    (t : Option TimerPtr)
    (x : P) : P :=
  if cfg.reliableEnabled then
    fmt.setWord .ackSequenceNumber 0
      (fmt.setInteger .redeliveryTimer
        (ReliableModule.timerAddress t) x)
  else
    x

/- The timer the reliable module starts for a packet. -/
def startTimer
    (cfg : Config)
    (now : BitVec 64)
    (p : PacketPtr)
    (pool : TimerPool) :
    Except Fault (Option TimerPtr × TimerPool) :=
  if cfg.reliableEnabled then do
    let timers ← pool.allocTimer.2.insertTimer
      pool.allocTimer.1
      (now + ReliableModule.redeliveryTimeoutMs)
      .reliableRedeliveryTimerCb p
    return (pool.allocTimer.1, timers)
  else
    return (none, pool)

section Number

variable
    {fmt : PacketFormat P}
    {cfg : Config}
    {c : ConnPtr}
    {e : Endpoint P}
    {conn : Connection}
    (hConn : e.conns c = some conn)
    (p : PacketPtr)
    (buff : List Byte)

include hConn in
theorem runHooks_inorder_eq :
    hookSend fmt cfg c p buff .inorder e =
      .ok (.hookContinue,
        (e.setConn c { conn with
          lastSentSequence := conn.lastSentSequence + 1
          }).setPacket p
            (sequencePacket fmt cfg conn (e.packets p))) := by
  have hLoad := Endpoint.loadConn_of_some hConn
  simp only [hookSend, InorderModule.hookSend, hLoad,
    ok_bind, pure_eq_ok, Endpoint.modifyConn_eq hConn,
    Endpoint.modifyPacket_eq, sequencePacket]
  split
  · rfl
  · simp [Endpoint.setPacket, Endpoint.setConn]

variable (fmt cfg) in
include hConn in
theorem runHooks_reliable_eq :
    hookSend fmt cfg c p buff .reliable e =
      (e.timers.allocTimer.2.insertTimer
        e.timers.allocTimer.1
        (e.timeNow + ReliableModule.redeliveryTimeoutMs)
        .reliableRedeliveryTimerCb p).map
        (fun timers => (.hookContinue,
          ({ e with timers }.setConn c { conn with
            redeliveryBuffer :=
              Function.update conn.redeliveryBuffer
                (slot (fmt.getWord .sequenceNumber
                  (e.packets p))) (some p) }).setPacket p
            (fmt.setWord .ackSequenceNumber 0
              (fmt.setInteger .redeliveryTimer
                (ReliableModule.timerAddress
                  e.timers.allocTimer.1)
                (e.packets p))))) := by
  have hLoad := Endpoint.loadConn_of_some hConn
  simp only [hookSend, ReliableModule.hookSend, hLoad,
    ok_bind, Endpoint.modifyConn_eq hConn]
  change (e.timers.allocTimer.2.insertTimer
    e.timers.allocTimer.1
    (e.timeNow + ReliableModule.redeliveryTimeoutMs)
    .reliableRedeliveryTimerCb p >>= _) = _
  cases e.timers.allocTimer.2.insertTimer
      e.timers.allocTimer.1
      (e.timeNow + ReliableModule.redeliveryTimeoutMs)
      .reliableRedeliveryTimerCb p with
  | error fault => rfl
  | ok timers =>
      simp only [ok_bind, Except.map, pure_eq_ok,
        Endpoint.modifyPacket_eq,
        Endpoint.setPacket_setPacket,
        Endpoint.setPacket_packets_self]
      rfl

include hConn in
/- The numbering modules, as one function of the packet. -/
theorem runNumber_eq :
    runHooks (hookSend fmt cfg c p buff)
        (.inorder ::
          (if cfg.reliableEnabled then [.reliable] else []))
        e =
      (startTimer cfg e.timeNow p e.timers).map
        (fun (t, timers) => (.hookContinue,
          ({ e with timers }.setConn c
            (numberedConn cfg conn p)).setPacket p
              (armPacket fmt cfg t
                (sequencePacket fmt cfg conn
                  (e.packets p))))) := by
  rw [runHooks, runHooks_inorder_eq hConn, ok_bind]
  cases hReliable : cfg.reliableEnabled
  · simp [runHooks, startTimer, hReliable, Except.map,
      numberedConn, armPacket]
  · have hNumber :
        fmt.getWord .sequenceNumber
            (sequencePacket fmt cfg conn (e.packets p)) =
          conn.lastSentSequence + 1 := by
      rw [sequencePacket, if_pos (Or.inr hReliable)]
      exact PacketFormat.getWord_setWord_self rfl
    have hConn' := Endpoint.setConn_conns_self e c
      { conn with
        lastSentSequence := conn.lastSentSequence + 1 }
    have hReliableEq := runHooks_reliable_eq fmt cfg
      (e := (e.setConn c { conn with
        lastSentSequence := conn.lastSentSequence + 1
        }).setPacket p
          (sequencePacket fmt cfg conn (e.packets p)))
      hConn' p buff
    simp only [if_true, runHooks_singleton]
    rw [hReliableEq]
    simp only [Endpoint.setPacket_packets_self, hNumber,
      startTimer, hReliable, if_true, numberedConn,
      armPacket]
    change Except.map _ (e.timers.allocTimer.2.insertTimer
      e.timers.allocTimer.1
      (e.timeNow + ReliableModule.redeliveryTimeoutMs)
      .reliableRedeliveryTimerCb p) = _
    cases e.timers.allocTimer.2.insertTimer
        e.timers.allocTimer.1
        (e.timeNow + ReliableModule.redeliveryTimeoutMs)
        .reliableRedeliveryTimerCb p with
    | error fault => rfl
    | ok timers =>
        simp [Except.map, Endpoint.setConn,
          Endpoint.setPacket]

end Number

------------------------------------------------------------
-- Sending a Packet
------------------------------------------------------------

/- An endpoint after it sent `x`, in the buffer at `p`. -/
def Endpoint.sent
    (fmt : PacketFormat P)
    (cfg : Config)
    (c : ConnPtr)
    (conn : Connection)
    (p : PacketPtr)
    (timers : TimerPool)
    (x : P)
    (e : Endpoint P) : Endpoint P :=
  ({ e with timers }.setConn c
    (numberedConn cfg conn p)).transmit fmt p x

/-
  `x` is what the modules from the inorder one on make of
  the packet `y`, with the timer `t` on the pool `timers`.
-/
structure Sends
    (fmt : PacketFormat P)
    (cfg : Config)
    (e : Endpoint P)
    (conn : Connection)
    (p : PacketPtr)
    (y x : P)
    (t : Option TimerPtr)
    (timers : TimerPool) : Prop where
  timer :
    startTimer cfg e.timeNow p e.timers = .ok (t, timers)
  complete :
    completePacket fmt cfg conn e.myLocalHostId e.myHostId
      (armPacket fmt cfg t (sequencePacket fmt cfg conn y)) =
        .ok x

section Send

variable
    {fmt : PacketFormat P}
    {cfg : Config}
    {c : ConnPtr}
    {e e' : Endpoint P}
    {conn : Connection}
    {p : PacketPtr}
    {buff : List Byte}

/- The modules from the inorder one on. -/
def numberAndTailModules
    (cfg : Config) : List Module :=
  (.inorder ::
    (if cfg.reliableEnabled then [.reliable] else [])) ++
      tailModules cfg

/- The modules from the inorder one on send the packet. -/
theorem runHooks_send_eq
    (hConn : e.conns c = some conn) :
    runHooks (hookSend fmt cfg c p buff)
        (numberAndTailModules cfg) e = (do
      let (t, timers) ← startTimer cfg e.timeNow p e.timers
      let x ← completePacket fmt cfg conn e.myLocalHostId
        e.myHostId (armPacket fmt cfg t
          (sequencePacket fmt cfg conn (e.packets p)))
      return (.hookContinue,
        e.sent fmt cfg c conn p timers x)) := by
  rw [numberAndTailModules, runHooks_append,
    runNumber_eq hConn]
  cases startTimer cfg e.timeNow p e.timers with
  | error fault => rfl
  | ok started =>
      rcases started with ⟨t, timers⟩
      let y := armPacket fmt cfg t
        (sequencePacket fmt cfg conn (e.packets p))
      let numbered := ({ e with timers }.setConn c
        (numberedConn cfg conn p)).setPacket p y
      have hTail := runTail_eq fmt cfg
        (e := numbered)
        (Endpoint.setConn_conns_self _ c _) p buff
      rw [Endpoint.setPacket_packets_self] at hTail
      change runHooks _ (tailModules cfg) numbered =
        (completePacket fmt cfg conn e.myLocalHostId
          e.myHostId y >>= _)
      rw [hTail]
      change (completePacket fmt cfg conn e.myLocalHostId
        e.myHostId y).map _ = _
      cases completePacket fmt cfg conn e.myLocalHostId
          e.myHostId y with
      | error fault => rfl
      | ok x =>
          simp [Except.map, numbered, Endpoint.sent,
            Endpoint.transmit]

/- Sending succeeds exactly when each part of it does. -/
theorem runHooks_send_ok_iff
    {status : HookStatus}
    (hConn : e.conns c = some conn) :
    runHooks (hookSend fmt cfg c p buff)
        (numberAndTailModules cfg) e = .ok (status, e') ↔
      ∃ x t timers,
        Sends fmt cfg e conn p (e.packets p) x t timers ∧
          status = .hookContinue ∧
            e' = e.sent fmt cfg c conn p timers x := by
  rw [runHooks_send_eq hConn]
  simp only [bind_eq_ok_iff, pure_eq_ok, Except.ok.injEq,
    Prod.mk.injEq, Prod.exists]
  constructor
  · rintro ⟨t, timers, hTimer, x, hComplete, hStatus, hEnd⟩
    exact ⟨x, t, timers, ⟨hTimer, hComplete⟩, hStatus.symm,
      hEnd.symm⟩
  · rintro ⟨x, t, timers, hSends, hStatus, hEnd⟩
    exact ⟨t, timers, hSends.timer, x, hSends.complete,
      hStatus.symm, hEnd.symm⟩

/- No packet is sent on a connection that was freed. -/
theorem runHooks_send_of_none
    (hConn : e.conns c = none) :
    runHooks (hookSend fmt cfg c p buff)
        (numberAndTailModules cfg) e =
      .error .danglingPointer := by
  simp [numberAndTailModules, runHooks, hookSend,
    InorderModule.hookSend, Endpoint.loadConn_of_none hConn]

/- What the payload module writes. -/
def lengthPacket
    (fmt : PacketFormat P)
    (len : Nat)
    (y : P) : P :=
  let totalLen := BitVec.ofNat 32 (fmt.headerLen + len)
  fmt.setWord .computedTotalLen totalLen
    (fmt.setWord .totalLen totalLen y)

/- The next buffer is taken. -/
def Endpoint.requested
    (e : Endpoint P) : Endpoint P :=
  { e with nextPacket := e.nextPacket + 1 }

theorem payload_hookSend_eq
    (e : Endpoint P)
    (p : PacketPtr)
    (buff : List Byte) :
    PayloadModule.hookSend fmt p buff e =
      (fmt.writePayload buff
        (lengthPacket fmt buff.length (e.packets p))).map
          (fun y => (.hookContinue, e.setPacket p y)) := by
  simp only [PayloadModule.hookSend,
    Endpoint.modifyPacket_eq, Endpoint.setPacket_setPacket,
    Endpoint.setPacket_packets_self, pure_eq_ok,
    bind_ok_eq_map, lengthPacket]

/- Sending overwrites what the buffer held. -/
theorem setPacket_sent
    (y x : P)
    (timers : TimerPool) :
    (e.setPacket p y).sent fmt cfg c conn p timers x =
      e.sent fmt cfg c conn p timers x := by
  simp [Endpoint.sent, Endpoint.transmit, Endpoint.setConn,
    Endpoint.setPacket]

/- `nb__send` succeeds exactly when each part of it does. -/
theorem nbSend_ok_iff
    {n : Nat} :
    nbSend fmt cfg c buff e = .ok (n, e') ↔
      ∃ conn y x t timers,
        e.conns c = some conn ∧
        fmt.writePayload buff
          (lengthPacket fmt buff.length
            (e.packets e.nextPacket)) = .ok y ∧
        Sends fmt cfg e conn e.nextPacket y x t timers ∧
        n = buff.length ∧
        e' = e.requested.sent fmt cfg c conn e.nextPacket
          timers x := by
  have hModules : registeredModules cfg =
      .payload :: .signaling :: numberAndTailModules cfg := by
    simp [registeredModules, numberAndTailModules,
      tailModules]
  have hPayload :
      PayloadModule.hookSend fmt e.nextPacket buff
        e.requested = _ :=
    payload_hookSend_eq e.requested e.nextPacket buff
  change PayloadModule.hookSend fmt e.nextPacket buff
    e.requested = (fmt.writePayload buff
      (lengthPacket fmt buff.length
        (e.packets e.nextPacket))).map _ at hPayload
  change (runHooks _ _ e.requested >>= fun result =>
    pure (buff.length, result.2)) = _ ↔ _
  rw [hModules, runHooks, hookSend, hPayload]
  cases fmt.writePayload buff
      (lengthPacket fmt buff.length
        (e.packets e.nextPacket)) with
  | error fault => simp [Except.map]
  | ok y =>
      let filled := e.requested.setPacket e.nextPacket y
      change (runHooks _ (numberAndTailModules cfg) filled
        >>= fun result => pure (buff.length, result.2)) = _ ↔ _
      cases hConn : e.conns c with
      | none =>
          rw [runHooks_send_of_none (e := filled) hConn]
          simp
      | some conn =>
          simp only [pure_eq_ok, bind_eq_ok_iff, Prod.exists,
            runHooks_send_ok_iff (e := filled) hConn]
          constructor
          · rintro ⟨status, e₁,
              ⟨x, t, timers, hSends, -, hEnd⟩, hResult⟩
            cases hResult
            have hPacket : filled.packets e.nextPacket = y :=
              Endpoint.setPacket_packets_self _ _ _
            rw [hPacket] at hSends
            exact ⟨conn, y, x, t, timers, rfl, rfl,
              ⟨hSends.timer, hSends.complete⟩, rfl,
              hEnd.trans (setPacket_sent y x timers)⟩
          · rintro ⟨conn', y', x, t, timers, hConn', hY',
              hSends, rfl, rfl⟩
            cases hConn'
            cases hY'
            have hPacket : filled.packets e.nextPacket = y :=
              Endpoint.setPacket_packets_self _ _ _
            refine ⟨_, _, ⟨x, t, timers, ?_, rfl, rfl⟩, ?_⟩
            · rw [hPacket]
              exact ⟨hSends.timer, hSends.complete⟩
            · rw [setPacket_sent]

/- The signaling packet is sent like one of the user's. -/
theorem sendSignal_ok_iff :
    SignalingModuleAfter.sendSignal fmt cfg c e = .ok e' ↔
      ∃ conn x t timers,
        e.conns c = some conn ∧
        Sends fmt cfg e conn e.nextPacket
          (lengthPacket fmt 0 (e.packets e.nextPacket))
          x t timers ∧
        e' = e.requested.sent fmt cfg c conn e.nextPacket
          timers x := by
  let y := lengthPacket fmt 0 (e.packets e.nextPacket)
  let filled := e.requested.setPacket e.nextPacket y
  have hPacket : filled.packets e.nextPacket = y :=
    Endpoint.setPacket_packets_self _ _ _
  have hFilled :
      SignalingModuleAfter.sendSignal fmt cfg c e =
        (runHooks (hookSend fmt cfg c e.nextPacket [])
          (numberAndTailModules cfg) filled >>= fun result =>
            pure result.2) := by
    simp only [SignalingModuleAfter.sendSignal,
      runSendAfter, Endpoint.modifyPacket_eq,
      Endpoint.setPacket_setPacket,
      Endpoint.setPacket_packets_self]
    rw [modulesAfter_signaling, numberAndTailModules,
      tailModules]
    simp only [List.append_assoc]
    rfl
  rw [hFilled]
  cases hConn : e.conns c with
  | none =>
      rw [runHooks_send_of_none (e := filled) hConn]
      simp
  | some conn =>
      simp only [pure_eq_ok, bind_eq_ok_iff, Prod.exists,
        runHooks_send_ok_iff (e := filled) hConn]
      constructor
      · rintro ⟨status, e₁,
          ⟨x, t, timers, hSends, -, hEnd⟩, hResult⟩
        cases hResult
        rw [hPacket] at hSends
        exact ⟨conn, x, t, timers, rfl,
          ⟨hSends.timer, hSends.complete⟩,
          hEnd.trans (setPacket_sent y x timers)⟩
      · rintro ⟨conn', x, t, timers, hConn', hSends, rfl⟩
        cases hConn'
        refine ⟨_, _, ⟨x, t, timers, ?_, rfl, rfl⟩, ?_⟩
        · rw [hPacket]
          exact ⟨hSends.timer, hSends.complete⟩
        · rw [setPacket_sent]

/- What the reliable module makes of a buffer for an ack. -/
def ackPacket
    (fmt : PacketFormat P)
    (seq : BitVec 32)
    (y : P) : P :=
  lengthPacket fmt 1 (fmt.setWord .ackSequenceNumber seq y)

/- An ack is completed and handed to the transport. -/
theorem sendAck_ok_iff
    {seq : BitVec 32}
    (hReliable : cfg.reliableEnabled = true) :
    ReliableModule.sendAck fmt cfg c seq e = .ok e' ↔
      ∃ conn x,
        e.conns c = some conn ∧
        completePacket fmt cfg conn e.myLocalHostId
          e.myHostId (ackPacket fmt seq
            (e.packets e.nextPacket)) = .ok x ∧
        e' = e.requested.transmit fmt e.nextPacket x := by
  let y := ackPacket fmt seq (e.packets e.nextPacket)
  let filled := e.requested.setPacket e.nextPacket y
  have hFilled :
      ReliableModule.sendAck fmt cfg c seq e =
        (runHooks (hookSend fmt cfg c e.nextPacket [])
          (tailModules cfg) filled >>= fun result =>
            pure result.2) := by
    simp only [ReliableModule.sendAck, runSendAfter,
      Endpoint.modifyPacket_eq, Endpoint.setPacket_setPacket,
      Endpoint.setPacket_packets_self]
    rw [modulesAfter_reliable hReliable, tailModules]
    rfl
  rw [hFilled]
  cases hConn : e.conns c with
  | none =>
      simp [tailModules, runHooks, hookSend,
        IdentifierModule.hookSend,
        Endpoint.loadConn_of_none (e := filled) hConn]
  | some conn =>
      rw [runTail_eq fmt cfg (e := filled) hConn]
      have hPacket : filled.packets e.nextPacket = y :=
        Endpoint.setPacket_packets_self _ _ _
      rw [hPacket]
      change (completePacket fmt cfg conn e.myLocalHostId
        e.myHostId y).map _ >>= _ = _ ↔ _
      simp only [pure_eq_ok, bind_eq_ok_iff, map_eq_ok_iff,
        Except.ok.injEq]
      constructor
      · rintro ⟨result, ⟨x, hComplete, rfl⟩, rfl⟩
        refine ⟨conn, x, rfl, hComplete, ?_⟩
        simp [filled, Endpoint.transmit]
      · rintro ⟨conn', x, hConn', hComplete, rfl⟩
        cases hConn'
        refine ⟨_, ⟨x, hComplete, rfl⟩, ?_⟩
        simp [filled, Endpoint.transmit]

end Send

------------------------------------------------------------
-- The Members of a Packet Sent
------------------------------------------------------------

/- The members the modules after the reliable one write. -/
def Field.completed : Field → Bool
| dstHostId => true
| srcHostId => true
| dstGlobalId => true
| srcGlobalId => true
| dstAppId => true
| srcAppId => true
| checksum => true
| _ => false

section Members

variable
    {fmt : PacketFormat P}
    {cfg : Config}
    {conn : Connection}
    {localHostId : BitVec 64}
    {hostId : BitVec 32}
    {x y : P}

/- Both host ids fit into their 48-bit members. -/
structure HostsFit
    (conn : Connection)
    (localHostId : BitVec 64) : Prop where
  remote : conn.remoteHostId.toNat < 2 ^ 48
  localHost : localHostId.toNat < 2 ^ 48

theorem identifyPacket_get
    (hFits : HostsFit conn localHostId)
    {f : Field}
    (hField : f.completed = false)
    (x : P) :
    fmt.getInteger f
        (identifyPacket fmt conn localHostId x) =
      fmt.getInteger f x := by
  have hNe : ∀ g : Field, g.completed = true → f ≠ g := by
    rintro g hg rfl
    simp [hField] at hg
  simp only [identifyPacket, PacketFormat.setWord]
  rw [fmt.get_set_ne .srcAppId f _ _
      (Field.fits_of_bits_ne (by decide) _) (hNe _ rfl),
    fmt.get_set_ne .srcHostId f _ _
      (fun _ => hFits.localHost) (hNe _ rfl),
    fmt.get_set_ne .dstAppId f _ _
      (Field.fits_of_bits_ne (by decide) _) (hNe _ rfl),
    fmt.get_set_ne .dstHostId f _ _
      (fun _ => hFits.remote) (hNe _ rfl)]

theorem routePacket_get
    {f : Field}
    (hField : f.completed = false)
    (x : P) :
    fmt.getInteger f (routePacket fmt cfg conn hostId x) =
      fmt.getInteger f x := by
  have hNe : ∀ g : Field, g.completed = true → f ≠ g := by
    rintro g hg rfl
    simp [hField] at hg
  unfold routePacket
  split
  · simp only [PacketFormat.setWord]
    rw [fmt.get_set_ne .srcGlobalId f _ _
        (Field.fits_of_bits_ne (by decide) _) (hNe _ rfl),
      fmt.get_set_ne .dstGlobalId f _ _
        (Field.fits_of_bits_ne (by decide) _) (hNe _ rfl)]
  · rfl

theorem checksumPacket_get
    (hChecksum : checksumPacket fmt cfg x = .ok y)
    (hSized : fmt.Sized x)
    {f : Field}
    (hNe : f ≠ .checksum) :
    fmt.getInteger f y = fmt.getInteger f x := by
  unfold checksumPacket at hChecksum
  split at hChecksum
  · rcases bind_eq_ok_iff.mp hChecksum with
      ⟨⟨z, sum⟩, hSum, hResult⟩
    cases hResult
    rw [fmt.get_set_ne .checksum f _ _
        (Field.fits_of_bits_ne (by decide) _) hNe,
      fmt.checksum_get_ne f x z sum hSum hNe hSized]
  · cases hChecksum
    rfl

/- Routing and identifying keep the length. -/
theorem sized_routePacket
    (hFits : HostsFit conn localHostId) :
    fmt.Sized (routePacket fmt cfg conn hostId
        (identifyPacket fmt conn localHostId x)) ↔
      fmt.Sized x := by
  apply PacketFormat.sized_congr
  rw [routePacket_get rfl, identifyPacket_get hFits rfl]

/- Completing a packet keeps the members written before. -/
theorem completePacket_get
    (hFits : HostsFit conn localHostId)
    (hComplete : completePacket fmt cfg conn localHostId
      hostId x = .ok y)
    (hSized : fmt.Sized x)
    {f : Field}
    (hField : f.completed = false) :
    fmt.getInteger f y = fmt.getInteger f x := by
  have hNe : f ≠ .checksum := by
    rintro rfl
    cases hField
  rw [checksumPacket_get hComplete
      ((sized_routePacket hFits).mpr hSized) hNe,
    routePacket_get hField, identifyPacket_get hFits hField]

theorem identifyPacket_read
    (hFits : HostsFit conn localHostId)
    (n : Nat)
    (x : P) :
    fmt.readPayload n
        (identifyPacket fmt conn localHostId x) =
      fmt.readPayload n x := by
  simp only [identifyPacket, PacketFormat.setWord]
  rw [fmt.read_set .srcAppId _ _ _
      (Field.fits_of_bits_ne (by decide) _),
    fmt.read_set .srcHostId _ _ _ (fun _ => hFits.localHost),
    fmt.read_set .dstAppId _ _ _
      (Field.fits_of_bits_ne (by decide) _),
    fmt.read_set .dstHostId _ _ _ (fun _ => hFits.remote)]

theorem routePacket_read
    (n : Nat)
    (x : P) :
    fmt.readPayload n (routePacket fmt cfg conn hostId x) =
      fmt.readPayload n x := by
  unfold routePacket
  split
  · simp only [PacketFormat.setWord]
    rw [fmt.read_set .srcGlobalId _ _ _
        (Field.fits_of_bits_ne (by decide) _),
      fmt.read_set .dstGlobalId _ _ _
        (Field.fits_of_bits_ne (by decide) _)]
  · rfl

theorem checksumPacket_read
    (hChecksum : checksumPacket fmt cfg x = .ok y)
    {n : Nat}
    (hLength : ((fmt.headerLen + n : Nat) : Int) ≤
      (fmt.getWord .computedTotalLen x).toInt) :
    fmt.readPayload n y = fmt.readPayload n x := by
  unfold checksumPacket at hChecksum
  split at hChecksum
  · rcases bind_eq_ok_iff.mp hChecksum with
      ⟨⟨z, sum⟩, hSum, hResult⟩
    cases hResult
    rw [fmt.read_set .checksum _ _ _
        (Field.fits_of_bits_ne (by decide) _)]
    apply fmt.checksum_read n x z sum hSum
    rw [PacketFormat.toInt_getInteger rfl rfl]
    exact hLength
  · cases hChecksum
    rfl

/- Completing a packet keeps the payload of its length. -/
theorem completePacket_read
    (hFits : HostsFit conn localHostId)
    (hComplete : completePacket fmt cfg conn localHostId
      hostId x = .ok y)
    {n : Nat}
    (hLength : ((fmt.headerLen + n : Nat) : Int) ≤
      (fmt.getWord .computedTotalLen x).toInt) :
    fmt.readPayload n y = fmt.readPayload n x := by
  have hKept : fmt.getWord .computedTotalLen
        (routePacket fmt cfg conn hostId
          (identifyPacket fmt conn localHostId x)) =
      fmt.getWord .computedTotalLen x := by
    rw [PacketFormat.getWord, routePacket_get rfl,
      identifyPacket_get hFits rfl, PacketFormat.getWord]
  rw [checksumPacket_read hComplete (by rw [hKept]; exact hLength),
    routePacket_read, identifyPacket_read hFits]

theorem armPacket_get
    (t : Option TimerPtr)
    {f : Field}
    (hTimer : f ≠ .redeliveryTimer)
    (hAck : f ≠ .ackSequenceNumber)
    (x : P) :
    fmt.getInteger f (armPacket fmt cfg t x) =
      fmt.getInteger f x := by
  unfold armPacket
  split
  · rw [PacketFormat.setWord,
      fmt.get_set_ne .ackSequenceNumber f _ _
        (Field.fits_of_bits_ne (by decide) _) hAck,
      fmt.get_set_ne .redeliveryTimer f _ _
        (Field.fits_of_bits_ne (by decide) _) hTimer]
  · rfl

theorem armPacket_read
    (t : Option TimerPtr)
    (n : Nat)
    (x : P) :
    fmt.readPayload n (armPacket fmt cfg t x) =
      fmt.readPayload n x := by
  unfold armPacket
  split
  · rw [PacketFormat.setWord,
      fmt.read_set .ackSequenceNumber _ _ _
        (Field.fits_of_bits_ne (by decide) _),
      fmt.read_set .redeliveryTimer _ _ _
        (Field.fits_of_bits_ne (by decide) _)]
  · rfl

theorem sequencePacket_get
    {f : Field}
    (hNe : f ≠ .sequenceNumber)
    (x : P) :
    fmt.getInteger f (sequencePacket fmt cfg conn x) =
      fmt.getInteger f x := by
  unfold sequencePacket
  split
  · rw [PacketFormat.setWord,
      fmt.get_set_ne .sequenceNumber f _ _
        (Field.fits_of_bits_ne (by decide) _) hNe]
  · rfl

theorem sequencePacket_read
    (n : Nat)
    (x : P) :
    fmt.readPayload n (sequencePacket fmt cfg conn x) =
      fmt.readPayload n x := by
  unfold sequencePacket
  split
  · rw [PacketFormat.setWord,
      fmt.read_set .sequenceNumber _ _ _
        (Field.fits_of_bits_ne (by decide) _)]
  · rfl

end Members

namespace Sends

variable
    {fmt : PacketFormat P}
    {cfg : Config}
    {e : Endpoint P}
    {conn : Connection}
    {p : PacketPtr}
    {x y : P}
    {t : Option TimerPtr}
    {timers : TimerPool}
    (hSends : Sends fmt cfg e conn p y x t timers)
    (hFits : HostsFit conn e.myLocalHostId)
    (hSized : fmt.Sized y)

omit hSends hFits in
include hSized in
/- Numbering and arming a packet keep its length. -/
theorem sized_armPacket :
    fmt.Sized (armPacket fmt cfg t
      (sequencePacket fmt cfg conn y)) := by
  apply (PacketFormat.sized_congr _).mpr hSized
  rw [armPacket_get t (by decide) (by decide),
    sequencePacket_get (by decide)]

include hSends hFits hSized

/- The members written before numbering are kept. -/
theorem get
    {f : Field}
    (hCompleted : f.completed = false)
    (hSequence : f ≠ .sequenceNumber)
    (hAck : f ≠ .ackSequenceNumber)
    (hTimer : f ≠ .redeliveryTimer) :
    fmt.getInteger f x = fmt.getInteger f y := by
  rw [completePacket_get hFits hSends.complete
      (sized_armPacket hSized) hCompleted,
    armPacket_get t hTimer hAck, sequencePacket_get hSequence]

/- The packet carries the next number of its connection. -/
theorem sequenceNumber
    (hNumbered : cfg.inorderStrategy ≠ .noInorder ∨
      cfg.reliableEnabled = true) :
    fmt.getWord .sequenceNumber x =
      conn.lastSentSequence + 1 := by
  have hKept : fmt.getWord .sequenceNumber x =
      fmt.getWord .sequenceNumber
        (sequencePacket fmt cfg conn y) := by
    rw [PacketFormat.getWord,
      completePacket_get hFits hSends.complete
        (sized_armPacket hSized) rfl,
      armPacket_get t (by decide) (by decide),
      PacketFormat.getWord]
  rw [hKept, sequencePacket, if_pos hNumbered]
  exact PacketFormat.getWord_setWord_self rfl

/- The packet is not an ack. -/
theorem ackSequenceNumber
    (hReliable : cfg.reliableEnabled = true) :
    fmt.getWord .ackSequenceNumber x = 0 := by
  rw [PacketFormat.getWord,
    completePacket_get hFits hSends.complete
        (sized_armPacket hSized) rfl, armPacket,
    if_pos hReliable]
  exact PacketFormat.getWord_setWord_self rfl

/- The packet names its timer. -/
theorem redeliveryTimer
    (hReliable : cfg.reliableEnabled = true) :
    fmt.getInteger .redeliveryTimer x =
      ReliableModule.timerAddress t := by
  rw [completePacket_get hFits hSends.complete
        (sized_armPacket hSized) rfl, armPacket,
    if_pos hReliable, PacketFormat.setWord,
    fmt.get_set_ne .ackSequenceNumber .redeliveryTimer _ _
      (Field.fits_of_bits_ne (by decide) _) (by decide),
    fmt.get_set_self .redeliveryTimer _ _
      (Field.fits_of_bits_ne (by decide) _)]
  simp [Field.canon, Field.signed, Field.bits]

omit hSized in
/- The payload written before numbering is kept. -/
theorem read
    {n : Nat}
    (hLength : ((fmt.headerLen + n : Nat) : Int) ≤
      (fmt.getWord .computedTotalLen y).toInt) :
    fmt.readPayload n x = fmt.readPayload n y := by
  have hKept : fmt.getWord .computedTotalLen
        (armPacket fmt cfg t (sequencePacket fmt cfg conn y)) =
      fmt.getWord .computedTotalLen y := by
    rw [PacketFormat.getWord,
      armPacket_get t (by decide) (by decide),
      sequencePacket_get (by decide), PacketFormat.getWord]
  rw [completePacket_read hFits hSends.complete
      (by rw [hKept]; exact hLength),
    armPacket_read, sequencePacket_read]

end Sends

------------------------------------------------------------
-- Lengths
------------------------------------------------------------

section Lengths

variable
    {fmt : PacketFormat P}
    {buff : List Byte}
    {n : Nat}
    {x y : P}

/- A length below 2^31 is not taken for a negative one. -/
theorem toInt_length
    (hLength : fmt.headerLen + n < 2 ^ 31) :
    (BitVec.ofNat 32 (fmt.headerLen + n)).toInt =
      ((fmt.headerLen + n : Nat) : Int) := by
  rw [BitVec.toInt_eq_toNat_of_lt] <;>
    rw [BitVec.toNat_ofNat, Nat.mod_eq_of_lt (by omega)]
  omega

theorem lengthPacket_get
    {f : Field}
    (hTotal : f ≠ .totalLen)
    (hComputed : f ≠ .computedTotalLen) :
    fmt.getInteger f (lengthPacket fmt n x) =
      fmt.getInteger f x := by
  simp only [lengthPacket, PacketFormat.setWord]
  rw [fmt.get_set_ne _ _ _ _
      (Field.fits_of_bits_ne (by decide) _) hComputed,
    fmt.get_set_ne _ _ _ _
      (Field.fits_of_bits_ne (by decide) _) hTotal]

theorem lengthPacket_computed :
    fmt.getWord .computedTotalLen (lengthPacket fmt n x) =
      BitVec.ofNat 32 (fmt.headerLen + n) :=
  PacketFormat.getWord_setWord_self rfl

theorem lengthPacket_total :
    fmt.getWord .totalLen (lengthPacket fmt n x) =
      BitVec.ofNat 32 (fmt.headerLen + n) := by
  simp only [lengthPacket]
  rw [PacketFormat.setWord, PacketFormat.getWord_setInteger_ne
    (Field.fits_of_bits_ne (by decide) _) (by decide)]
  exact PacketFormat.getWord_setWord_self rfl

theorem sized_lengthPacket
    (hLength : fmt.headerLen + n < 2 ^ 31) :
    fmt.Sized (lengthPacket fmt n x) := by
  rw [PacketFormat.Sized, PacketFormat.toInt_getInteger rfl
    rfl, lengthPacket_computed, toInt_length hLength]
  omega

/- A packet is sized once its payload is written. -/
theorem sized_of_write
    (hWrite : fmt.writePayload buff
      (lengthPacket fmt buff.length x) = .ok y) :
    fmt.Sized y := by
  rw [PacketFormat.sized_congr
    (fmt.write_get .computedTotalLen _ _ y hWrite)]
  exact sized_lengthPacket (fmt.write_length _ _ y hWrite)

end Lengths

end NetBlocks
