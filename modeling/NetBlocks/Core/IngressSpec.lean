import NetBlocks.Core.SendSpec
import NetBlocks.Modules.InorderSpec

/-
  The ingress path, taken apart: a packet is checked, the
  table decides where it goes, and the modules behind the
  identifier one work on the connection it was routed to.

  Main declarations:
    * `checkPacket`
    * `IngressResult` and `runIngressPath_ok_iff`
    * `BackResult` and `runBack_ok_iff`
-/

namespace NetBlocks

open Except

variable {P : Type}

------------------------------------------------------------
-- Checking a Packet
------------------------------------------------------------

/-
  What the network and checksum modules make of a received
  packet, and whether its checksum is right.
-/
def checkPacket
    (fmt : PacketFormat P)
    (cfg : Config)
    (x : P) : Except Fault (P × Bool) :=
  let x := fmt.restoreTotalLen x
  if cfg.checksumEnabled then do
    let saved : BitVec 16 :=
      (fmt.getInteger .checksum x).setWidth 16
    let (y, checksum) ← fmt.computeChecksum x
    return (fmt.setInteger .checksum (saved.setWidth 64) y,
      decide (checksum = saved))
  else
    return (x, true)

section Check

variable
    {fmt : PacketFormat P}
    {cfg : Config}
    {x y : P}
    {passes : Bool}
    (hCheck : checkPacket fmt cfg x = .ok (y, passes))

include hCheck

/- Only the computed length of a packet is written. -/
theorem checkPacket_get
    {f : Field}
    (hSized : fmt.Sized (fmt.restoreTotalLen x))
    (hNe : f ≠ .computedTotalLen) :
    fmt.getInteger f y = fmt.getInteger f x := by
  rw [← PacketFormat.get_restoreTotalLen hNe x]
  unfold checkPacket at hCheck
  split at hCheck
  · rcases bind_eq_ok_iff.mp hCheck with
      ⟨⟨z, sum⟩, hSum, hResult⟩
    cases hResult
    by_cases hEq : f = .checksum
    · subst hEq
      rw [fmt.get_set_self .checksum _ _
          (Field.fits_of_bits_ne (by decide) _),
        ← fmt.get_canon .checksum]
      simp [Field.canon, Field.signed, Field.bits]
    · rw [fmt.get_set_ne .checksum f _ _
          (Field.fits_of_bits_ne (by decide) _) hEq,
        fmt.checksum_get_ne f _ z sum hSum hEq hSized]
  · cases hCheck
    rfl

/- The computed length is the one sent. -/
theorem checkPacket_computed
    (hSized : fmt.Sized (fmt.restoreTotalLen x)) :
    fmt.getInteger .computedTotalLen y =
      fmt.getInteger .totalLen x := by
  have hRestored :
      fmt.getInteger .computedTotalLen
          (fmt.restoreTotalLen x) =
        fmt.getInteger .totalLen x := by
    rw [PacketFormat.restoreTotalLen,
      fmt.get_set_self .computedTotalLen _ _
        (Field.fits_of_bits_ne (by decide) _)]
    exact fmt.get_canon .totalLen x
  unfold checkPacket at hCheck
  split at hCheck
  · rcases bind_eq_ok_iff.mp hCheck with
      ⟨⟨z, sum⟩, hSum, hResult⟩
    cases hResult
    rw [fmt.get_set_ne .checksum .computedTotalLen _ _
        (Field.fits_of_bits_ne (by decide) _) (by decide),
      fmt.checksum_get_ne .computedTotalLen _ z sum hSum
        (by decide) hSized, hRestored]
  · cases hCheck
    exact hRestored

/- The lengths of a checked packet agree. -/
theorem checkPacket_restored
    (hSized : fmt.Sized (fmt.restoreTotalLen x)) :
    fmt.restoreTotalLen y = y := by
  rw [PacketFormat.restoreTotalLen,
    checkPacket_get hCheck hSized (by decide),
    ← checkPacket_computed hCheck hSized, fmt.set_get]

/- The payload of the length sent is kept. -/
theorem checkPacket_read
    {n : Nat}
    (hLength : ((fmt.headerLen + n : Nat) : Int) ≤
      (fmt.getWord .totalLen x).toInt) :
    fmt.readPayload n y = fmt.readPayload n x := by
  rw [← PacketFormat.read_restoreTotalLen n x]
  unfold checkPacket at hCheck
  split at hCheck
  · rcases bind_eq_ok_iff.mp hCheck with
      ⟨⟨z, sum⟩, hSum, hResult⟩
    cases hResult
    rw [fmt.read_set .checksum _ _ _
      (Field.fits_of_bits_ne (by decide) _)]
    apply fmt.checksum_read n _ z sum hSum
    rw [PacketFormat.toInt_getInteger rfl rfl,
      PacketFormat.getWord_restoreTotalLen]
    exact hLength
  · cases hCheck
    rfl

end Check

------------------------------------------------------------
-- The Two Halves of the Path
------------------------------------------------------------

/- The modules up to the identifier one, on ingress. -/
def frontModules
    (cfg : Config) : List Module :=
  [.network] ++
    (if cfg.checksumEnabled then [.checksum] else []) ++
    (if cfg.routingEnabled then [.routing] else []) ++
    [.signalingAfter, .identifier]

/- The modules behind the identifier one, on ingress. -/
def backModules
    (cfg : Config) : List Module :=
  (if cfg.reliableEnabled then [.reliable] else []) ++
    [.inorder, .signaling, .payload]

theorem registeredModules_reverse
    (cfg : Config) :
    (registeredModules cfg).reverse =
      frontModules cfg ++ backModules cfg := by
  unfold registeredModules frontModules backModules
  cases cfg.reliableEnabled <;> cases cfg.routingEnabled <;>
    cases cfg.checksumEnabled <;> rfl

section Paths

variable
    {fmt : PacketFormat P}
    {cfg : Config}
    {p : PacketPtr}
    {e : Endpoint P}

theorem runHooks_check_eq :
    runHooks (hookIngress fmt cfg p)
        ([.network] ++
          (if cfg.checksumEnabled then [.checksum] else []))
        e =
      (checkPacket fmt cfg (e.packets p)).map
        (fun (y, passes) =>
          (if passes then .hookContinue else .hookDrop,
            e.setPacket p y)) := by
  simp only [List.singleton_append, runHooks, hookIngress,
    NetworkModule.hookIngress, ok_bind,
    Endpoint.modifyPacket_eq, checkPacket]
  cases hChecksum : cfg.checksumEnabled
  · simp [runHooks, Except.map]
  · simp only [if_true, runHooks_singleton, hookIngress,
      ChecksumModule.hookIngress,
      Endpoint.setPacket_packets_self]
    cases fmt.computeChecksum
        (fmt.restoreTotalLen (e.packets p)) with
    | error fault => rfl
    | ok result =>
        rcases result with ⟨y, sum⟩
        simp only [ok_bind, Except.map, pure_eq_ok,
          Endpoint.modifyPacket_eq,
          Endpoint.setPacket_setPacket, decide_eq_true_eq]
        split <;> rfl

/- The path up to the lookup, as one function. -/
theorem runFront_eq :
    runHooks (hookIngress fmt cfg p) (frontModules cfg) e =
      (do
        let (y, passes) ← checkPacket fmt cfg (e.packets p)
        if passes then
          IdentifierModule.hookIngress fmt cfg p
            (e.setPacket p y)
        else
          return (.hookDrop, e.setPacket p y)) := by
  have hLookup : ∀ e' : Endpoint P,
      runHooks (hookIngress fmt cfg p)
          ((if cfg.routingEnabled then [.routing] else []) ++
            [.signalingAfter, .identifier]) e' =
        IdentifierModule.hookIngress fmt cfg p e' := by
    intro e'
    have hRouting : runHooks (hookIngress fmt cfg p)
        (if cfg.routingEnabled then [.routing] else []) e' =
          .ok (.hookContinue, e') := by
      split <;> simp [runHooks, hookIngress]
    rw [runHooks_append_of_continue hRouting]
    change runHooks _ [.identifier] e' = _
    rw [runHooks_singleton, hookIngress]
  rw [frontModules, List.append_assoc, runHooks_append,
    runHooks_check_eq]
  simp only [hLookup]
  cases checkPacket fmt cfg (e.packets p) with
  | error fault => rfl
  | ok result =>
      rcases result with ⟨y, passes⟩
      cases passes <;> rfl

end Paths

------------------------------------------------------------
-- Where a Packet Goes
------------------------------------------------------------

/- The connection the table holds for a packet, or null. -/
def lookup
    (fmt : PacketFormat P)
    (cfg : Config)
    (e : Endpoint P)
    (y : P) : ConnPtr :=
  e.netState.retrieveConnection cfg.flowIdentifier
    (fmt.getWord .dstAppId y) (fmt.getWord .srcAppId y)
    (fmt.getInteger .srcHostId y)

/- The packet is put into a listener's accept queue. -/
def Endpoint.parked
    (p : PacketPtr)
    (y : P)
    (listener : ConnPtr)
    (conn : Connection)
    (q : AcceptQueue)
    (e : Endpoint P) : Endpoint P :=
  { (e.setPacket p y).setConn listener
      { conn with acceptQueue := q } with
    events := e.events ++ [(.acceptReady, listener)] }

/-
  What the path up to the lookup can do with the packet at
  `p`, whose buffer holds `y` once it is checked.
-/
inductive FrontResult
    (fmt : PacketFormat P)
    (cfg : Config)
    (p : PacketPtr)
    (e : Endpoint P) : HookStatus → Endpoint P → Prop
| rejected {y : P} :
    checkPacket fmt cfg (e.packets p) = .ok (y, false) →
    FrontResult fmt cfg p e .hookDrop (e.setPacket p y)
| unclaimed {y : P} :
    checkPacket fmt cfg (e.packets p) = .ok (y, true) →
    (fmt.getInteger .dstHostId y ≠ e.myLocalHostId ∨
      lookup fmt cfg e y = 0 ∧
        cfg.flowIdentifier = .dstIdentifiersOnly) →
    FrontResult fmt cfg p e .hookDrop (e.setPacket p y)
| parked {y : P} {listener : ConnPtr} {conn : Connection}
    {q : AcceptQueue} :
    checkPacket fmt cfg (e.packets p) = .ok (y, true) →
    fmt.getInteger .dstHostId y = e.myLocalHostId →
    lookup fmt cfg e y = 0 →
    cfg.flowIdentifier = .srcDstIdentifier →
    e.netState.retrieveWildcardConnection
      (fmt.getWord .dstAppId y) = listener →
    listener ≠ 0 →
    e.conns listener = some conn →
    insertAcceptQueue conn.acceptQueue
      (fmt.getWord .srcAppId y)
      (fmt.getInteger .srcHostId y) p = .ok q →
    FrontResult fmt cfg p e .hookDrop
      (e.parked p y listener conn q)
| routed {y : P} :
    checkPacket fmt cfg (e.packets p) = .ok (y, true) →
    fmt.getInteger .dstHostId y = e.myLocalHostId →
    lookup fmt cfg e y ≠ 0 →
    FrontResult fmt cfg p e .hookContinue
      (e.setPacket p
        (fmt.setInteger .flowIdentifier
          (lookup fmt cfg e y) y))

section Routes

variable
    {fmt : PacketFormat P}
    {cfg : Config}
    {p : PacketPtr}
    {e e' : Endpoint P}

/- The identifier module on a packet, by what it found. -/
theorem identifier_hookIngress_eq
    (y : P) :
    IdentifierModule.hookIngress fmt cfg p
        (e.setPacket p y) =
      if fmt.getInteger .dstHostId y ≠ e.myLocalHostId then
        .ok (.hookDrop, e.setPacket p y)
      else if lookup fmt cfg e y ≠ 0 then
        .ok (.hookContinue, e.setPacket p
          (fmt.setInteger .flowIdentifier
            (lookup fmt cfg e y) y))
      else
        match cfg.flowIdentifier with
        | .dstIdentifiersOnly =>
            .ok (.hookDrop, e.setPacket p y)
        | .srcDstIdentifier =>
            IdentifierModule.ingressWildcard
              (fmt.getWord .dstAppId y)
              (fmt.getWord .srcAppId y)
              (fmt.getInteger .srcHostId y) p
              (e.setPacket p y) := by
  simp only [IdentifierModule.hookIngress,
    Endpoint.setPacket_packets_self,
    Endpoint.modifyPacket_eq, Endpoint.setPacket_setPacket,
    lookup, Endpoint.setPacket_netState,
    Endpoint.setPacket_myLocalHostId]
  rfl

/- Queueing a packet at a wildcard listener. -/
theorem ingressWildcard_ok_iff
    {dstAppId srcAppId : BitVec 32}
    {srcHostId : BitVec 64}
    {y : P}
    {status : HookStatus} :
    IdentifierModule.ingressWildcard dstAppId srcAppId
        srcHostId p (e.setPacket p y) = .ok (status, e') ↔
      ∃ listener conn q,
        e.netState.retrieveWildcardConnection dstAppId =
            listener ∧
          listener ≠ 0 ∧
          e.conns listener = some conn ∧
          insertAcceptQueue conn.acceptQueue srcAppId
            srcHostId p = .ok q ∧
          status = .hookDrop ∧
          e' = e.parked p y listener conn q := by
  unfold IdentifierModule.ingressWildcard
  rw [Endpoint.setPacket_netState]
  by_cases hNull :
      e.netState.retrieveWildcardConnection dstAppId = 0
  · rw [if_neg (not_not.mpr hNull)]
    constructor
    · intro hThrow
      cases hThrow
    · rintro ⟨listener, conn, q, rfl, hNe, -⟩
      exact absurd hNull hNe
  · rw [if_pos hNull]
    simp only [bind_eq_ok_iff, Endpoint.loadConn_eq_ok_iff,
      Endpoint.setPacket_conns, pure_eq_ok,
      Except.ok.injEq, Prod.mk.injEq]
    constructor
    · rintro ⟨conn, hConn, q, hInsert, hStatus, hEnd⟩
      refine ⟨_, conn, q, rfl, hNull, hConn, hInsert,
        hStatus.symm, ?_⟩
      rw [← hEnd, Endpoint.modifyConn_eq
        (e := e.setPacket p y) hConn]
      rfl
    · rintro ⟨listener, conn, q, rfl, -, hConn, hInsert,
        hStatus, rfl⟩
      refine ⟨conn, hConn, q, hInsert, hStatus.symm, ?_⟩
      rw [Endpoint.modifyConn_eq (e := e.setPacket p y)
        hConn]
      rfl

/- The path up to the lookup, by what can happen on it. -/
theorem runFront_ok_iff
    {status : HookStatus} :
    runHooks (hookIngress fmt cfg p) (frontModules cfg) e =
        .ok (status, e') ↔
      FrontResult fmt cfg p e status e' := by
  rw [runFront_eq]
  constructor
  · intro hRun
    rcases bind_eq_ok_iff.mp hRun with
      ⟨⟨y, passes⟩, hCheck, hNext⟩
    cases passes with
    | false =>
        cases hNext
        exact .rejected hCheck
    | true =>
        simp only [if_true, identifier_hookIngress_eq]
          at hNext
        split at hNext
        · next hHost =>
            cases hNext
            exact .unclaimed hCheck (Or.inl hHost)
        · next hHost =>
            split at hNext
            · next hFound =>
                cases hNext
                exact .routed hCheck (not_not.mp hHost) hFound
            · next hFound =>
                cases hFlow : cfg.flowIdentifier with
                | dstIdentifiersOnly =>
                    rw [hFlow] at hNext
                    cases hNext
                    exact .unclaimed hCheck
                      (Or.inr ⟨not_not.mp hFound, hFlow⟩)
                | srcDstIdentifier =>
                    rw [hFlow] at hNext
                    rcases ingressWildcard_ok_iff.mp hNext
                      with ⟨listener, conn, q, hListener,
                        hNe, hConn, hInsert, rfl, rfl⟩
                    exact .parked hCheck (not_not.mp hHost)
                      (not_not.mp hFound) hFlow hListener hNe
                      hConn hInsert
  · intro hResult
    cases hResult with
    | rejected hCheck =>
        rw [hCheck]
        rfl
    | unclaimed hCheck hDrop =>
        rw [hCheck]
        simp only [ok_bind, if_true,
          identifier_hookIngress_eq]
        split
        · rfl
        · next hHost =>
            rcases hDrop with hDrop | ⟨hNone, hFlow⟩
            · exact absurd hDrop hHost
            · rw [if_neg (not_not.mpr hNone), hFlow]
    | parked hCheck hHost hNone hFlow hListener hNe hConn
        hInsert =>
        rw [hCheck]
        simp only [ok_bind, if_true,
          identifier_hookIngress_eq]
        rw [if_neg (not_not.mpr hHost),
          if_neg (not_not.mpr hNone), hFlow]
        exact ingressWildcard_ok_iff.mpr
          ⟨_, _, _, hListener, hNe, hConn, hInsert, rfl, rfl⟩
    | routed hCheck hHost hFound =>
        rw [hCheck]
        simp only [ok_bind, if_true,
          identifier_hookIngress_eq]
        rw [if_neg (not_not.mpr hHost), if_pos hFound]

/-
  A packet is dropped on the way to the lookup, or goes on
  to the modules behind it.
-/
theorem runIngressPath_ok_iff :
    runIngressPath fmt cfg p e = .ok e' ↔
      FrontResult fmt cfg p e .hookDrop e' ∨
        ∃ e₁ status,
          FrontResult fmt cfg p e .hookContinue e₁ ∧
            runHooks (hookIngress fmt cfg p)
              (backModules cfg) e₁ = .ok (status, e') := by
  unfold runIngressPath
  rw [registeredModules_reverse, runHooks_append]
  simp only [← runFront_ok_iff, bind_eq_ok_iff, Prod.exists,
    pure_eq_ok, Except.ok.injEq]
  constructor
  · rintro ⟨status, e₁, ⟨front, e₂, hFront, hBack⟩, rfl⟩
    cases front with
    | hookDrop =>
        cases hBack
        exact Or.inl hFront
    | hookContinue =>
        exact Or.inr ⟨e₂, status, hFront, hBack⟩
  · rintro (hFront | ⟨e₁, status, hFront, hBack⟩)
    · exact ⟨_, _, ⟨_, _, hFront, rfl⟩, rfl⟩
    · exact ⟨_, _, ⟨_, _, hFront, hBack⟩, rfl⟩

end Routes

------------------------------------------------------------
-- Behind the Lookup
------------------------------------------------------------

/-
  A connection after a packet went through the inorder
  module, and through signaling if it was not dropped.
-/
def arrivedConn
    (conn : Connection)
    (status : HookStatus)
    (v : InorderView) : Connection :=
  let conn := conn.withInorderView v
  if status = .hookContinue ∧
      conn.signalingState = .waitingForSignal then
    { conn with signalingState := .signaled }
  else
    conn

theorem arrivedConn_members
    (conn : Connection)
    (status : HookStatus)
    (v : InorderView) :
    (arrivedConn conn status v).inorderView = v ∧
      (arrivedConn conn status v).acceptQueue =
        conn.acceptQueue := by
  unfold arrivedConn
  dsimp only
  split <;> exact ⟨rfl, rfl⟩

section Back

variable
    {fmt : PacketFormat P}
    {cfg : Config}
    {p : PacketPtr}
    {e e' : Endpoint P}
    {c : ConnPtr}
    {conn : Connection}

theorem restoreAll_conns
    (taken : List PacketPtr) :
    (e.restoreAll fmt taken).conns = e.conns :=
  rfl

/- Restoring lengths keeps the other members. -/
theorem restoreAll_get
    {f : Field}
    (hNe : f ≠ .computedTotalLen)
    (taken : List PacketPtr)
    (q : PacketPtr) :
    fmt.getInteger f
        ((e.restoreAll fmt taken).packets q) =
      fmt.getInteger f (e.packets q) := by
  simp only [Endpoint.restoreAll]
  split
  · exact PacketFormat.get_restoreTotalLen hNe _
  · rfl

/- A packet that was delivered has its length restored. -/
def arrivedPackets
    (status : HookStatus)
    (p : PacketPtr)
    (taken : List PacketPtr) : List PacketPtr :=
  if status = .hookContinue then p :: taken else taken

/- The modules that work on a data packet's connection. -/
theorem runData_eq
    (hFlow : InorderModule.flowConnection fmt p e = c)
    (hConn : e.conns c = some conn) :
    runHooks (hookIngress fmt cfg p)
        [.inorder, .signaling, .payload] e =
      (absorb cfg.inorderStrategy
          (InorderModule.ingressLen fmt cfg.inorderStrategy
            e p)
          (fmt.getWord .sequenceNumber (e.packets p)) p
          conn.inorderView).map
        (fun (status, v, taken) => (status,
          (e.setConn c (arrivedConn conn status v)
            ).restoreAll fmt
              (arrivedPackets status p taken))) := by
  rw [runHooks, hookIngress,
    InorderModule.hookIngress_eq hFlow hConn]
  cases absorb cfg.inorderStrategy
      (InorderModule.ingressLen fmt cfg.inorderStrategy e p)
      (fmt.getWord .sequenceNumber (e.packets p)) p
      conn.inorderView with
  | error fault => rfl
  | ok result =>
      rcases result with ⟨status, v, taken⟩
      cases status with
      | hookDrop =>
          simp [Except.map, arrivedConn, arrivedPackets,
            InorderModule.restoredBy]
      | hookContinue =>
          let before := InorderModule.restoredBy
            cfg.inorderStrategy .hookContinue p taken
          let e₁ := (e.setConn c
            (conn.withInorderView v)).restoreAll fmt before
          have hFlow₁ :
              InorderModule.flowConnection fmt p e₁ = c := by
            rw [InorderModule.flowConnection,
              restoreAll_get (e := e.setConn c _) (by decide)]
            exact hFlow
          have hConn₁ : e₁.conns c =
              some (conn.withInorderView v) :=
            Endpoint.setConn_conns_self e c _
          have hPayload : ∀ conn' : Connection,
              PayloadModule.hookIngress fmt p
                  (e₁.setConn c conn') =
                .ok (.hookContinue,
                  (e.setConn c conn').restoreAll fmt
                    (p :: taken)) := by
            intro conn'
            have hRestore : ((e.setConn c conn').restoreAll
                fmt before).modifyPacket p
                  fmt.restoreTotalLen = _ :=
              InorderModule.restoreAll_modifyPacket p before
            have hSame : ∀ q, q ∈ p :: before ↔
                q ∈ p :: taken := by
              intro q
              simp only [before, InorderModule.restoredBy]
              split <;> simp
            have hList : (e.setConn c conn').restoreAll fmt
                  (p :: before) =
                (e.setConn c conn').restoreAll fmt
                  (p :: taken) := by
              simp only [Endpoint.restoreAll, hSame]
            rw [PayloadModule.hookIngress, ← hList,
              ← hRestore]
            simp [e₁, Endpoint.setConn, Endpoint.restoreAll]
          change runHooks (hookIngress fmt cfg p)
            [.signaling, .payload] e₁ = _
          simp only [runHooks, hookIngress,
            SignalingModule.hookIngress, hFlow₁,
            Endpoint.loadConn_of_some hConn₁, ok_bind,
            pure_eq_ok, Except.map, arrivedConn, true_and,
            arrivedPackets, if_true]
          by_cases hWaiting :
              (conn.withInorderView v).signalingState =
                .waitingForSignal
          · rw [if_pos hWaiting, if_pos hWaiting,
              Endpoint.modifyConn_eq hConn₁, ok_bind,
              hPayload]
            rfl
          · have hSame := hPayload (conn.withInorderView v)
            rw [Endpoint.setConn_self hConn₁] at hSame
            rw [if_neg hWaiting, if_neg hWaiting, ok_bind,
              hSame]
            rfl

/- An ack stops the timer of the packet in its slot. -/
theorem receiveAck_ok_iff
    {n : BitVec 32} :
    ReliableModule.receiveAck fmt c n e = .ok e' ↔
      ∃ conn, e.conns c = some conn ∧
        ((conn.redeliveryBuffer (slot n) = none ∧ e' = e) ∨
          ∃ q t, conn.redeliveryBuffer (slot n) = some q ∧
            toTimerPtr (fmt.getInteger .redeliveryTimer
              (e.packets q)) = some t ∧
            e' = ({ e with
                timers := (e.timers.removeTimer t
                  ).returnTimer t } : Endpoint P).setConn c
              { conn with
                redeliveryBuffer :=
                  Function.update conn.redeliveryBuffer
                    (slot n) none }) := by
  unfold ReliableModule.receiveAck
  cases hConn : e.conns c with
  | none => simp [Endpoint.loadConn_of_none hConn]
  | some conn =>
      simp only [Endpoint.loadConn_of_some hConn, ok_bind,
        Option.some.injEq, exists_eq_left']
      cases hSlot : conn.redeliveryBuffer (slot n) with
      | none => simp [eq_comm]
      | some q =>
          simp only [reduceCtorEq, false_and, false_or,
            Option.some.injEq, exists_and_left,
            exists_eq_left', pure_eq_ok]
          cases hTimer : toTimerPtr
              (fmt.getInteger .redeliveryTimer
                (e.packets q)) with
          | none => simp
          | some t =>
              have hModify := Endpoint.modifyConn_eq
                (e := { e with
                  timers := (e.timers.removeTimer t
                    ).returnTimer t }) hConn
              simp only [Except.ok.injEq, Option.some.injEq,
                exists_eq_left', hModify]
              exact eq_comm

/- The acknowledgement of a data packet, if there is one. -/
inductive Acked
    (fmt : PacketFormat P)
    (cfg : Config)
    (conn : Connection)
    (seq : BitVec 32)
    (e : Endpoint P) : Endpoint P → Prop
| off :
    cfg.reliableEnabled = false →
    Acked fmt cfg conn seq e e
| sent {x : P} :
    cfg.reliableEnabled = true →
    completePacket fmt cfg conn e.myLocalHostId e.myHostId
      (ackPacket fmt seq (e.packets e.nextPacket)) = .ok x →
    Acked fmt cfg conn seq e
      (e.requested.transmit fmt e.nextPacket x)

/-
  What the modules behind the lookup can do with the packet
  at `p`, routed to the connection `c`.
-/
inductive BackResult
    (fmt : PacketFormat P)
    (cfg : Config)
    (p : PacketPtr)
    (c : ConnPtr)
    (e : Endpoint P) : HookStatus → Endpoint P → Prop
| ack {e' : Endpoint P} :
    cfg.reliableEnabled = true →
    fmt.getWord .ackSequenceNumber (e.packets p) ≠ 0 →
    ReliableModule.receiveAck fmt c
      (fmt.getWord .ackSequenceNumber (e.packets p)) e =
        .ok e' →
    BackResult fmt cfg p c e .hookDrop e'
| data {conn : Connection} {e₁ : Endpoint P}
    {status : HookStatus} {v : InorderView}
    {taken : List PacketPtr} :
    (cfg.reliableEnabled = true →
      fmt.getWord .ackSequenceNumber (e.packets p) = 0) →
    e.conns c = some conn →
    Acked fmt cfg conn
      (fmt.getWord .sequenceNumber (e.packets p)) e e₁ →
    absorb cfg.inorderStrategy
      (InorderModule.ingressLen fmt cfg.inorderStrategy
        e₁ p)
      (fmt.getWord .sequenceNumber (e.packets p)) p
      conn.inorderView = .ok (status, v, taken) →
    BackResult fmt cfg p c e status
      ((e₁.setConn c (arrivedConn conn status v)
        ).restoreAll fmt (arrivedPackets status p taken))

/- An acknowledgement leaves the connections alone. -/
theorem Acked.conns_eq
    {seq : BitVec 32}
    (hAcked : Acked fmt cfg conn seq e e') :
    e'.conns = e.conns := by
  cases hAcked <;> rfl

/- An acknowledgement is written to a buffer of its own. -/
theorem Acked.packets_eq
    {seq : BitVec 32}
    (hAcked : Acked fmt cfg conn seq e e')
    {q : PacketPtr}
    (hNe : q ≠ e.nextPacket) :
    e'.packets q = e.packets q := by
  cases hAcked with
  | off => rfl
  | sent =>
      exact Endpoint.setPacket_packets_of_ne e.requested _ hNe

/- A data packet runs through the modules behind an ack. -/
theorem runData_ok_iff
    {status : HookStatus}
    (hFlow : InorderModule.flowConnection fmt p e = c) :
    runHooks (hookIngress fmt cfg p)
        [.inorder, .signaling, .payload] e =
          .ok (status, e') ↔
      ∃ conn v taken,
        e.conns c = some conn ∧
        absorb cfg.inorderStrategy
          (InorderModule.ingressLen fmt cfg.inorderStrategy
            e p)
          (fmt.getWord .sequenceNumber (e.packets p)) p
          conn.inorderView = .ok (status, v, taken) ∧
        e' = (e.setConn c (arrivedConn conn status v)
          ).restoreAll fmt
            (arrivedPackets status p taken) := by
  cases hConn : e.conns c with
  | none =>
      have hLoad := Endpoint.loadConn_of_none hConn
      have hFault : runHooks (hookIngress fmt cfg p)
          [.inorder, .signaling, .payload] e =
            .error .danglingPointer := by
        cases hStrategy : cfg.inorderStrategy <;>
          simp [runHooks, hookIngress,
            InorderModule.hookIngress, hStrategy,
            InorderModule.ingressDropOutOfOrder,
            InorderModule.ingressHoldForever,
            InorderModule.ingressNoInorder, hFlow, hLoad]
      simp [hFault]
  | some conn =>
      rw [runData_eq hFlow hConn, map_eq_ok_iff]
      constructor
      · rintro ⟨⟨status', v, taken⟩, hAbsorb, hEnd⟩
        cases hEnd
        exact ⟨conn, v, taken, rfl, hAbsorb, rfl⟩
      · rintro ⟨conn', v, taken, hConn', hAbsorb, rfl⟩
        cases hConn'
        exact ⟨_, hAbsorb, rfl⟩

/- Behind the lookup, what happens is one of the cases. -/
theorem runBack_ok_iff
    {status : HookStatus}
    (hFlow : InorderModule.flowConnection fmt p e = c)
    (hBuffer : p ≠ e.nextPacket) :
    runHooks (hookIngress fmt cfg p) (backModules cfg) e =
        .ok (status, e') ↔
      BackResult fmt cfg p c e status e' := by
  cases hReliable : cfg.reliableEnabled with
  | false =>
      have hModules : backModules cfg =
          [.inorder, .signaling, .payload] := by
        simp [backModules, hReliable]
      rw [hModules, runData_ok_iff hFlow]
      constructor
      · rintro ⟨conn, v, taken, hConn, hAbsorb, rfl⟩
        refine .data ?_ hConn (.off hReliable) hAbsorb
        simp [hReliable]
      · intro hResult
        cases hResult with
        | ack hOn => simp [hReliable] at hOn
        | data _ hConn hAcked hAbsorb =>
            cases hAcked with
            | off => exact ⟨_, _, _, hConn, hAbsorb, rfl⟩
            | sent hOn => simp [hReliable] at hOn
  | true =>
      have hModules : backModules cfg =
          .reliable :: [.inorder, .signaling, .payload] := by
        simp [backModules, hReliable]
      rw [hModules, runHooks, hookIngress,
        ReliableModule.hookIngress, hFlow]
      by_cases hAck :
          fmt.getWord .ackSequenceNumber (e.packets p) = 0
      · rw [if_neg (not_not.mpr hAck)]
        constructor
        · intro hRun
          rcases bind_eq_ok_iff.mp hRun with
            ⟨⟨status', e₁⟩, hSend, hData⟩
          rcases bind_eq_ok_iff.mp hSend with
            ⟨e₂, hSend, hEnd⟩
          cases hEnd
          rcases (sendAck_ok_iff hReliable).mp hSend with
            ⟨conn, x, hConn, hComplete, rfl⟩
          have hAcked := Acked.sent (e := e) hReliable
            hComplete
          have hPacket := hAcked.packets_eq hBuffer
          have hFlow₁ := hFlow
          rw [InorderModule.flowConnection, ← hPacket]
            at hFlow₁
          rcases (runData_ok_iff hFlow₁).mp hData with
            ⟨conn', v, taken, hConn', hAbsorb, rfl⟩
          cases hConn.symm.trans hConn'
          rw [hPacket] at hAbsorb
          exact .data (fun _ => hAck) hConn hAcked hAbsorb
        · intro hResult
          cases hResult with
          | ack _ hNe => exact absurd hAck hNe
          | data _ hConn hAcked hAbsorb =>
              cases hAcked with
              | off hOff => simp [hReliable] at hOff
              | sent _ hComplete =>
                  have hSend :=
                    (sendAck_ok_iff hReliable).mpr
                      ⟨_, _, hConn, hComplete, rfl⟩
                  have hAcked := Acked.sent (e := e) hReliable
                    hComplete
                  have hPacket := hAcked.packets_eq hBuffer
                  have hFlow₁ := hFlow
                  rw [InorderModule.flowConnection, ← hPacket]
                    at hFlow₁
                  rw [← hPacket] at hAbsorb
                  simp only [hSend, ok_bind, pure_eq_ok]
                  exact (runData_ok_iff hFlow₁).mpr
                    ⟨_, _, _, hConn, hAbsorb, rfl⟩
      · rw [if_pos hAck]
        constructor
        · intro hRun
          rcases bind_eq_ok_iff.mp hRun with
            ⟨⟨status', e₁⟩, hReceive, hEnd⟩
          rcases bind_eq_ok_iff.mp hReceive with
            ⟨e₂, hReceive, hStatus⟩
          cases hStatus
          cases hEnd
          exact .ack hReliable hAck hReceive
        · intro hResult
          cases hResult with
          | ack _ _ hReceive =>
              rw [hReceive]
              rfl
          | data hNone => exact absurd (hNone hReliable) hAck

end Back

------------------------------------------------------------
-- The Whole Path
------------------------------------------------------------

/-
  What the ingress path can do with the packet at `p`: drop
  it on the way to the lookup, or route the checked packet
  `y` to a connection, and do there what the modules behind
  the lookup do.
-/
inductive IngressResult
    (fmt : PacketFormat P)
    (cfg : Config)
    (p : PacketPtr)
    (e : Endpoint P) : Endpoint P → Prop
| dropped {e' : Endpoint P} :
    FrontResult fmt cfg p e .hookDrop e' →
    IngressResult fmt cfg p e e'
| routed {y : P} {status : HookStatus} {e' : Endpoint P} :
    checkPacket fmt cfg (e.packets p) = .ok (y, true) →
    fmt.getInteger .dstHostId y = e.myLocalHostId →
    lookup fmt cfg e y ≠ 0 →
    BackResult fmt cfg p (lookup fmt cfg e y)
      (e.setPacket p (fmt.setInteger .flowIdentifier
        (lookup fmt cfg e y) y)) status e' →
    IngressResult fmt cfg p e e'

section Whole

variable
    {fmt : PacketFormat P}
    {cfg : Config}
    {e e' : Endpoint P}

/- The packet names the connection it was routed to. -/
theorem flowConnection_setPacket
    (p : PacketPtr)
    (c : ConnPtr)
    (y : P) :
    InorderModule.flowConnection fmt p
        (e.setPacket p (fmt.setInteger .flowIdentifier c y)) =
      c := by
  rw [InorderModule.flowConnection,
    Endpoint.setPacket_packets_self,
    fmt.get_set_self .flowIdentifier _ _
      (Field.fits_of_bits_ne (by decide) _)]
  simp [Field.canon, Field.signed, Field.bits]

theorem runIngressPath_iff
    {p : PacketPtr}
    (hBuffer : p ≠ e.nextPacket) :
    runIngressPath fmt cfg p e = .ok e' ↔
      IngressResult fmt cfg p e e' := by
  rw [runIngressPath_ok_iff]
  constructor
  · rintro (hDropped | ⟨e₁, status, hFront, hBack⟩)
    · exact .dropped hDropped
    · cases hFront with
      | routed hCheck hHost hFound =>
          exact .routed hCheck hHost hFound
            ((runBack_ok_iff
              (flowConnection_setPacket p _ _) hBuffer).mp
                hBack)
  · intro hResult
    cases hResult with
    | dropped hDropped => exact Or.inl hDropped
    | routed hCheck hHost hFound hBack =>
        exact Or.inr ⟨_, _, .routed hCheck hHost hFound,
          (runBack_ok_iff
            (flowConnection_setPacket p _ _) hBuffer).mpr
              hBack⟩

/- A received packet is in a buffer of its own. -/
def Endpoint.polled
    (x : P)
    (e : Endpoint P) : Endpoint P :=
  e.requested.setPacket e.nextPacket x

@[simp] theorem polled_packets_self
    (x : P) :
    (e.polled x).packets e.nextPacket = x :=
  Endpoint.setPacket_packets_self _ _ _

theorem polled_packets_of_ne
    (x : P)
    {p : PacketPtr}
    (hNe : p ≠ e.nextPacket) :
    (e.polled x).packets p = e.packets p :=
  Endpoint.setPacket_packets_of_ne e.requested x hNe

@[simp] theorem polled_lookup
    (x y : P) :
    lookup fmt cfg (e.polled x) y = lookup fmt cfg e y :=
  rfl

/- Receiving a packet runs the ingress path on it. -/
theorem ingress_iff
    {x : P}
    {len : Int} :
    ingress fmt cfg x len e = .ok e' ↔
      IngressResult fmt cfg e.nextPacket (e.polled x) e' :=
  runIngressPath_iff (e := e.polled x)
    (Nat.ne_of_lt (Nat.lt_succ_self _))

end Whole

end NetBlocks
