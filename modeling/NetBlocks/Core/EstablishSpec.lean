import NetBlocks.Core.IngressSpec

/-
  What establishing and tearing down a connection do: the
  members a new connection starts with, the signaling packet
  it may send, and the entry it gets in the table.

  Main declarations:
    * `establishedConn`
    * `EstablishResult` and `nbEstablish_ok_iff`
    * `nbDestablish_ok_iff`
-/

namespace NetBlocks

open Except

variable {P : Type}

------------------------------------------------------------
-- Establishing
------------------------------------------------------------

/-
  The connection as the modules before signaling set it up,
  from the memory `fresh`.
-/
def establishedConn
    (cfg : Config)
    (fresh : Connection)
    (hostLocalId : BitVec 64)
    (a sa : BitVec 32) : Connection :=
  { fresh with
    remoteHostId := hostLocalId
    remoteAppId := a
    localAppId := sa
    inputQueue := []
    acceptQueue := []
    lastSentSequence := 1010
    lastRecvSequence := 0
    inorderBuffer :=
      if cfg.inorderStrategy = .holdForever then
        fun _ => none
      else
        fresh.inorderBuffer
    maxOooSequence :=
      if cfg.inorderStrategy = .holdForever then
        0
      else
        fresh.maxOooSequence
    redeliveryBuffer :=
      if cfg.reliableEnabled then
        fun _ => none
      else
        fresh.redeliveryBuffer }

/- What the routing module sets up. -/
def routedConn
    (cfg : Config)
    (sa : BitVec 32)
    (conn : Connection) : Connection :=
  if cfg.routingEnabled then
    { conn with dstGlobalId := sa }
  else
    conn

/- The endpoint once the connection is in the table. -/
def Endpoint.registered
    (c : ConnPtr)
    (conn : Connection)
    (netState : NetState)
    (e : Endpoint P) : Endpoint P :=
  ({ e with netState } : Endpoint P).setConn c conn

/- Connections to no particular peer are not signaled. -/
def IsWildcard
    (h a : BitVec 32) : Prop :=
  h.setWidth 64 = wildcardHostIdentifier ∨ a = 0

instance (h a : BitVec 32) : Decidable (IsWildcard h a) := by
  unfold IsWildcard
  infer_instance

/-
  What signaling makes of the new connection `conn`, and of
  the endpoint `e` that holds it.
-/
inductive SignalResult
    (fmt : PacketFormat P)
    (cfg : Config)
    (c : ConnPtr)
    (conn : Connection)
    (h a : BitVec 32)
    (e : Endpoint P) : Connection → Endpoint P → Prop
| wildcard {conn' : Connection} :
    IsWildcard h a →
    conn' = { conn with signalingState := .signalNa } →
    SignalResult fmt cfg c conn h a e conn'
      (e.setConn c conn')
| unsignaled {conn' : Connection} :
    ¬ IsWildcard h a →
    cfg.signalingEnabled = false →
    conn' = { conn with signalingState := .signaled } →
    SignalResult fmt cfg c conn h a e conn'
      (e.setConn c conn')
| signals {conn' : Connection} {x : P} {t : Option TimerPtr}
    {timers : TimerPool} :
    ¬ IsWildcard h a →
    cfg.signalingEnabled = true →
    conn' = { conn with signalingState := .waitingForSignal } →
    Sends fmt cfg e conn' e.nextPacket
      (lengthPacket fmt 0 (e.packets e.nextPacket))
      x t timers →
    SignalResult fmt cfg c conn h a e
      (numberedConn cfg conn' e.nextPacket)
      (e.requested.sent fmt cfg c conn' e.nextPacket
        timers x)

section Establish

variable
    {fmt : PacketFormat P}
    {cfg : Config}
    {c : ConnPtr}
    {fresh : Connection}
    {h a sa : BitVec 32}
    {e e' : Endpoint P}

/- The modules before signaling set the connection up. -/
theorem runRegister_eq :
    runHooks (hookEstablish fmt cfg c h a sa)
        ([.payload, .signaling, .inorder] ++
          (if cfg.reliableEnabled then [.reliable] else []) ++
          [.identifier])
        (e.setConn c fresh) =
      (e.netState.addConnection c sa a
          (routingTableLookupFromGlobal h
            e.netState.routingTable)).map
        (fun netState => (.hookContinue,
          e.registered c (establishedConn cfg fresh
            (routingTableLookupFromGlobal h
              e.netState.routingTable) a sa) netState)) := by
  have hHead :
      runHooks (hookEstablish fmt cfg c h a sa)
          ([.payload, .signaling, .inorder] ++
            (if cfg.reliableEnabled then [.reliable] else []))
          (e.setConn c fresh) =
        .ok (.hookContinue, e.setConn c
          { establishedConn cfg fresh 0 0 0 with
            remoteHostId := fresh.remoteHostId
            remoteAppId := fresh.remoteAppId
            localAppId := fresh.localAppId
            inputQueue := fresh.inputQueue
            acceptQueue := fresh.acceptQueue }) := by
    by_cases hHold : cfg.inorderStrategy = .holdForever <;>
      cases hReliable : cfg.reliableEnabled <;>
        simp [runHooks, hookEstablish,
          InorderModule.hookEstablish,
          ReliableModule.hookEstablish, hHold, hReliable,
          establishedConn]
  rw [runHooks_append_of_continue hHead, runHooks_singleton]
  simp only [hookEstablish, IdentifierModule.hookEstablish,
    Endpoint.setConn_loadConn, ok_bind,
    Endpoint.setConn_modifyConn]
  change NetState.addConnection e.netState c sa a
    (routingTableLookupFromGlobal h e.netState.routingTable)
      >>= _ = _
  cases e.netState.addConnection c sa a
      (routingTableLookupFromGlobal h
        e.netState.routingTable) <;> rfl

/- Routing and the modules behind it end the path. -/
theorem runRoute_eq
    {conn : Connection}
    (hConn : e.conns c = some conn) :
    runHooks (hookEstablish fmt cfg c h a sa)
        ((if cfg.routingEnabled then [.routing] else []) ++
          (if cfg.checksumEnabled then [.checksum] else []) ++
          [.network]) e =
      .ok (.hookContinue,
        e.setConn c (routedConn cfg sa conn)) := by
  have hLoad := Endpoint.loadConn_of_some hConn
  cases hRouting : cfg.routingEnabled <;>
    cases hChecksum : cfg.checksumEnabled <;>
      simp [runHooks, hookEstablish,
        RoutingModule.hookEstablish, hLoad, routedConn,
        hRouting, Endpoint.setConn_self hConn,
        Endpoint.modifyConn_eq hConn]

/- Signaling continues in one of the ways listed. -/
theorem signalingAfter_ok_iff
    {conn : Connection}
    {status : HookStatus}
    (hConn : e.conns c = some conn) :
    SignalingModuleAfter.hookEstablish fmt cfg c h a e =
        .ok (status, e') ↔
      status = .hookContinue ∧
        ∃ conn', SignalResult fmt cfg c conn h a e conn' e' := by
  unfold SignalingModuleAfter.hookEstablish
  rw [Endpoint.loadConn_of_some hConn, ok_bind]
  by_cases hWildcard :
      h.setWidth 64 = wildcardHostIdentifier ∨ a = 0
  · rw [if_pos hWildcard, Endpoint.modifyConn_eq hConn]
    constructor
    · intro hEnd
      cases hEnd
      exact ⟨rfl, _, .wildcard hWildcard rfl⟩
    · rintro ⟨rfl, conn', hResult⟩
      cases hResult with
      | wildcard _ hEq =>
          subst hEq
          rfl
      | unsignaled hNot => exact absurd hWildcard hNot
      | signals hNot => exact absurd hWildcard hNot
  · rw [if_neg hWildcard]
    cases hSignaling : cfg.signalingEnabled with
    | false =>
        rw [if_neg (by decide), Endpoint.modifyConn_eq hConn]
        constructor
        · intro hEnd
          cases hEnd
          exact ⟨rfl, _, .unsignaled hWildcard hSignaling rfl⟩
        · rintro ⟨rfl, conn', hResult⟩
          cases hResult with
          | wildcard hIs => exact absurd hIs hWildcard
          | unsignaled _ _ hEq =>
              subst hEq
              rfl
          | signals _ hOn => simp [hSignaling] at hOn
    | true =>
        let waiting : Connection :=
          { conn with signalingState := .waitingForSignal }
        have hSent : ∀ (timers : TimerPool) (x : P),
            (e.setConn c waiting).requested.sent fmt cfg c
                waiting e.nextPacket timers x =
              e.requested.sent fmt cfg c waiting e.nextPacket
                timers x := by
          intro timers x
          simp [Endpoint.sent, Endpoint.setConn,
            Endpoint.requested]
        rw [if_pos rfl, Endpoint.modifyConn_eq hConn]
        simp only [pure_eq_ok, bind_eq_ok_iff,
          Except.ok.injEq, Prod.mk.injEq, sendSignal_ok_iff]
        constructor
        · rintro ⟨e₁, ⟨conn₁, x, t, timers, hConn₁, hSends,
            rfl⟩, hStatus, rfl⟩
          cases (Endpoint.setConn_conns_self e c _).symm.trans
            hConn₁
          refine ⟨hStatus.symm, numberedConn cfg waiting
            e.nextPacket, ?_⟩
          have hResult := SignalResult.signals (c := c)
            hWildcard hSignaling rfl
            (Sends.mk (e := e) hSends.timer hSends.complete)
          exact hSent timers x ▸ hResult
        · rintro ⟨rfl, conn', hResult⟩
          cases hResult with
          | wildcard hIs => exact absurd hIs hWildcard
          | unsignaled _ hOff => simp [hSignaling] at hOff
          | signals _ _ hEq hSends =>
              subst hEq
              exact ⟨_, ⟨_, _, _, _,
                Endpoint.setConn_conns_self e c _,
                ⟨hSends.timer, hSends.complete⟩,
                rfl⟩, rfl, (hSent _ _)⟩

theorem SignalResult.conns_self
    {conn conn' : Connection}
    (hResult : SignalResult fmt cfg c conn h a e conn' e') :
    e'.conns c = some conn' := by
  cases hResult with
  | wildcard => exact Endpoint.setConn_conns_self _ _ _
  | unsignaled => exact Endpoint.setConn_conns_self _ _ _
  | signals => exact Endpoint.setConn_conns_self _ _ _

/- `nb__establish` returns exactly in the ways listed. -/
theorem nbEstablish_ok_iff :
    nbEstablish fmt cfg c fresh h a sa e = .ok e' ↔
      ∃ netState conn' e₁,
        e.netState.addConnection c sa a
          (routingTableLookupFromGlobal h
            e.netState.routingTable) = .ok netState ∧
        SignalResult fmt cfg c
          (establishedConn cfg fresh
            (routingTableLookupFromGlobal h
              e.netState.routingTable) a sa) h a
          (e.registered c (establishedConn cfg fresh
            (routingTableLookupFromGlobal h
              e.netState.routingTable) a sa) netState)
          conn' e₁ ∧
        e' = e₁.setConn c (routedConn cfg sa conn') := by
  have hModules : registeredModules cfg =
      ([.payload, .signaling, .inorder] ++
        (if cfg.reliableEnabled then [.reliable] else []) ++
        [.identifier]) ++
      (.signalingAfter ::
        ((if cfg.routingEnabled then [.routing] else []) ++
          (if cfg.checksumEnabled then [.checksum] else []) ++
          [.network])) := by
    simp [registeredModules]
  unfold nbEstablish runEstablishPath
  change (runHooks _ _ (e.setConn c fresh) >>= _) = _ ↔ _
  rw [hModules, runHooks_append, runRegister_eq]
  cases hAdd : e.netState.addConnection c sa a
      (routingTableLookupFromGlobal h
        e.netState.routingTable) with
  | error fault => simp [Except.map]
  | ok netState =>
      let conn := establishedConn cfg fresh
        (routingTableLookupFromGlobal h
          e.netState.routingTable) a sa
      let e₀ := e.registered c conn netState
      have hConn : e₀.conns c = some conn :=
        Endpoint.setConn_conns_self _ c conn
      simp only [Except.map, ok_bind, Except.ok.injEq,
        runHooks, bind_eq_ok_iff, Prod.exists]
      constructor
      · rintro ⟨status, e₂, ⟨status₁, e₁, hSignal, hRoute⟩,
          hEnd⟩
        rcases (signalingAfter_ok_iff hConn).mp hSignal with
          ⟨rfl, conn', hResult⟩
        rw [runRoute_eq hResult.conns_self] at hRoute
        cases hRoute
        cases hEnd
        exact ⟨netState, conn', e₁, rfl, hResult, rfl⟩
      · rintro ⟨netState', conn', e₁, rfl, hResult, rfl⟩
        refine ⟨.hookContinue, _, ⟨_, e₁, (signalingAfter_ok_iff
          hConn).mpr ⟨rfl, conn', hResult⟩, ?_⟩, rfl⟩
        exact runRoute_eq hResult.conns_self

------------------------------------------------------------
-- Tearing Down
------------------------------------------------------------

/- `nb__destablish` drops the table entry and frees. -/
theorem nbDestablish_ok_iff :
    nbDestablish cfg c e = .ok e' ↔
      ∃ conn, e.conns c = some conn ∧
        e' = { e with
          netState :=
            e.netState.deleteConnection cfg.flowIdentifier
              conn.localAppId conn.remoteAppId
              conn.remoteHostId
          conns := Function.update e.conns c none } := by
  have hRest : ∀ e₁ : Endpoint P,
      runHooks (hookDestablish cfg c)
          (.signalingAfter ::
            ((if cfg.routingEnabled then [.routing] else []) ++
            (if cfg.checksumEnabled then [.checksum]
              else []) ++ [.network])) e₁ =
        .ok (.hookContinue, e₁) := by
    intro e₁
    cases cfg.routingEnabled <;>
      cases cfg.checksumEnabled <;> rfl
  have hFront : ∀ e₁ : Endpoint P,
      runHooks (hookDestablish cfg c)
          ([.payload, .signaling, .inorder] ++
            (if cfg.reliableEnabled then [.reliable] else []))
          e₁ =
        .ok (.hookContinue, e₁) := by
    intro e₁
    cases cfg.reliableEnabled <;> rfl
  have hModules : registeredModules cfg =
      ([.payload, .signaling, .inorder] ++
        (if cfg.reliableEnabled then [.reliable] else [])) ++
      (.identifier :: .signalingAfter ::
        ((if cfg.routingEnabled then [.routing] else []) ++
          (if cfg.checksumEnabled then [.checksum] else []) ++
          [.network])) := by
    simp [registeredModules]
  unfold nbDestablish runDestablishPath
  rw [hModules, runHooks_append_of_continue (hFront e),
    runHooks, hookDestablish, IdentifierModule.hookDestablish]
  cases hConn : e.conns c with
  | none => simp [Endpoint.loadConn_of_none hConn]
  | some conn =>
      simp only [Endpoint.loadConn_of_some hConn, ok_bind,
        pure_eq_ok, hRest, Except.ok.injEq,
        Option.some.injEq, exists_eq_left']
      exact eq_comm

end Establish

end NetBlocks
