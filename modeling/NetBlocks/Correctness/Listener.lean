import NetBlocks.Core.ApiCalls
import NetBlocks.Correctness.Demultiplexing

/-
  What received packets do to wildcard listeners: they are
  parked in an accept queue, and nothing else of a listener
  changes.

  Main declarations:
    * `IsListener`
    * `ListenerOutcome` and `SparesListeners`
    * `sparesListeners_of_run`
-/

namespace NetBlocks

open Except TransitionSystem

variable {P : Type}

------------------------------------------------------------
-- Tables and Accepting
------------------------------------------------------------

section Table

variable
    {fmt : PacketFormat P}
    {cfg : Config}
    {e e' : Endpoint P}

/- A condition on the calls that are not `nb__accept`. -/
def OnCalls
    (guard : Endpoint P → Call P → Prop)
    (e : Endpoint P) : ApiCall P → Prop
| .call call => guard e call
| .accept _ _ _ => True

/-
  A connection is destablished when it finds its own entry,
  and when that keeps the hosts of the table.
-/
def KeepsTable
    (cfg : Config)
    (e : Endpoint P)
    (call : Call P) : Prop :=
  FindsOwnEntry cfg e call ∧ KeepsHosts cfg e call

/- The table agrees with the connections that are live. -/
structure TableKept
    (cfg : Config)
    (e : Endpoint P) : Prop where
  table : TableInvariant e
  agrees : Agrees cfg e
  queued : QueuedOld e

theorem tableKept_netInit
    (fresh : NetState)
    (hConns : ∀ c, e.conns c = none) :
    TableKept cfg (nbNetInit fresh e) where
  table := tableInvariant_netInit fresh hConns
  agrees := agrees_netInit fresh
  queued := by
    intro c conn x hConn
    rw [show (nbNetInit fresh e).conns c = none from hConns c]
      at hConn
    cases hConn

/- What one small step preserves. -/
theorem AcceptStep.tableKept
    {move : AcceptMove}
    (hKept : TableKept cfg e)
    (hStep : AcceptStep fmt cfg (· < e.nextPacket) e move
      e') :
    TableKept cfg e' := by
  have hQueued : QueuedOld e' :=
    (hStep.queuedIn hKept.queued).mono (fun _ hp =>
      Nat.lt_of_lt_of_le hp hStep.nextPacket_le)
  rcases hStep.table with ⟨x, hAdds⟩ | hSame
  · exact ⟨hAdds.tableInvariant hKept.table,
      hAdds.agrees hKept.agrees, hQueued⟩
  · exact ⟨hSame.tableInvariant hKept.table,
      hSame.agrees hKept.agrees, hQueued⟩

/- What one call of the API preserves. -/
theorem ApiCalls.tableKept
    {call : ApiCall P}
    (hKept : TableKept cfg e)
    (hGuard : OnCalls (KeepsTable cfg) e call)
    (hCall : ApiCalls fmt cfg e call e') :
    TableKept cfg e' := by
  have hInvariant : (TableInvariant e' ∧ Agrees cfg e') ∧
      QueuedOld e' := by
    refine hCall.invariant
      (fun e => TableInvariant e ∧ Agrees cfg e) ?_ ?_
      hKept.queued ⟨hKept.table, hKept.agrees⟩
    · rintro c rfl e₁ ⟨hTable, hAgrees⟩ hCall
      exact ⟨hCall.tableInvariant hTable hGuard.1,
        hCall.agrees hTable hAgrees hGuard.1 hGuard.2⟩
    · rintro e₁ move e₂ ⟨hTable, hAgrees⟩ hStep
      rcases hStep.table with ⟨x, hAdds⟩ | hSame
      · exact ⟨hAdds.tableInvariant hTable,
          hAdds.agrees hAgrees⟩
      · exact ⟨hSame.tableInvariant hTable,
          hSame.agrees hAgrees⟩
  exact ⟨hInvariant.1.1, hInvariant.1.2, hInvariant.2⟩

end Table

------------------------------------------------------------
-- Listeners
------------------------------------------------------------

/- What is stored for the wildcard host and app id 0. -/
def IsListener
    (conn : Connection) : Prop :=
  conn.remoteAppId = wildcardAppId ∧
    conn.remoteHostId = wildcardHostIdentifier

/-
  The connections opened as listeners are those established
  with the wildcard host and app id 0, as long as there is no
  routing table.
-/
theorem isListener_openedConn_iff
    {e : Endpoint P}
    (cfg : Config)
    (fresh : Connection)
    (h a sa : BitVec 32)
    (p : PacketPtr)
    (hTable : e.netState.routingTable = none) :
    IsListener (openedConn cfg fresh (e.hostLocalId h) h a sa
        p) ↔
      a = 0 ∧ h = 0 := by
  have hEntry : (openedConn cfg fresh (e.hostLocalId h) h a sa
      p).tableEntry 0 = ⟨0, sa, a, e.hostLocalId h⟩ :=
    openedConn_tableEntry (e.hostLocalId h) p
  have hApp := congrArg TableEntry.remoteAppId hEntry
  have hHost := congrArg TableEntry.remoteHostId hEntry
  simp only [Connection.tableEntry] at hApp hHost
  rw [IsListener, hApp, hHost, Endpoint.hostLocalId, hTable,
    routingTableLookupFromGlobal, wildcardAppId,
    wildcardHostIdentifier]
  refine and_congr Iff.rfl ⟨?_, ?_⟩
  · intro hWide
    have hNat := congrArg BitVec.toNat hWide
    rw [BitVec.toNat_setWidth, Nat.mod_eq_of_lt (by omega)]
      at hNat
    exact BitVec.eq_of_toNat_eq hNat
  · rintro rfl
    rfl

/-
  A packet names the app of no listener together with the
  wildcard host and app as its source.
-/
def NamesNoListener
    (fmt : PacketFormat P)
    (cfg : Config)
    (e : Endpoint P)
    (x : P) : Prop :=
  ∀ y, checkPacket fmt cfg x = .ok (y, true) →
    ∀ c conn, e.conns c = some conn → IsListener conn →
      ¬ (fmt.getWord .dstAppId y = conn.localAppId ∧
        fmt.getWord .srcAppId y = wildcardAppId ∧
        fmt.getInteger .srcHostId y = wildcardHostIdentifier)

/- All that changes of a listener is its accept queue. -/
def SparesListeners
    (e e' : Endpoint P) : Prop :=
  ∀ c conn, e.conns c = some conn → IsListener conn →
    ∃ q, e'.conns c = some { conn with acceptQueue := q }

/-
  What happens to a received packet: it is dropped, parked at
  a listener, or routed to a connection that is none, which
  is then the only one that may change or send an ack.
-/
inductive ListenerOutcome
    (fmt : PacketFormat P)
    (cfg : Config)
    (e : Endpoint P)
    (e' : Endpoint P) : Prop
| dropped :
    e'.conns = e.conns → e'.out = e.out →
    ListenerOutcome fmt cfg e e'
| parked {c : ConnPtr} {conn : Connection}
    {entry : AcceptEntry} :
    e.conns c = some conn → IsListener conn →
    e'.conns = Function.update e.conns c (some { conn with
      acceptQueue := conn.acceptQueue ++ [entry] }) →
    e'.out = e.out →
    ListenerOutcome fmt cfg e e'
| routed {c : ConnPtr} {conn conn' : Connection} :
    e.conns c = some conn → ¬ IsListener conn →
    e'.conns = Function.update e.conns c (some conn') →
    (e'.out = e.out ∨
      ∃ seq e₀ e₁, e₀.out = e.out ∧
        Acked fmt cfg conn seq e₀ e₁ ∧ e'.out = e₁.out) →
    ListenerOutcome fmt cfg e e'

section Packets

variable
    {fmt : PacketFormat P}
    {cfg : Config}
    {p : PacketPtr}
    {e e' : Endpoint P}
    {c : ConnPtr}
    {conn : Connection}
    {x y : P}

/- The connection an entry of the table is about. -/
theorem identifiers_of_agrees
    (hFlow : cfg.flowIdentifier = .srcDstIdentifier)
    (hAgrees : Agrees cfg e)
    {entry : TableEntry}
    (hEntry : entry ∈ e.netState.entries)
    (hConn : e.conns entry.conn = some conn) :
    entry.localAppId = conn.localAppId ∧
      entry.remoteAppId = conn.remoteAppId ∧
      entry.remoteHostId = conn.remoteHostId := by
  rcases hAgrees entry hEntry with ⟨z, hDescribe, -, hSame⟩
  rw [Endpoint.describe, hConn] at hDescribe
  cases hDescribe
  have hEq := hSame hFlow
  exact ⟨congrArg TableEntry.localAppId hEq,
    congrArg TableEntry.remoteAppId hEq,
    congrArg TableEntry.remoteHostId hEq⟩

/- A lookup returns a connection with the identifiers. -/
theorem identifiers_of_lookup
    (hFlow : cfg.flowIdentifier = .srcDstIdentifier)
    (hAgrees : Agrees cfg e)
    (hFound : lookup fmt cfg e y ≠ 0)
    (hConn : e.conns (lookup fmt cfg e y) = some conn) :
    fmt.getWord .dstAppId y = conn.localAppId ∧
      fmt.getWord .srcAppId y = conn.remoteAppId ∧
      fmt.getInteger .srcHostId y = conn.remoteHostId := by
  rw [lookup, NetState.retrieveConnection_eq] at hFound hConn
  cases hFind : e.netState.entries.find?
      (TableEntry.matchesFlow cfg.flowIdentifier
        (fmt.getWord .dstAppId y) (fmt.getWord .srcAppId y)
        (fmt.getInteger .srcHostId y)) with
  | none =>
      rw [hFind] at hFound
      exact absurd rfl hFound
  | some entry =>
      rw [hFind] at hConn
      have hMatch := List.find?_some hFind
      rw [hFlow, TableEntry.matchesFlow_srcDst_iff] at hMatch
      rcases identifiers_of_agrees hFlow hAgrees
          (List.mem_of_find?_eq_some hFind) hConn with
        ⟨hLocal, hApp, hHost⟩
      exact ⟨hMatch.1.symm.trans hLocal,
        hMatch.2.1.symm.trans hApp,
        hMatch.2.2.symm.trans hHost⟩

/- A wildcard lookup returns a listener. -/
theorem isListener_of_wildcard
    {dstAppId : BitVec 32}
    (hFlow : cfg.flowIdentifier = .srcDstIdentifier)
    (hAgrees : Agrees cfg e)
    (hFound : e.netState.retrieveWildcardConnection dstAppId =
      c)
    (hNe : c ≠ 0)
    (hConn : e.conns c = some conn) :
    IsListener conn := by
  rw [NetState.retrieveWildcardConnection_eq] at hFound
  cases hFind : e.netState.entries.find?
      (TableEntry.matchesWildcard dstAppId) with
  | none =>
      rw [hFind] at hFound
      exact absurd hFound.symm hNe
  | some entry =>
      rw [hFind] at hFound
      have hMatch := TableEntry.matchesWildcard_iff.mp
        (List.find?_some hFind)
      have hAddress : entry.conn = c := hFound
      rw [← hAddress] at hConn
      rcases identifiers_of_agrees hFlow hAgrees
          (List.mem_of_find?_eq_some hFind) hConn with
        ⟨-, hApp, hHost⟩
      exact ⟨hApp.symm.trans hMatch.2.1,
        hHost.symm.trans hMatch.2.2⟩

/- The modules behind the lookup work on one connection. -/
theorem BackResult.outcome
    {e₀ : Endpoint P}
    {status : HookStatus}
    (hBack : BackResult fmt cfg p c e₀ status e')
    (hConns : e₀.conns = e.conns)
    (hOut : e₀.out = e.out)
    (hOther : ∀ conn, e.conns c = some conn →
      ¬ IsListener conn) :
    ListenerOutcome fmt cfg e e' := by
  cases hBack with
  | ack _ _ hReceive =>
      rcases receiveAck_ok_iff.mp hReceive with
        ⟨conn, hConn, ⟨-, rfl⟩ | ⟨_, t, -, -, rfl⟩⟩
      · exact .dropped hConns hOut
      · rw [hConns] at hConn
        let conn' : Connection := { conn with
          redeliveryBuffer :=
            Function.update conn.redeliveryBuffer
              (slot (fmt.getWord .ackSequenceNumber
                (e₀.packets p))) none }
        have hConns' : Function.update e₀.conns c
            (some conn') =
            Function.update e.conns c (some conn') := by
          rw [hConns]
        exact @ListenerOutcome.routed P fmt cfg e _ c conn
          conn' hConn (hOther conn hConn) hConns' (Or.inl hOut)
  | @data conn e₁ _ v _ _ hConn hAcked _ =>
      rw [hConns] at hConn
      let conn' := arrivedConn conn status v
      have hConns' : Function.update e₁.conns c (some conn') =
          Function.update e.conns c (some conn') := by
        rw [hAcked.conns_eq, hConns]
      exact @ListenerOutcome.routed P fmt cfg e _ c conn
        conn' hConn (hOther conn hConn) hConns'
        (Or.inr ⟨_, e₀, e₁, hOut, hAcked, rfl⟩)

/- A packet that names no listener never reaches one. -/
theorem ingress_outcome
    {len : Int}
    (hFlow : cfg.flowIdentifier = .srcDstIdentifier)
    (hAgrees : Agrees cfg e)
    (hNames : NamesNoListener fmt cfg e x)
    (hIngress : ingress fmt cfg x len e = .ok e') :
    ListenerOutcome fmt cfg e e' := by
  cases ingress_iff.mp hIngress with
  | dropped hFront =>
      cases hFront with
      | rejected => exact .dropped rfl rfl
      | unclaimed => exact .dropped rfl rfl
      | @parked y listener conn q _ _ _ _ hFound hNe hConn
          hInsert =>
          rcases insertAcceptQueue_ok_iff.mp hInsert with
            ⟨-, rfl⟩
          exact .parked hConn (isListener_of_wildcard hFlow
            hAgrees hFound hNe hConn) rfl rfl
  | @routed y status _ hCheck _ hFound hBack =>
      rw [polled_packets_self] at hCheck
      rw [polled_lookup] at hFound hBack
      refine hBack.outcome rfl rfl ?_
      intro conn hConn hListener
      rcases identifiers_of_lookup hFlow hAgrees hFound hConn
        with ⟨hLocal, hApp, hHost⟩
      exact hNames y hCheck _ conn hConn hListener
        ⟨hLocal, hApp.trans hListener.1,
          hHost.trans hListener.2⟩

/- In each outcome the listeners are spared. -/
theorem ListenerOutcome.spares
    (hOutcome : ListenerOutcome fmt cfg e e') :
    SparesListeners e e' := by
  intro d conn' hConn' hListener
  have hSame : conn' = { conn' with
      acceptQueue := conn'.acceptQueue } := rfl
  cases hOutcome with
  | dropped hConns =>
      exact ⟨conn'.acceptQueue, by rw [hConns, hConn']⟩
  | @parked c conn entry hConn _ hConns =>
      by_cases hEq : d = c
      · subst hEq
        cases hConn.symm.trans hConn'
        exact ⟨_, by rw [hConns, Function.update_self]⟩
      · exact ⟨conn'.acceptQueue, by
          rw [hConns, Function.update_of_ne hEq, hConn']⟩
  | @routed c conn _ hConn hNot hConns =>
      have hNe : d ≠ c := by
        rintro rfl
        cases hConn.symm.trans hConn'
        exact hNot hListener
      exact ⟨conn'.acceptQueue, by
        rw [hConns, Function.update_of_ne hNe, hConn']⟩

/-
  In every run in which the table is kept, a packet that does
  not name a listener as its source spares the listeners.
-/
theorem sparesListeners_of_run
    {calls : List (ApiCall P)}
    {fresh : NetState}
    {e'' : Endpoint P}
    {len : Int}
    (hFlow : cfg.flowIdentifier = .srcDstIdentifier)
    (hConns : ∀ c, e.conns c = none)
    (hRun : Run (Guarded (OnCalls (KeepsTable cfg))
      (ApiCalls fmt cfg)) (nbNetInit fresh e) calls e')
    (hNames : NamesNoListener fmt cfg e' x)
    (hIngress : ingress fmt cfg x len e' = .ok e'') :
    SparesListeners e' e'' ∧
      ListenerOutcome fmt cfg e' e'' := by
  have hStep : ∀ e₁ call e₂, TableKept cfg e₁ →
      Guarded (OnCalls (KeepsTable cfg)) (ApiCalls fmt cfg)
        e₁ call e₂ → TableKept cfg e₂ :=
    fun _ _ _ hKept hStep => hStep.2.tableKept hKept hStep.1
  have hKept := hRun.invariant hStep
    (tableKept_netInit fresh hConns)
  have hOutcome := ingress_outcome hFlow hKept.agrees hNames
    hIngress
  exact ⟨hOutcome.spares, hOutcome⟩

end Packets

/- A stack with a listener of app 7. -/
def establishListener
    (c : ConnPtr)
    (e : Endpoint PacketBuffer) :
    Except Fault (Endpoint PacketBuffer) :=
  nbEstablish netPacketFormat (plainConfig .srcDstIdentifier)
    c blankConnection 0 0 7 e

/- A packet to app 7 with one byte of payload. -/
def packetToSeven
    (srcHostId : BitVec 64)
    (srcAppId : BitVec 32) : PacketBuffer :=
  (((blankBuffer.setInteger .totalLen 39).setInteger
    .dstAppId 7).setInteger .srcAppId
      (srcAppId.setWidth 64)).setInteger .srcHostId srcHostId

/-
  A packet from app 0 at host 0 is found to belong to the
  listener itself, which takes its payload.
-/
theorem not_forall_sparesListeners :
    ¬ ∀ (fmt : PacketFormat PacketBuffer) cfg fresh e calls
        e' x len e'',
      cfg.flowIdentifier = .srcDstIdentifier →
        (∀ c, e.conns c = none) →
          Run (Guarded (OnCalls (KeepsTable cfg))
            (ApiCalls fmt cfg)) (nbNetInit fresh e) calls
              e' →
            ingress fmt cfg x len e' = .ok e'' →
              SparesListeners e' e'' := by
  intro hAll
  let cfg := plainConfig .srcDstIdentifier
  have hTable : (do
      let e₁ ← establishListener 1 bareStack
      let e₂ ← ingress netPacketFormat cfg
        (packetToSeven 0 0) 39 e₁
      return ((e₁.conns 1).map (fun conn : Connection =>
          (conn.remoteAppId, conn.remoteHostId,
            conn.inputQueue.length)),
        (e₂.conns 1).map (Connection.inputQueue ·
          |>.length))) =
      .ok (some (0, 0, 0), some 1) := by
    decide +kernel
  rcases bind_eq_ok_iff.mp hTable with ⟨e₁, hFirst, hRest⟩
  rcases bind_eq_ok_iff.mp hRest with ⟨e₂, hIngress, hEnd⟩
  simp only [pure_eq_ok, Except.ok.injEq, Prod.mk.injEq,
    Option.map_eq_some_iff] at hEnd
  rcases hEnd with
    ⟨⟨conn, hConn, hApp, hHost, hEmpty⟩, conn', hConn', hOne⟩
  have hRun : Run (Guarded (OnCalls (KeepsTable cfg))
      (ApiCalls netPacketFormat cfg)) bareStack
      [.call (.establish 1 blankConnection 0 0 7)] e₁ :=
    .cons ⟨⟨trivial, trivial⟩,
      .call (.establish (by decide) rfl hFirst)⟩ (.nil e₁)
  have hSpares := hAll netPacketFormat cfg blankNetState
    bareEndpoint _ e₁ (packetToSeven 0 0) 39 e₂ rfl
    (fun _ => rfl) hRun hIngress
  rcases hSpares 1 conn hConn ⟨hApp, hHost⟩ with ⟨q, hQueued⟩
  cases hConn'.symm.trans hQueued
  exact absurd (hEmpty.symm.trans hOne) (by decide)

/- A packet of app 8 at host 9 is parked at the listener. -/
theorem sparesListeners_of_run_one :
    ∃ e₁ e₂ : Endpoint PacketBuffer,
      (e₂.conns 1).map (·.acceptQueue.length) = some 1 ∧
        SparesListeners e₁ e₂ ∧
          ListenerOutcome netPacketFormat
            (plainConfig .srcDstIdentifier) e₁ e₂ := by
  let cfg := plainConfig .srcDstIdentifier
  let x := packetToSeven 9 8
  have hTable : (do
      let e₁ ← establishListener 1 bareStack
      let e₂ ← ingress netPacketFormat cfg x 39 e₁
      return (e₂.conns 1).map (Connection.acceptQueue ·
        |>.length)) =
      .ok (some 1) := by
    decide +kernel
  rcases bind_eq_ok_iff.mp hTable with ⟨e₁, hFirst, hRest⟩
  rcases bind_eq_ok_iff.mp hRest with ⟨e₂, hIngress, hEnd⟩
  simp only [pure_eq_ok, Except.ok.injEq] at hEnd
  have hRun : Run (Guarded (OnCalls (KeepsTable cfg))
      (ApiCalls netPacketFormat cfg)) bareStack
      [.call (.establish 1 blankConnection 0 0 7)] e₁ :=
    .cons ⟨⟨trivial, trivial⟩,
      .call (.establish (by decide) rfl hFirst)⟩ (.nil e₁)
  have hNames : NamesNoListener netPacketFormat cfg e₁ x := by
    rintro y hCheck c conn - - ⟨-, hApp, -⟩
    have hSame : checkPacket netPacketFormat cfg x =
        .ok (netPacketFormat.restoreTotalLen x, true) := rfl
    cases hSame.symm.trans hCheck
    exact absurd hApp (by decide +kernel)
  exact ⟨e₁, e₂, hEnd, sparesListeners_of_run rfl
    (fun _ => rfl) hRun hNames hIngress⟩

end NetBlocks
