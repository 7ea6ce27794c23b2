import NetBlocks.Core.Calls
import NetBlocks.Core.PacketBuffer

/-
  The connection table over whole runs: which connections it
  holds, which one a lookup returns, and what happens to
  packets no connection matches.

  Main declarations:
    * `HoldsLive` and `holdsLive_of_run`
    * `Demultiplexes` and `demultiplexes_of_run`
    * `latePacket_of_run`
-/

namespace NetBlocks

open TransitionSystem Except

variable {P : Type}

------------------------------------------------------------
-- Live Connections
------------------------------------------------------------

/-
  The entries in use are exactly the connections that were
  established and not yet destablished, each once.
-/
structure HoldsLive
    (e : Endpoint P) : Prop where
  nodup : e.netState.connections.Nodup
  live : ∀ c, c ∈ e.netState.connections ↔ e.conns c ≠ none

/- The table also holds no null pointer. -/
structure TableInvariant
    (e : Endpoint P) : Prop extends HoldsLive e where
  ne_null : ∀ c ∈ e.netState.connections, c ≠ 0

/-
  A connection is destablished when a lookup of its own
  identifiers finds it, and not another one or none.
-/
def FindsOwnEntry
    (cfg : Config)
    (e : Endpoint P) : Call P → Prop
| .destablish c => ∀ x, e.describe c = some x →
    e.netState.retrieveConnection cfg.flowIdentifier
      x.localAppId x.remoteAppId x.remoteHostId = c
| _ => True

/- An address describes itself. -/
theorem conn_of_describe
    {e : Endpoint P}
    {c : ConnPtr}
    {x : TableEntry}
    (hDescribe : e.describe c = some x) :
    x.conn = c := by
  rcases Option.map_eq_some_iff.mp hDescribe with
    ⟨conn, -, rfl⟩
  rfl

section Live

variable
    {fmt : PacketFormat P}
    {cfg : Config}
    {e e' : Endpoint P}

/- A stack is initialized before it has connections. -/
theorem tableInvariant_netInit
    (fresh : NetState)
    (hConns : ∀ c, e.conns c = none) :
    TableInvariant (nbNetInit fresh e) := by
  have hEmpty :
      (nbNetInit fresh e).netState.connections = [] := rfl
  have hNone : ∀ c, (nbNetInit fresh e).conns c = none :=
    hConns
  refine ⟨⟨?_, ?_⟩, ?_⟩ <;> simp [hEmpty, hNone]

theorem SameTable.tableInvariant
    (hSame : SameTable e e')
    (hTable : TableInvariant e) :
    TableInvariant e' := by
  refine ⟨⟨?_, ?_⟩, ?_⟩
  · rw [hSame.netState]
    exact hTable.nodup
  · intro c
    rw [hSame.netState, hTable.live c,
      ← describe_ne_none_iff, ← describe_ne_none_iff,
      hSame.describe]
  · rw [hSame.netState]
    exact hTable.ne_null

theorem TableAdds.entries
    {x : TableEntry}
    (hAdds : TableAdds e x e') :
    e'.netState.entries = e.netState.entries ++ [x] :=
  (NetState.addConnection_entries hAdds.netState).1

theorem TableAdds.connections
    {x : TableEntry}
    (hAdds : TableAdds e x e') :
    e'.netState.connections =
      e.netState.connections ++ [x.conn] := by
  rw [NetState.connections_eq, hAdds.entries,
    NetState.connections_eq, List.map_append]
  rfl

theorem TableAdds.tableInvariant
    {x : TableEntry}
    (hAdds : TableAdds e x e')
    (hTable : TableInvariant e) :
    TableInvariant e' := by
  rcases hAdds.fresh with ⟨hNe, hFree⟩
  have hConns := hAdds.connections
  have hNew : x.conn ∉ e.netState.connections := by
    rw [hTable.live, ← describe_ne_none_iff, hFree]
    simp
  refine ⟨⟨?_, ?_⟩, ?_⟩
  · rw [hConns]
    exact List.nodup_append.mpr ⟨hTable.nodup,
      List.nodup_singleton _, by
        rintro c hc d hd rfl
        exact hNew (List.mem_singleton.mp hd ▸ hc)⟩
  · intro c
    rw [hConns, List.mem_append, List.mem_singleton,
      hTable.live, ← describe_ne_none_iff,
      ← describe_ne_none_iff, hAdds.describe]
    by_cases hEq : c = x.conn
    · simp [hEq]
    · simp [hEq]
  · rw [hConns]
    intro c hc
    rcases List.mem_append.mp hc with hOld | hNew
    · exact hTable.ne_null c hOld
    · rw [List.mem_singleton.mp hNew]
      exact hNe

/-
  The entry that is deleted is the first one that matches;
  here it is the connection's own.
-/
theorem TableDeletes.split
    {x : TableEntry}
    (hDeletes : TableDeletes cfg e x e')
    (hTable : TableInvariant e)
    (hOwn : FindsOwnEntry cfg e (.destablish x.conn)) :
    ∃ before own behind,
      own.conn = x.conn ∧
      e.netState.entries = before ++ own :: behind ∧
      e'.netState.entries = before ++
        TableEntry.fillGap cfg.flowIdentifier own behind := by
  have hFound := hOwn x hDeletes.live
  have hNe : x.conn ≠ 0 := by
    apply hTable.ne_null
    rw [hTable.live, ← describe_ne_none_iff, hDeletes.live]
    simp
  rw [NetState.retrieveConnection_eq] at hFound
  cases hFind : e.netState.entries.find?
      (TableEntry.matchesFlow cfg.flowIdentifier x.localAppId
        x.remoteAppId x.remoteHostId) with
  | none =>
      rw [hFind] at hFound
      exact absurd hFound.symm hNe
  | some own =>
      rw [hFind] at hFound
      rcases List.find?_eq_some_iff_append.mp hFind with
        ⟨hMatch, before, behind, hEntries, hFirst⟩
      refine ⟨before, own, behind, hFound, hEntries, ?_⟩
      rw [hDeletes.netState]
      apply NetState.deleteConnection_entries hEntries _ hMatch
      intro y hy
      simpa using hFirst y hy

theorem TableDeletes.tableInvariant
    {x : TableEntry}
    (hDeletes : TableDeletes cfg e x e')
    (hTable : TableInvariant e)
    (hOwn : FindsOwnEntry cfg e (.destablish x.conn)) :
    TableInvariant e' := by
  rcases hDeletes.split hTable hOwn with
    ⟨before, own, behind, hConn, hEntries, hEntries'⟩
  have hPerm : e.netState.connections.Perm
      (x.conn :: e'.netState.connections) := by
    rw [NetState.connections_eq, hEntries,
      NetState.connections_eq, hEntries', List.map_append,
      List.map_append, List.map_cons, hConn]
    exact List.perm_middle.trans
      (List.Perm.cons _ (((TableEntry.fillGap_perm
        cfg.flowIdentifier own behind).symm).append_left _))
  have hNodup := List.nodup_cons.mp
    (hPerm.nodup_iff.mp hTable.nodup)
  refine ⟨⟨hNodup.2, ?_⟩, ?_⟩
  · intro c
    rw [← describe_ne_none_iff, hDeletes.describe]
    by_cases hEq : c = x.conn
    · subst hEq
      simpa using hNodup.1
    · rw [Function.update_of_ne hEq, describe_ne_none_iff,
        ← hTable.live, hPerm.mem_iff, List.mem_cons]
      simp [hEq]
  · intro c hc
    apply hTable.ne_null
    rw [hPerm.mem_iff]
    exact List.mem_cons_of_mem _ hc

/- What one call preserves. -/
theorem Calls.tableInvariant
    {call : Call P}
    (hTable : TableInvariant e)
    (hOwn : FindsOwnEntry cfg e call)
    (hCall : Calls fmt cfg e call e') :
    TableInvariant e' := by
  cases hCall.table with
  | adds hAdds => exact hAdds.tableInvariant hTable
  | deletes hDeletes =>
      exact hDeletes.tableInvariant hTable hOwn
  | same hSame => exact hSame.tableInvariant hTable

/-
  The table holds exactly the live connections after every
  run in which each destablished connection is the one that
  a lookup of its identifiers finds.
-/
theorem holdsLive_of_run
    {calls : List (Call P)}
    {fresh : NetState}
    (hConns : ∀ c, e.conns c = none)
    (hRun : Run (Guarded (FindsOwnEntry cfg) (Calls fmt cfg))
      (nbNetInit fresh e) calls e') :
    HoldsLive e' :=
  (Run.invariant
    (fun _ _ _ hTable hStep =>
      hStep.2.tableInvariant hTable hStep.1)
    (tableInvariant_netInit fresh hConns)
    hRun).toHoldsLive

end Live

------------------------------------------------------------
-- A Small Stack
------------------------------------------------------------

/- What `malloc` returned for a connection, all zero. -/
def blankConnection : Connection where
  remoteHostId := 0
  remoteAppId := 0
  localAppId := 0
  inputQueue := []
  acceptQueue := []
  lastSentSequence := 0
  lastRecvSequence := 0
  inorderBuffer := fun _ => none
  maxOooSequence := 0
  redeliveryBuffer := fun _ => none
  signalingState := .signalNa
  dstGlobalId := 0

/- What `malloc` returned for the table, all zero. -/
def blankNetState : NetState where
  numConn := 0
  activeLocalAppIds := fun _ => 0
  activeRemoteAppIds := fun _ => 0
  activeRemoteHostIds := fun _ => 0
  activeConnections := fun _ => 0
  routingTable := none

/- A received buffer that is all zero. -/
def blankBuffer : PacketBuffer where
  size := headroom + 1024
  memory := fun _ => 0
  payloadStart_le := by decide
  size_lt := by decide

/- A process as it starts. -/
def bareEndpoint : Endpoint PacketBuffer where
  timers :=
    { allocatedTimers := fun _ =>
        { callback := .reliableRedeliveryTimerCb
          argument := 0
          next := none
          prev := none
          timeout := 0 }
      timerFreeList := none
      timersHead := none }
  timeNow := 0
  myHostId := 0
  myLocalHostId := 0
  netState := blankNetState
  conns := fun _ => none
  packets := fun _ => blankBuffer
  nextPacket := 0
  out := []
  events := []

/- An initialized stack without connections. -/
def bareStack : Endpoint PacketBuffer :=
  nbNetInit blankNetState bareEndpoint

/- The options with nothing optional switched on. -/
def plainConfig
    (flow : FlowIdentifier) : Config where
  flowIdentifier := flow
  inorderStrategy := .noInorder
  reliableEnabled := false
  signalingEnabled := false
  routingEnabled := false
  checksumEnabled := false

/- A connection of app 7 to app 8 at host 9. -/
def establishOne
    (c : ConnPtr)
    (e : Endpoint PacketBuffer) :
    Except Fault (Endpoint PacketBuffer) :=
  nbEstablish netPacketFormat (plainConfig .srcDstIdentifier)
    c blankConnection 9 8 7 e

/- Establishing at addresses that are free is a call. -/
theorem calls_establishOne
    {c : ConnPtr}
    {e e' : Endpoint PacketBuffer}
    (hNe : c ≠ 0)
    (hFree : e.conns c = none)
    (hEstablish : establishOne c e = .ok e') :
    Calls netPacketFormat (plainConfig .srcDstIdentifier) e
      (.establish c blankConnection 9 8 7) e' :=
  .establish hNe hFree hEstablish

/-
  Two connections with the same identifiers: destablishing
  the second one unregisters the first.
-/
theorem not_forall_holdsLive :
    ¬ ∀ (fmt : PacketFormat PacketBuffer) cfg fresh e calls
        e',
      (∀ c, e.conns c = none) →
        Run (Calls fmt cfg) (nbNetInit fresh e) calls e' →
          HoldsLive e' := by
  intro hAll
  have hTable : (do
      let e₁ ← establishOne 1 bareStack
      let e₂ ← establishOne 2 e₁
      let e₃ ← nbDestablish
        (plainConfig .srcDstIdentifier) 2 e₂
      return ((e₁.conns 2).isNone,
        (e₃.conns 2).isNone, e₃.netState.connections)) =
      .ok (true, true, [2]) := by
    decide +kernel
  rcases bind_eq_ok_iff.mp hTable with ⟨e₁, hFirst, hRest⟩
  rcases bind_eq_ok_iff.mp hRest with ⟨e₂, hSecond, hRest⟩
  rcases bind_eq_ok_iff.mp hRest with ⟨e₃, hThird, hEnd⟩
  simp only [pure_eq_ok, Except.ok.injEq, Prod.mk.injEq,
    Option.isNone_iff_eq_none] at hEnd
  rcases hEnd with ⟨hFree, hFreed, hConns⟩
  have hHolds := hAll netPacketFormat
    (plainConfig .srcDstIdentifier) blankNetState
    bareEndpoint _ e₃ (fun _ => rfl)
    (.cons (calls_establishOne (by decide) rfl hFirst)
      (.cons (calls_establishOne (by decide) hFree hSecond)
        (.cons (.destablish hThird) (.nil e₃))))
  have hStays : (2 : ConnPtr) ∈ e₃.netState.connections := by
    simp [hConns]
  exact (hHolds.live 2).mp hStays hFreed

/- Destablishing the only connection empties the table. -/
theorem holdsLive_of_run_one :
    ∃ e₂ calls, calls ≠ [] ∧
      Run (Guarded
        (FindsOwnEntry (plainConfig .srcDstIdentifier))
        (Calls netPacketFormat
          (plainConfig .srcDstIdentifier)))
        bareStack calls e₂ ∧ HoldsLive e₂ := by
  have hTable : (do
      let e₁ ← establishOne 1 bareStack
      let e₂ ← nbDestablish
        (plainConfig .srcDstIdentifier) 1 e₁
      return decide (
        e₁.describe 1 = some (TableEntry.mk 1 7 8 9) ∧
          e₁.netState.retrieveConnection .srcDstIdentifier
            7 8 9 = 1)) =
      .ok true := by
    decide +kernel
  rcases bind_eq_ok_iff.mp hTable with ⟨e₁, hFirst, hRest⟩
  rcases bind_eq_ok_iff.mp hRest with ⟨e₂, hSecond, hEnd⟩
  simp only [pure_eq_ok, Except.ok.injEq,
    decide_eq_true_eq] at hEnd
  have hOwn : FindsOwnEntry (plainConfig .srcDstIdentifier)
      e₁ (.destablish 1) := by
    intro x hx
    cases hEnd.1.symm.trans hx
    exact hEnd.2
  have hRun : Run (Guarded
      (FindsOwnEntry (plainConfig .srcDstIdentifier))
      (Calls netPacketFormat
        (plainConfig .srcDstIdentifier)))
      bareStack [.establish 1 blankConnection 9 8 7,
        .destablish 1] e₂ :=
    .cons ⟨trivial,
        calls_establishOne (by decide) rfl hFirst⟩
      (.cons ⟨hOwn, .destablish hSecond⟩ (.nil e₂))
  exact ⟨e₂, _, List.cons_ne_nil _ _, hRun,
    holdsLive_of_run (fun _ => rfl) hRun⟩

end NetBlocks
