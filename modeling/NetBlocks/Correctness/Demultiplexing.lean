import NetBlocks.Correctness.ConnectionTable

/-
  Which connection a packet is delivered to, over whole
  runs, and what happens to a packet that no connection
  matches.

  Main declarations:
    * `Agrees` and `KeepsHosts`
    * `Demultiplexes` and `demultiplexes_of_run`
    * `latePacket_of_run`
-/

namespace NetBlocks

open TransitionSystem Except

variable {P : Type}

------------------------------------------------------------
-- Agreement
------------------------------------------------------------

/-
  The arrays agree with the connection objects, as far as
  the flow identifier looks at them.
-/
def Agrees
    (cfg : Config)
    (e : Endpoint P) : Prop :=
  ∀ x ∈ e.netState.entries, ∃ y,
    e.describe x.conn = some y ∧
      x.localAppId = y.localAppId ∧
      (cfg.flowIdentifier = .srcDstIdentifier → x = y)

/-
  A connection is destablished when it is the last of the
  table, or has the remote host of the last one.
-/
def KeepsHosts
    (cfg : Config)
    (e : Endpoint P) : Call P → Prop
| .destablish c =>
    cfg.flowIdentifier = .srcDstIdentifier →
      ∀ last x y, e.netState.connections.getLast? = some last →
        e.describe last = some y → e.describe c = some x →
          y.remoteHostId = x.remoteHostId
| _ => True

section Agreement

variable
    {fmt : PacketFormat P}
    {cfg : Config}
    {e e' : Endpoint P}

theorem agrees_netInit
    (fresh : NetState) :
    Agrees cfg (nbNetInit fresh e) := by
  intro x hx
  cases hx

theorem SameTable.agrees
    (hSame : SameTable e e')
    (hAgrees : Agrees cfg e) :
    Agrees cfg e' := by
  intro x hx
  rw [hSame.netState] at hx
  rw [hSame.describe]
  exact hAgrees x hx

theorem TableAdds.agrees
    {x : TableEntry}
    (hAdds : TableAdds e x e')
    (hAgrees : Agrees cfg e) :
    Agrees cfg e' := by
  intro y hy
  rw [hAdds.entries, List.mem_append, List.mem_singleton]
    at hy
  rw [hAdds.describe]
  rcases hy with hOld | rfl
  · rcases hAgrees y hOld with ⟨z, hDescribe, hSame⟩
    have hNe : y.conn ≠ x.conn := by
      intro hEq
      rw [hEq, hAdds.fresh.2] at hDescribe
      cases hDescribe
    rw [Function.update_of_ne hNe]
    exact ⟨z, hDescribe, hSame⟩
  · exact ⟨y, Function.update_self _ _ _, rfl, fun _ => rfl⟩

/- The entry moved into the gap still agrees. -/
theorem replacedBy_agrees
    {own last y : TableEntry}
    (hAgree : last.localAppId = y.localAppId ∧
      (cfg.flowIdentifier = .srcDstIdentifier → last = y))
    (hHost : cfg.flowIdentifier = .srcDstIdentifier →
      y.remoteHostId = own.remoteHostId) :
    let moved := TableEntry.replacedBy cfg.flowIdentifier
      last own
    moved.localAppId = y.localAppId ∧
      (cfg.flowIdentifier = .srcDstIdentifier →
        moved = y) := by
  refine ⟨?_, ?_⟩
  · rw [TableEntry.replacedBy_localAppId]
    exact hAgree.1
  · intro hFlow
    cases hAgree.2 hFlow
    simp [TableEntry.replacedBy, hFlow, ← hHost hFlow]

theorem TableDeletes.agrees
    {x : TableEntry}
    (hDeletes : TableDeletes cfg e x e')
    (hTable : TableInvariant e)
    (hOwn : FindsOwnEntry cfg e (.destablish x.conn))
    (hHosts : KeepsHosts cfg e (.destablish x.conn))
    (hAgrees : Agrees cfg e) :
    Agrees cfg e' := by
  rcases hDeletes.split hTable hOwn with
    ⟨before, own, behind, hConn, hEntries, hEntries'⟩
  have hNodup := hTable.nodup
  rw [NetState.connections_eq, hEntries, List.map_append,
    List.map_cons, List.perm_middle.nodup_iff,
    List.nodup_cons, ← List.map_append, hConn] at hNodup
  -- an entry of another connection keeps its description
  have hKept : ∀ z w, z ∈ before ++ behind → w.conn = z.conn →
      (∀ y, e.describe z.conn = some y →
        z.localAppId = y.localAppId ∧
        (cfg.flowIdentifier = .srcDstIdentifier → z = y) →
          w.localAppId = y.localAppId ∧
          (cfg.flowIdentifier = .srcDstIdentifier → w = y)) →
        ∃ y, e'.describe w.conn = some y ∧
          w.localAppId = y.localAppId ∧
          (cfg.flowIdentifier = .srcDstIdentifier → w = y) := by
    intro z w hz hw hSame
    have hMem : z ∈ e.netState.entries := by
      rw [hEntries]
      rcases List.mem_append.mp hz with hz | hz <;> simp [hz]
    have hNe : z.conn ≠ x.conn := by
      intro hEq
      exact hNodup.1 (hEq ▸ List.mem_map_of_mem hz)
    rcases hAgrees z hMem with ⟨y, hDescribe, hAgree⟩
    refine ⟨y, ?_, hSame y hDescribe hAgree⟩
    rw [hw, hDeletes.describe, Function.update_of_ne hNe]
    exact hDescribe
  intro w hw
  rw [hEntries', List.mem_append] at hw
  rcases hw with hw | hw
  · exact hKept w w (List.mem_append_left _ hw) rfl
      (fun _ _ hAgree => hAgree)
  · rcases behind.eq_nil_or_concat' with
      rfl | ⟨between, last, rfl⟩
    · cases hw
    · rw [TableEntry.fillGap_concat, List.mem_cons] at hw
      rcases hw with rfl | hw
      · apply hKept last _ (by simp) (by simp)
        intro y hDescribe hAgree
        apply replacedBy_agrees hAgree
        intro hFlow
        have hLast : e.netState.connections.getLast? =
            some last.conn := by
          have hConcat : before ++ own :: (between ++ [last]) =
              (before ++ own :: between) ++ [last] := by simp
          rw [NetState.connections_eq, hEntries, hConcat,
            List.map_append, List.map_singleton,
            List.getLast?_concat]
        rw [hHosts hFlow last.conn x y hLast hDescribe
          hDeletes.live]
        rcases hAgrees own (by simp [hEntries]) with
          ⟨z, hz, -, hOwnSame⟩
        rw [hConn, hDeletes.live] at hz
        cases hz
        rw [hOwnSame hFlow]
      · exact hKept w w (by simp [hw]) rfl
          (fun _ _ hAgree => hAgree)

/- What one call preserves. -/
theorem Calls.agrees
    {call : Call P}
    (hTable : TableInvariant e)
    (hAgrees : Agrees cfg e)
    (hOwn : FindsOwnEntry cfg e call)
    (hHosts : KeepsHosts cfg e call)
    (hCall : Calls fmt cfg e call e') :
    Agrees cfg e' := by
  cases hCall.table with
  | adds hAdds => exact hAdds.agrees hAgrees
  | deletes hDeletes =>
      exact hDeletes.agrees hTable hOwn hHosts hAgrees
  | same hSame => exact hSame.agrees hAgrees

end Agreement

------------------------------------------------------------
-- Unique Triples
------------------------------------------------------------

/- The three identifiers of a connection. -/
def TableEntry.SameTriple
    (x y : TableEntry) : Prop :=
  x.localAppId = y.localAppId ∧
    x.remoteAppId = y.remoteAppId ∧
    x.remoteHostId = y.remoteHostId

/- No two live connections share their identifiers. -/
def UniqueTriples
    (e : Endpoint P) : Prop :=
  ∀ c d x y, e.describe c = some x → e.describe d = some y →
    x.SameTriple y → c = d

/- A new connection shares no live one's identifiers. -/
def NewTriple
    (e : Endpoint P) : Call P → Prop
| .establish c _ h a sa =>
    ∀ d y, e.describe d = some y →
      ¬ (⟨c, sa, a, e.hostLocalId h⟩ : TableEntry
        ).SameTriple y
| _ => True

section Unique

variable
    {fmt : PacketFormat P}
    {cfg : Config}
    {e e' : Endpoint P}

theorem Calls.uniqueTriples
    {call : Call P}
    (hUnique : UniqueTriples e)
    (hNew : NewTriple e call)
    (hCall : Calls fmt cfg e call e') :
    UniqueTriples e' := by
  cases hCall.table with
  | @adds _ c fresh h a sa hAdds =>
      intro d d' x y hx hy hSame
      rw [hAdds.describe] at hx hy
      by_cases hD : d = c <;> by_cases hD' : d' = c
      · rw [hD, hD']
      · rw [hD, Function.update_self] at hx
        rw [Function.update_of_ne hD'] at hy
        cases hx
        exact absurd hSame (hNew d' y hy)
      · rw [Function.update_of_ne hD] at hx
        rw [hD', Function.update_self] at hy
        cases hy
        exact absurd ⟨hSame.1.symm, hSame.2.1.symm,
          hSame.2.2.symm⟩ (hNew d x hx)
      · rw [Function.update_of_ne hD] at hx
        rw [Function.update_of_ne hD'] at hy
        exact hUnique d d' x y hx hy hSame
  | @deletes _ z hDeletes =>
      intro d d' x y hx hy hSame
      rw [hDeletes.describe] at hx hy
      by_cases hD : d = z.conn
      · rw [hD, Function.update_self] at hx
        cases hx
      · by_cases hD' : d' = z.conn
        · rw [hD', Function.update_self] at hy
          cases hy
        · rw [Function.update_of_ne hD] at hx
          rw [Function.update_of_ne hD'] at hy
          exact hUnique d d' x y hx hy hSame
  | same hSame =>
      intro d d' x y hx hy
      rw [hSame.describe] at hx hy
      exact hUnique d d' x y hx hy

variable
    (hFlow : cfg.flowIdentifier = .srcDstIdentifier)
    (hTable : TableInvariant e)
    (hAgrees : Agrees cfg e)

include hFlow hAgrees

/- Entries are what their connections describe. -/
theorem describe_of_mem
    {x : TableEntry}
    (hMem : x ∈ e.netState.entries) :
    e.describe x.conn = some x := by
  rcases hAgrees x hMem with ⟨y, hDescribe, -, hSame⟩
  rw [hDescribe, hSame hFlow]

include hTable

/- Live connections have the entry they describe. -/
theorem mem_of_describe
    {c : ConnPtr}
    {x : TableEntry}
    (hDescribe : e.describe c = some x) :
    x ∈ e.netState.entries := by
  have hMem : c ∈ e.netState.connections := by
    rw [hTable.live, ← describe_ne_none_iff, hDescribe]
    simp
  rw [NetState.connections_eq] at hMem
  rcases List.mem_map.mp hMem with ⟨y, hy, rfl⟩
  have hSame := describe_of_mem hFlow hAgrees hy
  cases hSame.symm.trans hDescribe
  exact hy

/-
  A lookup finds a live connection that satisfies it, or
  none does.
-/
theorem lookup_cases
    (found : TableEntry → Bool) :
    let c := ((e.netState.entries.find? found).map
      TableEntry.conn).getD 0
    (c ≠ 0 ∧ ∃ x, e.describe c = some x ∧ found x = true) ∨
      (c = 0 ∧ ∀ d x, e.describe d = some x →
        found x = false) := by
  cases hFind : e.netState.entries.find? found with
  | none =>
      right
      refine ⟨rfl, ?_⟩
      intro d x hx
      have hNone := List.find?_eq_none.mp hFind x
        (mem_of_describe hFlow hTable hAgrees hx)
      simpa using hNone
  | some x =>
      left
      have hMem := List.mem_of_find?_eq_some hFind
      refine ⟨?_, x, describe_of_mem hFlow hAgrees hMem,
        List.find?_some hFind⟩
      apply hTable.ne_null
      rw [NetState.connections_eq]
      exact List.mem_map_of_mem hMem

/- With unique identifiers, a connection finds itself. -/
theorem findsOwnEntry_of_unique
    (hUnique : UniqueTriples e)
    (call : Call P) :
    FindsOwnEntry cfg e call := by
  cases call with
  | destablish c =>
      intro x hx
      rw [NetState.retrieveConnection_eq]
      rcases lookup_cases hFlow hTable hAgrees
          (TableEntry.matchesFlow cfg.flowIdentifier
            x.localAppId x.remoteAppId x.remoteHostId) with
        ⟨-, y, hy, hMatch⟩ | ⟨-, hNone⟩
      · rw [hFlow, TableEntry.matchesFlow_srcDst_iff]
          at hMatch
        rw [hFlow] at hy ⊢
        exact hUnique _ c y x hy hx hMatch
      · have hSelf := hNone c x hx
        rw [hFlow] at hSelf
        simp [TableEntry.matchesFlow] at hSelf
  | _ => trivial

end Unique

------------------------------------------------------------
-- Exact Demultiplexing
------------------------------------------------------------

/-
  Lookups return the live connection with the identifiers,
  by the members of the connection object, and null when
  there is none.
-/
structure Demultiplexes
    (e : Endpoint P) : Prop where
  found : ∀ c x, e.describe c = some x →
    e.netState.retrieveConnection .srcDstIdentifier
      x.localAppId x.remoteAppId x.remoteHostId = c
  missing : ∀ dstAppId srcAppId srcHostId,
    (∀ c x, e.describe c = some x →
      ¬ (x.localAppId = dstAppId ∧
        x.remoteAppId = srcAppId ∧
        x.remoteHostId = srcHostId)) →
    e.netState.retrieveConnection .srcDstIdentifier
      dstAppId srcAppId srcHostId = 0
  wildcardFound : ∀ dstAppId c x, e.describe c = some x →
    x.localAppId = dstAppId → x.remoteAppId = 0 →
      x.remoteHostId = 0 →
        e.netState.retrieveWildcardConnection dstAppId ≠ 0
  wildcardLive : ∀ dstAppId,
    e.netState.retrieveWildcardConnection dstAppId ≠ 0 →
      ∃ x, e.describe
          (e.netState.retrieveWildcardConnection dstAppId) =
            some x ∧
        x.localAppId = dstAppId ∧ x.remoteAppId = 0 ∧
          x.remoteHostId = 0

section Demultiplexing

variable
    {fmt : PacketFormat P}
    {cfg : Config}
    {e e' : Endpoint P}

/- The invariant that makes lookups exact. -/
structure LookupInvariant
    (cfg : Config)
    (e : Endpoint P) : Prop where
  table : TableInvariant e
  agrees : Agrees cfg e
  unique : UniqueTriples e

theorem LookupInvariant.demultiplexes
    (hFlow : cfg.flowIdentifier = .srcDstIdentifier)
    (hLookup : LookupInvariant cfg e) :
    Demultiplexes e := by
  rcases hLookup with ⟨hTable, hAgrees, hUnique⟩
  have hCases := lookup_cases hFlow hTable hAgrees
  refine ⟨?_, ?_, ?_, ?_⟩
  · intro c x hx
    have hFound := findsOwnEntry_of_unique hFlow hTable
      hAgrees hUnique (.destablish c) x hx
    rwa [hFlow] at hFound
  · intro dstAppId srcAppId srcHostId hNone
    rw [NetState.retrieveConnection_eq]
    rcases hCases (TableEntry.matchesFlow .srcDstIdentifier
        dstAppId srcAppId srcHostId) with
      ⟨-, x, hx, hMatch⟩ | ⟨hNull, -⟩
    · exact absurd
        (TableEntry.matchesFlow_srcDst_iff.mp hMatch)
        (hNone _ x hx)
    · exact hNull
  · intro dstAppId c x hx hLocal hRemote hHost
    rw [NetState.retrieveWildcardConnection_eq]
    rcases hCases (TableEntry.matchesWildcard dstAppId) with
      ⟨hNe, -⟩ | ⟨-, hNone⟩
    · exact hNe
    · have hMatch := TableEntry.matchesWildcard_iff.mpr
        ⟨hLocal, hRemote, hHost⟩
      rw [hNone c x hx] at hMatch
      cases hMatch
  · intro dstAppId hNe
    rw [NetState.retrieveWildcardConnection_eq] at hNe ⊢
    rcases hCases (TableEntry.matchesWildcard dstAppId) with
      ⟨-, x, hx, hMatch⟩ | ⟨hNull, -⟩
    · exact ⟨x, hx,
        TableEntry.matchesWildcard_iff.mp hMatch⟩
    · exact absurd hNull hNe

/- What one call preserves. -/
theorem Calls.lookupInvariant
    {call : Call P}
    (hFlow : cfg.flowIdentifier = .srcDstIdentifier)
    (hLookup : LookupInvariant cfg e)
    (hNew : NewTriple e call)
    (hHosts : KeepsHosts cfg e call)
    (hCall : Calls fmt cfg e call e') :
    LookupInvariant cfg e' := by
  rcases hLookup with ⟨hTable, hAgrees, hUnique⟩
  have hOwn := findsOwnEntry_of_unique hFlow hTable hAgrees
    hUnique call
  exact ⟨hCall.tableInvariant hTable hOwn,
    hCall.agrees hTable hAgrees hOwn hHosts,
    hCall.uniqueTriples hUnique hNew⟩

/-
  Demultiplexing is exact after every run in which each
  destablished connection is the last of the table or has
  the remote host of the last one.
-/
theorem demultiplexes_of_run
    {calls : List (Call P)}
    {fresh : NetState}
    (hFlow : cfg.flowIdentifier = .srcDstIdentifier)
    (hConns : ∀ c, e.conns c = none)
    (hRun : Run (Guarded
      (fun e call => NewTriple e call ∧ KeepsHosts cfg e call)
      (Calls fmt cfg)) (nbNetInit fresh e) calls e') :
    Demultiplexes e' := by
  have hUnique : UniqueTriples (nbNetInit fresh e) := by
    intro c d x y hx
    have hNone : (nbNetInit fresh e).describe c = none :=
      congrArg (Option.map (Connection.tableEntry c)) (hConns c)
    rw [hNone] at hx
    cases hx
  have hLookup : LookupInvariant cfg e' :=
    Run.invariant
      (fun _ _ _ hLookup hStep =>
        hStep.2.lookupInvariant hFlow hLookup hStep.1.1
          hStep.1.2)
      ⟨tableInvariant_netInit fresh hConns,
        agrees_netInit fresh, hUnique⟩ hRun
  exact hLookup.demultiplexes hFlow

end Demultiplexing

/-
  Two connections to different hosts: once the first one is
  destablished, the second one is not found any more.
-/
theorem not_forall_demultiplexes :
    ¬ ∀ (fmt : PacketFormat PacketBuffer) cfg fresh e calls
        e',
      cfg.flowIdentifier = .srcDstIdentifier →
        (∀ c, e.conns c = none) →
          Run (Guarded NewTriple (Calls fmt cfg))
            (nbNetInit fresh e) calls e' →
              Demultiplexes e' := by
  intro hAll
  let cfg := plainConfig .srcDstIdentifier
  have hTable : (do
      let e₁ ← establishOne 1 bareStack
      let e₂ ← nbEstablish netPacketFormat cfg 2
        blankConnection 2 2 2 e₁
      let e₃ ← nbDestablish cfg 1 e₂
      return decide ((e₁.conns 2).isNone ∧
        e₁.describe 2 = none ∧ e₁.hostLocalId 2 = 2 ∧
        e₃.describe 2 = some (TableEntry.mk 2 2 2 2) ∧
        e₃.netState.retrieveConnection .srcDstIdentifier
          2 2 2 = 0)) =
      .ok true := by
    decide +kernel
  rcases bind_eq_ok_iff.mp hTable with ⟨e₁, hFirst, hRest⟩
  rcases bind_eq_ok_iff.mp hRest with ⟨e₂, hSecond, hRest⟩
  rcases bind_eq_ok_iff.mp hRest with ⟨e₃, hThird, hEnd⟩
  simp only [pure_eq_ok, Except.ok.injEq, decide_eq_true_eq,
    Option.isNone_iff_eq_none] at hEnd
  rcases hEnd with ⟨hFree, -, hHost, hLive, hMissed⟩
  have hFirstCall :=
    calls_establishOne (by decide) rfl hFirst
  have hNewFirst : NewTriple bareStack
      (.establish 1 blankConnection 9 8 7) := by
    intro d y hy
    cases hy
  have hNewSecond : NewTriple e₁
      (.establish 2 blankConnection 2 2 2) := by
    intro d y hy hSame
    have hAdds := nbEstablish_table (by decide) rfl hFirst
    rw [hAdds.describe] at hy
    by_cases hD : d = 1
    · rw [hD, Function.update_self] at hy
      cases hy
      have hLocal : (2 : BitVec 32) = 7 := hSame.1
      exact absurd hLocal (by decide)
    · rw [Function.update_of_ne hD] at hy
      cases hy
  have hRun : Run (Guarded NewTriple
      (Calls netPacketFormat cfg)) bareStack
      [.establish 1 blankConnection 9 8 7,
        .establish 2 blankConnection 2 2 2,
        .destablish 1] e₃ :=
    .cons ⟨hNewFirst, hFirstCall⟩
      (.cons ⟨hNewSecond,
          .establish (by decide) hFree hSecond⟩
        (.cons ⟨trivial, .destablish hThird⟩ (.nil e₃)))
  have hHolds := hAll netPacketFormat cfg blankNetState
    bareEndpoint _ e₃ rfl (fun _ => rfl) hRun
  have hFound := hHolds.found 2 _ hLive
  rw [hMissed] at hFound
  exact absurd hFound (by decide)

/- The only connection can always be destablished. -/
theorem demultiplexes_of_run_one :
    ∃ e₂ calls, calls ≠ [] ∧
      Run (Guarded
        (fun e call => NewTriple e call ∧
          KeepsHosts (plainConfig .srcDstIdentifier) e call)
        (Calls netPacketFormat
          (plainConfig .srcDstIdentifier)))
        bareStack calls e₂ ∧ Demultiplexes e₂ := by
  have hTable : (do
      let e₁ ← establishOne 1 bareStack
      let e₂ ← nbDestablish
        (plainConfig .srcDstIdentifier) 1 e₁
      return (e₁.netState.connections, e₂.conns 1).1) =
      .ok [1] := by
    decide +kernel
  rcases bind_eq_ok_iff.mp hTable with ⟨e₁, hFirst, hRest⟩
  rcases bind_eq_ok_iff.mp hRest with ⟨e₂, hSecond, hEnd⟩
  simp only [pure_eq_ok, Except.ok.injEq] at hEnd
  have hNew : NewTriple bareStack
      (.establish 1 blankConnection 9 8 7) := by
    intro d y hy
    cases hy
  have hHosts : KeepsHosts (plainConfig .srcDstIdentifier) e₁
      (.destablish 1) := by
    intro _ last x y hLast hy hx
    rw [hEnd] at hLast
    cases hLast
    cases hx.symm.trans hy
    rfl
  have hRun : Run (Guarded
      (fun e call => NewTriple e call ∧
        KeepsHosts (plainConfig .srcDstIdentifier) e call)
      (Calls netPacketFormat
        (plainConfig .srcDstIdentifier)))
      bareStack [.establish 1 blankConnection 9 8 7,
        .destablish 1] e₂ :=
    .cons ⟨⟨hNew, trivial⟩,
        calls_establishOne (by decide) rfl hFirst⟩
      (.cons ⟨⟨trivial, hHosts⟩, .destablish hSecond⟩
        (.nil e₂))
  exact ⟨e₂, _, List.cons_ne_nil _ _, hRun,
    demultiplexes_of_run rfl (fun _ => rfl) hRun⟩

------------------------------------------------------------
-- Packets That No Connection Matches
------------------------------------------------------------

/- No live connection or listener is for a packet. -/
def Unmatched
    (fmt : PacketFormat P)
    (cfg : Config)
    (e : Endpoint P)
    (y : P) : Prop :=
  ∀ c x, e.describe c = some x →
    x.matchesFlow cfg.flowIdentifier
        (fmt.getWord .dstAppId y) (fmt.getWord .srcAppId y)
        (fmt.getInteger .srcHostId y) = false ∧
      (cfg.flowIdentifier = .srcDstIdentifier →
        x.matchesWildcard (fmt.getWord .dstAppId y) = false)

/-
  The table, the connections with their queues, the timers,
  and what was sent and signaled are as they were.
-/
structure Untouched
    (e e' : Endpoint P) : Prop where
  netState : e'.netState = e.netState
  conns : e'.conns = e.conns
  timers : e'.timers = e.timers
  out : e'.out = e.out
  events : e'.events = e.events

/- The first match of a lookup is a live connection. -/
theorem getD_find?_eq_zero
    {e : Endpoint P}
    {found : TableEntry → Bool}
    (hNone : ∀ x ∈ e.netState.entries, found x = false) :
    ((e.netState.entries.find? found).map
      TableEntry.conn).getD 0 = 0 := by
  have hFind : e.netState.entries.find? found = none := by
    rw [List.find?_eq_none]
    intro x hx
    simp [hNone x hx]
  rw [hFind]
  rfl

section Late

variable
    {fmt : PacketFormat P}
    {cfg : Config}
    {e e' : Endpoint P}
    {y : P}
    (hAgrees : Agrees cfg e)
    (hUnmatched : Unmatched fmt cfg e y)

include hAgrees hUnmatched

/- The table has no connection for the packet. -/
theorem lookup_eq_zero :
    lookup fmt cfg e y = 0 := by
  rw [lookup, NetState.retrieveConnection_eq]
  apply getD_find?_eq_zero
  intro x hx
  rcases hAgrees x hx with ⟨z, hDescribe, hLocal, hSame⟩
  have hNone := (hUnmatched _ z hDescribe).1
  cases hFlow : cfg.flowIdentifier with
  | srcDstIdentifier =>
      rw [hSame hFlow, ← hFlow]
      exact hNone
  | dstIdentifiersOnly =>
      rw [hFlow] at hNone
      simp only [TableEntry.matchesFlow] at hNone ⊢
      rw [hLocal]
      exact hNone

/- Nor does it have a listener for it. -/
theorem retrieveWildcard_eq_zero
    (hFlow : cfg.flowIdentifier = .srcDstIdentifier) :
    e.netState.retrieveWildcardConnection
      (fmt.getWord .dstAppId y) = 0 := by
  rw [NetState.retrieveWildcardConnection_eq]
  apply getD_find?_eq_zero
  intro x hx
  rcases hAgrees x hx with ⟨z, hDescribe, -, hSame⟩
  rw [hSame hFlow]
  exact (hUnmatched _ z hDescribe).2 hFlow

/-
  A packet that no connection matches is dropped, unless it
  reaches the lookup of source and destination identifiers.
  That lookup aborts.
-/
theorem ingress_of_unmatched
    {x : P}
    {passes : Bool}
    (len : Int)
    (hCheck : checkPacket fmt cfg x = .ok (y, passes)) :
    ((passes = false ∨
        fmt.getInteger .dstHostId y ≠ e.myLocalHostId ∨
        cfg.flowIdentifier = .dstIdentifiersOnly) →
      ∃ e', ingress fmt cfg x len e = .ok e' ∧
        Untouched e e') ∧
    (passes = true →
      fmt.getInteger .dstHostId y = e.myLocalHostId →
      cfg.flowIdentifier = .srcDstIdentifier →
        ingress fmt cfg x len e =
          .error (.assertion
            "Failed to lookup connection")) := by
  have hLookup := lookup_eq_zero hAgrees hUnmatched
  have hPacket :
      checkPacket fmt cfg
        ((e.polled x).packets e.nextPacket) =
          .ok (y, passes) := by
    rw [polled_packets_self, hCheck]
  constructor
  · intro hDropped
    refine ⟨(e.polled x).setPacket e.nextPacket y, ?_,
      rfl, rfl, rfl, rfl, rfl⟩
    apply ingress_iff.mpr
    apply IngressResult.dropped
    cases passes with
    | false => exact .rejected hPacket
    | true =>
        apply FrontResult.unclaimed hPacket
        rcases hDropped with hFalse | hHost | hFlow
        · cases hFalse
        · exact Or.inl hHost
        · exact Or.inr ⟨hLookup, hFlow⟩
  · rintro rfl hHost hFlow
    have hWildcard := retrieveWildcard_eq_zero hAgrees
      hUnmatched hFlow
    have hPolledHost : fmt.getInteger .dstHostId y =
        (e.polled x).myLocalHostId := hHost
    change runIngressPath fmt cfg e.nextPacket (e.polled x) = _
    unfold runIngressPath
    rw [registeredModules_reverse, runHooks_append,
      runFront_eq, hPacket]
    simp only [ok_bind, if_true]
    rw [identifier_hookIngress_eq,
      if_neg (not_not.mpr hPolledHost), polled_lookup,
      if_neg (not_not.mpr hLookup), hFlow]
    change (IdentifierModule.ingressWildcard _ _ _
      e.nextPacket ((e.polled x).setPacket e.nextPacket y)
        >>= _) >>= _ = _
    unfold IdentifierModule.ingressWildcard
    have hNull :
        ((e.polled x).setPacket e.nextPacket y
          ).netState.retrieveWildcardConnection
            (fmt.getWord .dstAppId y) = 0 := hWildcard
    rw [if_neg (not_not.mpr hNull)]
    rfl

omit hAgrees hUnmatched

/-
  Late packets after teardown, over whole runs in which each
  connection that is destablished finds its own entry and
  keeps the hosts of the table.
-/
theorem latePacket_of_run
    {calls : List (Call P)}
    {fresh : NetState}
    {x : P}
    {passes : Bool}
    (len : Int)
    (hConns : ∀ c, e.conns c = none)
    (hRun : Run (Guarded
      (fun e call => FindsOwnEntry cfg e call ∧
        KeepsHosts cfg e call)
      (Calls fmt cfg)) (nbNetInit fresh e) calls e')
    (hCheck : checkPacket fmt cfg x = .ok (y, passes))
    (hUnmatched : Unmatched fmt cfg e' y) :
    ((passes = false ∨
        fmt.getInteger .dstHostId y ≠ e'.myLocalHostId ∨
        cfg.flowIdentifier = .dstIdentifiersOnly) →
      ∃ e'', ingress fmt cfg x len e' = .ok e'' ∧
        Untouched e' e'') ∧
    (passes = true →
      fmt.getInteger .dstHostId y = e'.myLocalHostId →
      cfg.flowIdentifier = .srcDstIdentifier →
        ingress fmt cfg x len e' =
          .error (.assertion
            "Failed to lookup connection")) := by
  have hStep : ∀ (e₁ : Endpoint P) call e₂,
      TableInvariant e₁ ∧ Agrees cfg e₁ →
      Guarded
        (fun e call => FindsOwnEntry cfg e call ∧
          KeepsHosts cfg e call)
        (Calls fmt cfg) e₁ call e₂ →
      TableInvariant e₂ ∧ Agrees cfg e₂ := by
    rintro e₁ call e₂ ⟨hTable, hAgrees⟩ ⟨hGuard, hCall⟩
    exact ⟨hCall.tableInvariant hTable hGuard.1,
      hCall.agrees hTable hAgrees hGuard.1 hGuard.2⟩
  have hInvariant := hRun.invariant hStep
    ⟨tableInvariant_netInit fresh hConns,
      agrees_netInit fresh⟩
  exact ingress_of_unmatched hInvariant.2 hUnmatched len
    hCheck

end Late

/- A packet of the flow of `establishOne`, with no payload. -/
def latePacket : PacketBuffer :=
  (((blankBuffer.setInteger .totalLen 38).setInteger
    .dstAppId 7).setInteger .srcAppId 8).setInteger
    .srcHostId 9

/- Once its connection is gone, the packet is unmatched. -/
theorem unmatched_of_describe
    {fmt : PacketFormat P}
    {cfg : Config}
    {e : Endpoint P}
    (hNone : ∀ c, e.describe c = none)
    (y : P) :
    Unmatched fmt cfg e y := by
  intro c x hx
  rw [hNone c] at hx
  cases hx

/- Establishing one connection and tearing it down. -/
theorem describe_of_one
    {flow : FlowIdentifier}
    {e₁ e₂ : Endpoint PacketBuffer}
    (hFirst : nbEstablish netPacketFormat (plainConfig flow)
      1 blankConnection 9 8 7 bareStack = .ok e₁)
    (hSecond : nbDestablish (plainConfig flow) 1 e₁ = .ok e₂)
    (c : ConnPtr) :
    e₂.describe c = none := by
  have hAdds := nbEstablish_table (by decide) rfl hFirst
  rcases nbDestablish_table hSecond with ⟨x, hConn, hDeletes⟩
  rw [hDeletes.describe, hAdds.describe, hConn]
  by_cases hEq : c = 1
  · rw [hEq, Function.update_self]
  · rw [Function.update_of_ne hEq, Function.update_of_ne hEq]
    rfl

/- With source and destination identifiers, it aborts. -/
theorem not_forall_latePacket_dropped :
    ¬ ∀ (fmt : PacketFormat PacketBuffer) cfg fresh e calls
        e' x y len,
      (∀ c, e.conns c = none) →
        Run (Calls fmt cfg) (nbNetInit fresh e) calls e' →
          checkPacket fmt cfg x = .ok (y, true) →
            Unmatched fmt cfg e' y →
              ∃ e'', ingress fmt cfg x len e' = .ok e'' ∧
                Untouched e' e'' := by
  intro hAll
  let cfg := plainConfig .srcDstIdentifier
  have hTable : (do
      let e₁ ← nbEstablish netPacketFormat cfg 1
        blankConnection 9 8 7 bareStack
      let e₂ ← nbDestablish cfg 1 e₁
      return (ingress netPacketFormat cfg latePacket 38
        e₂).toOption.isNone) = .ok true := by
    decide +kernel
  rcases bind_eq_ok_iff.mp hTable with ⟨e₁, hFirst, hRest⟩
  rcases bind_eq_ok_iff.mp hRest with ⟨e₂, hSecond, hEnd⟩
  simp only [pure_eq_ok, Except.ok.injEq] at hEnd
  have hRun : Run (Calls netPacketFormat cfg) bareStack
      [.establish 1 blankConnection 9 8 7, .destablish 1]
      e₂ :=
    .cons (.establish (by decide) rfl hFirst)
      (.cons (.destablish hSecond) (.nil e₂))
  rcases hAll netPacketFormat cfg blankNetState bareEndpoint
      _ e₂ latePacket _ 38 (fun _ => rfl) hRun rfl
      (unmatched_of_describe
        (describe_of_one hFirst hSecond) _) with
    ⟨e₃, hReturns, -⟩
  rw [hReturns] at hEnd
  cases hEnd

/- With destination identifiers only, it is dropped. -/
theorem latePacket_of_run_one :
    ∃ (e₂ e₃ : Endpoint PacketBuffer),
      ingress netPacketFormat
          (plainConfig .dstIdentifiersOnly) latePacket 38
          e₂ = .ok e₃ ∧
        Untouched e₂ e₃ := by
  let cfg := plainConfig .dstIdentifiersOnly
  have hTable : (do
      let e₁ ← nbEstablish netPacketFormat cfg 1
        blankConnection 9 8 7 bareStack
      let e₂ ← nbDestablish cfg 1 e₁
      return decide (
        e₁.describe 1 = some (TableEntry.mk 1 7 8 9) ∧
          e₁.netState.retrieveConnection .dstIdentifiersOnly
            7 8 9 = 1)) = .ok true := by
    decide +kernel
  rcases bind_eq_ok_iff.mp hTable with ⟨e₁, hFirst, hRest⟩
  rcases bind_eq_ok_iff.mp hRest with ⟨e₂, hSecond, hEnd⟩
  simp only [pure_eq_ok, Except.ok.injEq,
    decide_eq_true_eq] at hEnd
  have hOwn : FindsOwnEntry cfg e₁ (.destablish 1) := by
    intro x hx
    cases hEnd.1.symm.trans hx
    exact hEnd.2
  have hHosts : KeepsHosts cfg e₁ (.destablish 1) := by
    intro hFlow
    cases hFlow
  have hRun : Run (Guarded
      (fun e call => FindsOwnEntry cfg e call ∧
        KeepsHosts cfg e call)
      (Calls netPacketFormat cfg)) bareStack
      [.establish 1 blankConnection 9 8 7, .destablish 1]
      e₂ :=
    .cons ⟨⟨trivial, trivial⟩,
        .establish (by decide) rfl hFirst⟩
      (.cons ⟨⟨hOwn, hHosts⟩, .destablish hSecond⟩
        (.nil e₂))
  have hLate := latePacket_of_run 38 (fun _ => rfl) hRun
    (show checkPacket netPacketFormat cfg latePacket = _
      from rfl)
    (unmatched_of_describe
      (describe_of_one hFirst hSecond) _)
  rcases hLate.1 (Or.inr (Or.inr rfl)) with
    ⟨e₃, hReturns, hUntouched⟩
  exact ⟨e₂, e₃, hReturns, hUntouched⟩

end NetBlocks
