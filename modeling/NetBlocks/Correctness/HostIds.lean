import NetBlocks.Correctness.Addressing
import NetBlocks.Correctness.QueuedEntries

/-
  The ids of remote hosts. A routing table lists a local id
  for a global one, and connections hold local ids.

  Main declarations:
    * `IdsApart` and `localIdOf`
    * `lookupEntries_eq_localIdOf_iff`
    * `HoldsSender`
    * `hostIds_iff_of_run`
-/

namespace NetBlocks

open Except TransitionSystem

variable {P : Type}

------------------------------------------------------------
-- Routing Tables
------------------------------------------------------------

/- No id is listed twice, nor as an id of both kinds. -/
structure IdsApart
    (table : List RoutingTableEntry) : Prop where
  globals : (table.map RoutingTableEntry.globalId).Nodup
  locals : (table.map RoutingTableEntry.localId).Nodup
  apart : ∀ x ∈ table, ∀ y ∈ table,
    x.localId ≠ y.globalId.setWidth 64

/-
  The local id of the host with a global id: the one listed
  for it, or that id itself.
-/
def localIdOf
    (table : List RoutingTableEntry)
    (globalId : BitVec 32) : BitVec 64 :=
  match table.find? (fun x => x.globalId = globalId) with
  | some x => x.localId
  | none => globalId.setWidth 64

/- The id is in neither column of the table. -/
def Unlisted
    (table : List RoutingTableEntry)
    (globalId : BitVec 32) : Prop :=
  ∀ x ∈ table, x.globalId ≠ globalId ∧
    x.localId ≠ globalId.setWidth 64

/-
  An `unsigned int` holds the local id of a host, and the
  table does not list it.
-/
def PassesLookup
    (table : List RoutingTableEntry)
    (localId : BitVec 64) : Prop :=
  localId.toNat < 2 ^ 32 ∧ ∀ x ∈ table, x.localId ≠ localId

instance
    (table : List RoutingTableEntry)
    (globalId : BitVec 32) :
    Decidable (Unlisted table globalId) := by
  unfold Unlisted
  infer_instance

section Tables

variable
    {table : List RoutingTableEntry}
    {h : BitVec 32}
    {w : BitVec 64}

theorem routingTableLookup_eq
    (h : BitVec 32)
    (table : Option (List RoutingTableEntry)) :
    routingTableLookupFromGlobal h table =
      lookupEntries h (table.getD []) := by
  cases table <;> rfl

/- The search is in the column of local ids. -/
theorem lookupEntries_cases
    (h : BitVec 32)
    (table : List RoutingTableEntry) :
    (∀ x ∈ table, x.localId ≠ h.setWidth 64) ∧
        lookupEntries h table = h.setWidth 64 ∨
      ∃ x ∈ table, x.localId = h.setWidth 64 ∧
        lookupEntries h table = x.globalId.setWidth 64 := by
  induction table with
  | nil =>
      exact Or.inl ⟨fun x hx => absurd hx List.not_mem_nil,
        rfl⟩
  | cons x table ih =>
      by_cases hFound : x.localId = h.setWidth 64
      · refine Or.inr ⟨x, List.mem_cons_self, hFound, ?_⟩
        rw [lookupEntries, if_pos hFound]
      · rw [lookupEntries, if_neg hFound]
        rcases ih with ⟨hNone, hLookup⟩ | ⟨y, hy, hRest⟩
        · exact Or.inl ⟨List.forall_mem_cons.mpr
            ⟨hFound, hNone⟩, hLookup⟩
        · exact Or.inr ⟨y, List.mem_cons_of_mem x hy, hRest⟩

theorem localIdOf_cases
    (h : BitVec 32)
    (table : List RoutingTableEntry) :
    (∀ x ∈ table, x.globalId ≠ h) ∧
        localIdOf table h = h.setWidth 64 ∨
      ∃ x ∈ table, x.globalId = h ∧
        localIdOf table h = x.localId := by
  unfold localIdOf
  cases hFind : table.find? (fun x => x.globalId = h) with
  | none =>
      left
      rw [List.find?_eq_none] at hFind
      refine ⟨?_, rfl⟩
      intro x hx hEq
      exact hFind x hx (decide_eq_true hEq)
  | some x =>
      have hGlobal : x.globalId = h := by
        simpa using List.find?_some hFind
      exact Or.inr ⟨x, List.mem_of_find?_eq_some hFind,
        hGlobal, rfl⟩

/- The lookup finds the local id of a host it does not list. -/
theorem lookupEntries_eq_localIdOf_iff
    (hApart : IdsApart table) :
    lookupEntries h table = localIdOf table h ↔
      Unlisted table h := by
  rcases lookupEntries_cases h table with
    ⟨hNone, hLookup⟩ | ⟨x, hx, hLocal, hLookup⟩ <;>
  rcases localIdOf_cases h table with
    ⟨hOther, hId⟩ | ⟨y, hy, hGlobal, hId⟩
  · rw [hLookup, hId]
    exact iff_of_true rfl
      (fun x hx => ⟨hOther x hx, hNone x hx⟩)
  · apply iff_of_false
    · rw [hLookup, hId]
      exact Ne.symm (hNone y hy)
    · intro hUnlisted
      exact (hUnlisted y hy).1 hGlobal
  · apply iff_of_false
    · rw [hLookup, hId, ← hLocal]
      exact Ne.symm (hApart.apart x hx x hx)
    · intro hUnlisted
      exact (hUnlisted x hx).2 hLocal
  · -- the id would be a local and a global one
    subst hGlobal
    exact absurd hLocal (hApart.apart x hx y hy)

theorem setWidth_setWidth_iff :
    (w.setWidth 32).setWidth 64 = w ↔ w.toNat < 2 ^ 32 := by
  rw [← BitVec.toNat_inj, BitVec.toNat_setWidth,
    BitVec.toNat_setWidth]
  omega

/- It does not change a local id that it does not find. -/
theorem lookupEntries_local_iff
    (hApart : IdsApart table) :
    lookupEntries (w.setWidth 32) table = w ↔
      PassesLookup table w := by
  rcases lookupEntries_cases (w.setWidth 32) table with
    ⟨hNone, hLookup⟩ | ⟨x, hx, hLocal, hLookup⟩
  · rw [hLookup, setWidth_setWidth_iff, PassesLookup]
    refine (and_iff_left_of_imp ?_).symm
    intro hNarrow x hx
    rw [← setWidth_setWidth_iff.mpr hNarrow]
    exact hNone x hx
  · rw [hLookup]
    apply iff_of_false
    · intro hSame
      have hNarrow : w.toNat < 2 ^ 32 := by
        rw [← hSame, BitVec.toNat_setWidth]
        omega
      rw [setWidth_setWidth_iff.mpr hNarrow, ← hSame]
        at hLocal
      exact hApart.apart x hx x hx hLocal
    · rintro ⟨hNarrow, hNone⟩
      rw [setWidth_setWidth_iff.mpr hNarrow] at hLocal
      exact hNone x hx hLocal

end Tables

------------------------------------------------------------
-- Establishing and Accepting
------------------------------------------------------------

/- The endpoint with a routing table. -/
def Endpoint.withRoutingTable
    (table : Option (List RoutingTableEntry))
    (e : Endpoint P) : Endpoint P :=
  { e with
    netState := { e.netState with routingTable := table } }

/- The connection at `c` holds this id of the remote host. -/
def HoldsHostId
    (e : Endpoint P)
    (c : ConnPtr)
    (hostId : BitVec 64) : Prop :=
  ∃ conn, e.conns c = some conn ∧ conn.remoteHostId = hostId

/-
  The connection at `s` holds the id of the host that the
  packet `y` is from, and its entry of the table matches the
  packet, if that is for its application.
-/
def HoldsSender
    (fmt : PacketFormat P)
    (cfg : Config)
    (y : P)
    (s : ConnPtr)
    (e : Endpoint P) : Prop :=
  ∃ conn, e.conns s = some conn ∧
    conn.remoteHostId = fmt.getInteger .srcHostId y ∧
    conn.tableEntry s ∈ e.netState.entries ∧
    (fmt.getWord .dstAppId y = conn.localAppId →
      (conn.tableEntry s).matchesFlow cfg.flowIdentifier
        (fmt.getWord .dstAppId y) (fmt.getWord .srcAppId y)
        (fmt.getInteger .srcHostId y) = true)

/-
  Every connection holds the local id of its remote host,
  whether it is established or accepted next.
-/
structure HostIdsAgree
    (fmt : PacketFormat P)
    (cfg : Config)
    (table : List RoutingTableEntry)
    (e : Endpoint P) : Prop where
  establishes : ∀ c fresh h a sa e',
    nbEstablish fmt cfg c fresh h a sa e = .ok e' →
      HoldsHostId e' c (localIdOf table h)
  accepts : ∀ c s conn entry fresh fuel result e',
    e.conns c = some conn →
    conn.acceptQueue.getLast? = some entry →
    s ≠ 0 → e.conns s = none →
    nbAccept fmt cfg c s fresh fuel e = .ok (result, e') →
      HoldsSender fmt cfg (e.packets entry.packet) s e'

/- The object and the table say the same of a connection. -/
def Registered
    (x : TableEntry)
    (e : Endpoint P) : Prop :=
  e.describe x.conn = some x ∧ x ∈ e.netState.entries

/- What accepting relies on here. -/
structure EntriesInvariant
    (fmt : PacketFormat P)
    (table : Option (List RoutingTableEntry))
    (e : Endpoint P) : Prop where
  apart : QueuesApart e.parkedAt
  old : QueuedOld e
  described : QueuesDescribed fmt e
  routes : e.netState.routingTable = table

section Hosts

variable
    {fmt : PacketFormat P}
    {cfg : Config}
    {table : Option (List RoutingTableEntry)}
    {c s : ConnPtr}
    {conn fresh : Connection}
    {entry : AcceptEntry}
    {h a sa : BitVec 32}
    {x : TableEntry}
    {e e' : Endpoint P}

theorem hostLocalId_eq
    (hRoutes : e.netState.routingTable = table)
    (h : BitVec 32) :
    e.hostLocalId h = lookupEntries h (table.getD []) := by
  rw [Endpoint.hostLocalId, hRoutes, routingTableLookup_eq]

/- The id that a call of `nb__establish` stores. -/
theorem holdsHostId_establish_iff
    (hApart : IdsApart (table.getD []))
    (hRoutes : e.netState.routingTable = table)
    (hEstablish : nbEstablish fmt cfg c fresh h a sa e =
      .ok e') :
    HoldsHostId e' c (localIdOf (table.getD []) h) ↔
      Unlisted (table.getD []) h := by
  rw [← lookupEntries_eq_localIdOf_iff hApart,
    ← hostLocalId_eq hRoutes]
  have hConn := congrFun (nbEstablish_conns hEstablish) c
  rw [Function.update_self] at hConn
  have hHost : (openedConn cfg fresh (e.hostLocalId h) h a sa
      e.nextPacket).remoteHostId = e.hostLocalId h :=
    congrArg TableEntry.remoteHostId
      (openedConn_tableEntry (c := c) _ _)
  constructor
  · rintro ⟨conn, hFound, hStored⟩
    cases hConn.symm.trans hFound
    exact hHost.symm.trans hStored
  · intro hSame
    exact ⟨_, hConn, hHost.trans hSame⟩

theorem Registered.of_sameTable
    (hRegistered : Registered x e)
    (hSame : SameTable e e') :
    Registered x e' := by
  unfold Registered
  rw [hSame.describe, hSame.netState]
  exact hRegistered

theorem TableAdds.registered
    (hAdds : TableAdds e x e') :
    Registered x e' := by
  constructor
  · rw [hAdds.describe, Function.update_self]
  · rw [hAdds.entries]
    exact List.mem_append_right _ (List.mem_singleton_self x)

/- The entry that `nb__accept` leaves of its connection. -/
theorem nbAccept_registered
    {fuel : Nat}
    {result : ConnPtr}
    (hInv : EntriesInvariant fmt table e)
    (hConn : e.conns c = some conn)
    (hLast : conn.acceptQueue.getLast? = some entry)
    (hNe : s ≠ 0)
    (hFree : e.conns s = none)
    (hAccept : nbAccept fmt cfg c s fresh fuel e =
      .ok (result, e')) :
    Registered ⟨s, conn.localAppId, entry.srcAppId,
      lookupEntries (entry.srcHostId.setWidth 32)
        (table.getD [])⟩ e' := by
  rcases nbAccept_stages hNe hFree hAccept with
    ⟨conn₀, hConn₀, hStages⟩
  cases hConn.symm.trans hConn₀
  rcases hStages with ⟨hNone, -⟩ | ⟨y, e₂, opened, e₄, hLast',
    hCall, hOpened, hIngress, hLoop⟩
  · rw [hLast] at hNone
    cases hNone
  · cases hLast.symm.trans hLast'
    have hReady := queuesOpened_of_establish hInv.apart
      hInv.old hConn hLast hCall hOpened
    have hResult := (runIngressPath_iff
      (Nat.ne_of_lt hReady.handedOut)).mp hIngress
    have hAdds : TableAdds (e.setConn c (conn.withAcceptQueue
          conn.acceptQueue.dropLast))
        ⟨s, conn.localAppId, entry.srcAppId,
          e.hostLocalId (entry.srcHostId.setWidth 32)⟩
          e₂ := by
      cases hCall with
      | establish hNe hFree hEstablish =>
          exact nbEstablish_table hNe hFree hEstablish
    rw [hostLocalId_eq hInv.routes] at hAdds
    have hSignal : SameTable e₂ (e₂.setConn s
        { opened with signalingState := .signaled }) :=
      .setConn hOpened rfl
    have hRegistered₄ : Registered _ e₄ :=
      hAdds.registered.of_sameTable
        (hSignal.trans hResult.sameTable)
    have hOld₄ := hReady.old.replay hReady.handedOut hIngress
    refine (acceptLoop_invariant (fun e : Endpoint P =>
      Registered _ e ∧ QueuedOld e) ?_
        ⟨hRegistered₄, hOld₄⟩ hLoop).1
    rintro e i conn x e₁ conn₁ ⟨hRegistered, hOld⟩ hConn hx
      hIngress hConn₁
    have hPacket : x.packet < e.nextPacket :=
      hOld c conn x hConn (List.mem_of_getElem? hx)
    have hResult := (runIngressPath_iff
      (Nat.ne_of_lt hPacket)).mp hIngress
    refine ⟨?_, (hOld.replay hPacket hIngress).dequeueAt
      hConn₁ i⟩
    rw [dequeueAt_eq hConn₁]
    exact (hRegistered.of_sameTable
      hResult.sameTable).of_sameTable (.setConn hConn₁ rfl)

/- The connection is the sender's if the lookup allows it. -/
theorem holdsSender_accept_iff
    {fuel : Nat}
    {result : ConnPtr}
    (hApart : IdsApart (table.getD []))
    (hInv : EntriesInvariant fmt table e)
    (hConn : e.conns c = some conn)
    (hLast : conn.acceptQueue.getLast? = some entry)
    (hNe : s ≠ 0)
    (hFree : e.conns s = none)
    (hAccept : nbAccept fmt cfg c s fresh fuel e =
      .ok (result, e')) :
    HoldsSender fmt cfg (e.packets entry.packet) s e' ↔
      PassesLookup (table.getD [])
        (fmt.getInteger .srcHostId
          (e.packets entry.packet)) := by
  have hDescribes := hInv.described c conn entry hConn
    (List.mem_of_getLast? hLast)
  rcases nbAccept_registered hInv hConn hLast hNe hFree
    hAccept with ⟨hDescribe, hEntry⟩
  rw [hDescribes.srcHostId, ← lookupEntries_local_iff hApart,
    HoldsSender, hDescribes.srcHostId, hDescribes.srcAppId]
  rw [Endpoint.describe, Option.map_eq_some_iff] at hDescribe
  rcases hDescribe with ⟨connS, hConnS, hSame⟩
  have hHost : connS.remoteHostId = lookupEntries _ _ :=
    congrArg TableEntry.remoteHostId hSame
  have hLocal : connS.localAppId = conn.localAppId :=
    congrArg TableEntry.localAppId hSame
  rw [← hSame] at hEntry
  constructor
  · rintro ⟨conn', hConn', hStored, -⟩
    cases hConnS.symm.trans hConn'
    exact hHost.symm.trans hStored
  · intro hPasses
    refine ⟨connS, hConnS, hHost.trans hPasses, hEntry, ?_⟩
    intro hDst
    rw [hSame, hPasses]
    cases cfg.flowIdentifier with
    | srcDstIdentifier =>
        rw [TableEntry.matchesFlow_srcDst_iff]
        exact ⟨(hDst.trans hLocal).symm, rfl, rfl⟩
    | dstIdentifiersOnly =>
        rw [TableEntry.matchesFlow_dst_iff]
        exact (hDst.trans hLocal).symm

theorem ApiCalls.entriesInvariant
    {call : ApiCall P}
    (hInv : EntriesInvariant fmt table e)
    (hCall : ApiCalls fmt cfg e call e') :
    EntriesInvariant fmt table e' := by
  have hRoutes := hCall.invariant
    (fun e => e.netState.routingTable = table)
    (fun _ _ _ hRoutes hCall =>
      hCall.sameHosts.routes.trans hRoutes)
    (fun _ _ _ hRoutes hStep =>
      hStep.sameHosts.routes.trans hRoutes)
    hInv.old hInv.routes
  exact ⟨hCall.queuesApart hInv.apart hInv.old, hRoutes.2,
    hCall.queuesDescribed hInv.apart hInv.old hInv.described,
    hRoutes.1⟩

theorem entriesInvariant_netInit
    (freshState : NetState)
    (hConns : ∀ c, e.conns c = none) :
    EntriesInvariant fmt table
      ((nbNetInit freshState e).withRoutingTable table) := by
  have hNone : ∀ c, ((nbNetInit freshState e
      ).withRoutingTable table).conns c = none := hConns
  refine ⟨queuesApart_netInit freshState hConns, ?_, ?_, rfl⟩
  · intro c conn x hConn
    rw [hNone c] at hConn
    cases hConn
  · intro c conn x hConn
    rw [hNone c] at hConn
    cases hConn

/-
  In every state of a run with a routing table: establishing
  stores the local id of a host exactly if the table does not
  list the id passed, and accepting a queued packet stores the
  id of its host exactly if that passes the lookup.
-/
theorem hostIds_iff_of_run
    {freshState : NetState}
    {calls : List (ApiCall P)}
    {e₀ : Endpoint P}
    (hApart : IdsApart (table.getD []))
    (hConns : ∀ c, e₀.conns c = none)
    (hRun : Run (ApiCalls fmt cfg)
      ((nbNetInit freshState e₀).withRoutingTable table) calls
        e) :
    (∀ c fresh h a sa e',
      nbEstablish fmt cfg c fresh h a sa e = .ok e' →
        (HoldsHostId e' c (localIdOf (table.getD []) h) ↔
          Unlisted (table.getD []) h)) ∧
      ∀ c s conn entry fresh fuel result e',
        e.conns c = some conn →
        conn.acceptQueue.getLast? = some entry →
        s ≠ 0 → e.conns s = none →
        nbAccept fmt cfg c s fresh fuel e =
          .ok (result, e') →
        (HoldsSender fmt cfg (e.packets entry.packet) s e' ↔
          PassesLookup (table.getD [])
            (fmt.getInteger .srcHostId
              (e.packets entry.packet))) := by
  have hInv : EntriesInvariant fmt table e :=
    hRun.invariant
      (fun _ _ _ hInv hCall => hCall.entriesInvariant hInv)
      (entriesInvariant_netInit freshState hConns)
  constructor
  · intro c fresh h a sa e' hEstablish
    exact holdsHostId_establish_iff hApart hInv.routes
      hEstablish
  · intro c s conn entry fresh fuel result e' hConn hLast hNe
      hFree hAccept
    exact holdsSender_accept_iff hApart hInv hConn hLast hNe
      hFree hAccept

end Hosts

------------------------------------------------------------
-- A Table with One Host
------------------------------------------------------------

/- The host with the global id 5 has the local id 9. -/
def oneHost : Option (List RoutingTableEntry) :=
  some [⟨5, 9⟩]

theorem idsApart_oneHost : IdsApart (oneHost.getD []) where
  globals := List.nodup_singleton _
  locals := List.nodup_singleton _
  apart := by decide

/- A connection of app 7 to app 8 at a host. -/
def establishHost
    (h : BitVec 32)
    (e : Endpoint PacketBuffer) :
    Except Fault (Endpoint PacketBuffer) :=
  nbEstablish netPacketFormat (plainConfig .srcDstIdentifier)
    2 blankConnection h 8 7 e

/- A connection to the host 5 is one to the host 5, not 9. -/
theorem not_forall_hostIdsAgree :
    ¬ ∀ (fmt : PacketFormat PacketBuffer) cfg freshState e₀
        calls e table,
      IdsApart (table.getD []) →
      (∀ c, e₀.conns c = none) →
      Run (ApiCalls fmt cfg)
        ((nbNetInit freshState e₀).withRoutingTable table)
        calls e →
      HostIdsAgree fmt cfg (table.getD []) e := by
  intro hAll
  have hStored : (do
      let e ← establishHost 5
        (bareStack.withRoutingTable oneHost)
      return (e.conns 2).map Connection.remoteHostId) =
      .ok (some 5) := by
    decide +kernel
  rcases bind_eq_ok_iff.mp hStored with
    ⟨e, hEstablish, hEnd⟩
  have hAgree := hAll netPacketFormat
    (plainConfig .srcDstIdentifier) blankNetState bareEndpoint
    [] _ oneHost idsApart_oneHost (fun _ => rfl) (.nil _)
  rcases hAgree.establishes 2 blankConnection 5 8 7 e
    hEstablish with ⟨conn, hConn, hHost⟩
  rw [pure_eq_ok, hConn, Option.map_some, hHost] at hEnd
  exact absurd hEnd (by decide)

/- A packet from a host is parked at a listener of app 7. -/
def parkFrom
    (srcHostId : BitVec 64) :
    Except Fault (Endpoint PacketBuffer) := do
  let e ← establishListener 1
    (bareStack.withRoutingTable oneHost)
  ingress netPacketFormat (plainConfig .srcDstIdentifier)
    (packetToSeven srcHostId 8) 39 e

theorem parkFrom_run
    {srcHostId : BitVec 64}
    {e : Endpoint PacketBuffer}
    (hPark : parkFrom srcHostId = .ok e) :
    Run (ApiCalls netPacketFormat
        (plainConfig .srcDstIdentifier))
      (bareStack.withRoutingTable oneHost)
      [.call (.establish 1 blankConnection 0 0 7),
        .call (.ingress (packetToSeven srcHostId 8) 39)]
      e := by
  rcases bind_eq_ok_iff.mp hPark with ⟨e₁, hFirst, hIngress⟩
  exact .cons (.call (.establish (by decide) rfl hFirst))
    (.cons (.call (.ingress hIngress)) (.nil e))

/-
  With a packet of host 9 parked, establishing for host 7 is
  right, and accepting the packet is not.
-/
theorem hostIds_iff_of_run_one :
    ∃ (e : Endpoint PacketBuffer) (conn : Connection)
        (entry : AcceptEntry),
      e.conns 1 = some conn ∧
      conn.acceptQueue.getLast? = some entry ∧
      (∀ e', establishHost 7 e = .ok e' →
        HoldsHostId e' 2 7) ∧
      ∀ fuel result e',
        nbAccept netPacketFormat
            (plainConfig .srcDstIdentifier) 1 2
            blankConnection fuel e = .ok (result, e') →
          ¬ HoldsSender netPacketFormat
            (plainConfig .srcDstIdentifier)
            (e.packets entry.packet) 2 e' := by
  have hTable : (do
      let e ← parkFrom 9
      return ((e.conns 1).map Connection.acceptQueue,
        (e.conns 2).isNone,
        netPacketFormat.getInteger .srcHostId
          (e.packets 0))) =
      .ok (some [⟨8, 9, 0⟩], true, 9) := by
    decide +kernel
  rcases bind_eq_ok_iff.mp hTable with ⟨e, hPark, hEnd⟩
  simp only [pure_eq_ok, Except.ok.injEq, Prod.mk.injEq,
    Option.isNone_iff_eq_none, Option.map_eq_some_iff]
    at hEnd
  rcases hEnd with ⟨⟨conn, hConn, hQueue⟩, hFree, hSrc⟩
  have hLast : conn.acceptQueue.getLast? =
      some ⟨8, 9, 0⟩ := by
    rw [hQueue]
    rfl
  have hNone : ∀ c, bareEndpoint.conns c = none := fun _ => rfl
  have hIff := hostIds_iff_of_run idsApart_oneHost hNone
    (parkFrom_run hPark)
  refine ⟨e, conn, ⟨8, 9, 0⟩, hConn, hLast, ?_, ?_⟩
  · intro e' hEstablish
    exact (hIff.1 2 blankConnection 7 8 7 e' hEstablish).mpr
      (by decide)
  · intro fuel result e' hAccept hHolds
    have hPasses := (hIff.2 1 2 conn ⟨8, 9, 0⟩ blankConnection
      fuel result e' hConn hLast (by decide) hFree
      hAccept).mp hHolds
    rw [hSrc] at hPasses
    exact hPasses.2 ⟨5, 9⟩ List.mem_cons_self rfl

end NetBlocks
