import NetBlocks.Core.EstablishSpec
import NetBlocks.Modules.IdentifierSpec

/-
  The calls a program makes on an initialized stack, as the
  steps of a transition relation, and what each of them does
  to the connection table.

  Main declarations:
    * `Call` and `Calls`
    * `SameTable`
    * `Calls.table`
    * `HostsKept`
-/

namespace NetBlocks

open Except

variable {P : Type}

------------------------------------------------------------
-- Calls
------------------------------------------------------------

/-
  A call of the API, with what `malloc` and the transport
  return to it: the address and contents of a new connection
  object, or the received packet and its length. `tick` is
  the clock moving on.
-/
inductive Call (P : Type) where
| establish (c : ConnPtr) (fresh : Connection)
    (h a sa : BitVec 32)
| destablish (c : ConnPtr)
| send (c : ConnPtr) (buff : List Byte)
| ingress (x : P) (len : Int)
| checkTimers
| tick (now : BitVec 64)
| read (c : ConnPtr) (maxLen : Int)

/- A call that returns takes one endpoint to another. -/
inductive Calls
    (fmt : PacketFormat P)
    (cfg : Config) :
    Endpoint P → Call P → Endpoint P → Prop
| establish {e e' : Endpoint P} {c : ConnPtr}
    {fresh : Connection} {h a sa : BitVec 32} :
    -- `malloc` returns an address that is not in use
    c ≠ 0 → e.conns c = none →
    nbEstablish fmt cfg c fresh h a sa e = .ok e' →
    Calls fmt cfg e (.establish c fresh h a sa) e'
| destablish {e e' : Endpoint P} {c : ConnPtr} :
    nbDestablish cfg c e = .ok e' →
    Calls fmt cfg e (.destablish c) e'
| send {e e' : Endpoint P} {c : ConnPtr} {buff : List Byte}
    {n : Nat} :
    nbSend fmt cfg c buff e = .ok (n, e') →
    Calls fmt cfg e (.send c buff) e'
| ingress {e e' : Endpoint P} {x : P} {len : Int} :
    NetBlocks.ingress fmt cfg x len e = .ok e' →
    Calls fmt cfg e (.ingress x len) e'
| checkTimers {e e' : Endpoint P} :
    NetBlocks.checkTimers fmt e = .ok e' →
    Calls fmt cfg e .checkTimers e'
| tick {e : Endpoint P} {now : BitVec 64} :
    Calls fmt cfg e (.tick now) (NetBlocks.tick now e)
| read {e e' : Endpoint P} {c : ConnPtr} {maxLen : Int}
    {bytes : List Byte} :
    nbRead fmt c maxLen e = .ok (bytes, e') →
    Calls fmt cfg e (.read c maxLen) e'

------------------------------------------------------------
-- What Calls Leave Alone
------------------------------------------------------------

/- The entry that a connection's own members describe. -/
def Connection.tableEntry
    (c : ConnPtr)
    (conn : Connection) : TableEntry where
  conn := c
  localAppId := conn.localAppId
  remoteAppId := conn.remoteAppId
  remoteHostId := conn.remoteHostId

/- What the object at an address says of itself, if live. -/
def Endpoint.describe
    (e : Endpoint P)
    (c : ConnPtr) : Option TableEntry :=
  (e.conns c).map (Connection.tableEntry c)

theorem describe_ne_none_iff
    {e : Endpoint P}
    {c : ConnPtr} :
    e.describe c ≠ none ↔ e.conns c ≠ none := by
  simp [Endpoint.describe]

/-
  Nothing changed that the table is about: its arrays, the
  members its entries are made from, and the local host.
-/
structure SameTable
    (e e' : Endpoint P) : Prop where
  netState : e'.netState = e.netState
  describe : ∀ c, e'.describe c = e.describe c
  host : e'.myLocalHostId = e.myLocalHostId

namespace SameTable

variable {e e₁ e' : Endpoint P}

theorem refl
    (e : Endpoint P) :
    SameTable e e :=
  ⟨rfl, fun _ => rfl, rfl⟩

theorem trans
    (hFirst : SameTable e e₁)
    (hSecond : SameTable e₁ e') :
    SameTable e e' where
  netState := hSecond.netState.trans hFirst.netState
  describe c := (hSecond.describe c).trans
    (hFirst.describe c)
  host := hSecond.host.trans hFirst.host

/- Endpoints with the same connections and table. -/
theorem of_conns_eq
    (hConns : e'.conns = e.conns)
    (hNetState : e'.netState = e.netState)
    (hHost : e'.myLocalHostId = e.myLocalHostId) :
    SameTable e e' where
  netState := hNetState
  describe c := by
    rw [Endpoint.describe, hConns, Endpoint.describe]
  host := hHost

/- Assigning to members of no table entry. -/
theorem setConn
    {c : ConnPtr}
    {conn conn' : Connection}
    (hConn : e.conns c = some conn)
    (hEntry : conn'.tableEntry c = conn.tableEntry c) :
    SameTable e (e.setConn c conn') where
  netState := rfl
  describe d := by
    by_cases hEq : d = c
    · subst hEq
      simp [Endpoint.describe, hConn, hEntry]
    · rw [Endpoint.describe,
        Endpoint.setConn_conns_of_ne _ _ hEq,
        Endpoint.describe]
  host := rfl

/- Sending assigns the number and the buffered packet. -/
theorem sent
    {fmt : PacketFormat P}
    {cfg : Config}
    {c : ConnPtr}
    {conn : Connection}
    {p : PacketPtr}
    (hConn : e.conns c = some conn)
    (timers : TimerPool)
    (x : P) :
    SameTable e (e.sent fmt cfg c conn p timers x) := by
  have hTimers : SameTable e { e with timers } :=
    of_conns_eq rfl rfl rfl
  have hNumbered : SameTable { e with timers }
      ({ e with timers }.setConn c
        (numberedConn cfg conn p)) := setConn hConn rfl
  exact (hTimers.trans hNumbered).trans
    (of_conns_eq rfl rfl rfl)

end SameTable

section Frames

variable
    {fmt : PacketFormat P}
    {cfg : Config}
    {p : PacketPtr}
    {c : ConnPtr}
    {e e' : Endpoint P}

theorem FrontResult.sameTable
    {status : HookStatus}
    (hFront : FrontResult fmt cfg p e status e') :
    SameTable e e' := by
  cases hFront with
  | rejected => exact .of_conns_eq rfl rfl rfl
  | unclaimed => exact .of_conns_eq rfl rfl rfl
  | @parked y _ conn q _ _ _ _ _ _ hConn =>
      have hPacket : SameTable e (e.setPacket p y) :=
        .of_conns_eq rfl rfl rfl
      have hQueued : SameTable (e.setPacket p y)
          ((e.setPacket p y).setConn _
            { conn with acceptQueue := q }) :=
        .setConn hConn rfl
      exact (hPacket.trans hQueued).trans
        (.of_conns_eq rfl rfl rfl)
  | routed => exact .of_conns_eq rfl rfl rfl

theorem Acked.sameTable
    {conn : Connection}
    {seq : BitVec 32}
    (hAcked : Acked fmt cfg conn seq e e') :
    SameTable e e' := by
  cases hAcked with
  | off => exact .refl e
  | sent => exact .of_conns_eq rfl rfl rfl

theorem arrivedConn_tableEntry
    (conn : Connection)
    (status : HookStatus)
    (v : InorderView) :
    (arrivedConn conn status v).tableEntry c =
      conn.tableEntry c := by
  unfold arrivedConn
  dsimp only
  split <;> rfl

theorem BackResult.sameTable
    {status : HookStatus}
    (hBack : BackResult fmt cfg p c e status e') :
    SameTable e e' := by
  cases hBack with
  | ack _ _ hReceive =>
      rcases receiveAck_ok_iff.mp hReceive with
        ⟨conn, hConn, ⟨-, hEq⟩ | ⟨q, t, -, -, rfl⟩⟩
      · exact hEq ▸ .refl e
      · have hTimers : SameTable e { e with
            timers := (e.timers.removeTimer t).returnTimer t
            } := .of_conns_eq rfl rfl rfl
        exact hTimers.trans (.setConn hConn rfl)
  | data _ hConn hAcked _ =>
      have hConn₁ := hConn
      rw [← hAcked.conns_eq] at hConn₁
      exact (hAcked.sameTable.trans
        (.setConn hConn₁ (arrivedConn_tableEntry _ _ _))
        ).trans (.of_conns_eq rfl rfl rfl)

theorem IngressResult.sameTable
    (hIngress : IngressResult fmt cfg p e e') :
    SameTable e e' := by
  cases hIngress with
  | dropped hFront => exact hFront.sameTable
  | @routed y _ _ _ _ _ hBack =>
      have hRouted : SameTable e (e.setPacket p
          (fmt.setInteger .flowIdentifier
            (lookup fmt cfg e y) y)) :=
        .of_conns_eq rfl rfl rfl
      exact hRouted.trans hBack.sameTable

theorem ingress_sameTable
    {x : P}
    {len : Int}
    (hIngress : ingress fmt cfg x len e = .ok e') :
    SameTable e e' := by
  have hPolled : SameTable e (e.polled x) :=
    .of_conns_eq rfl rfl rfl
  exact hPolled.trans (ingress_iff.mp hIngress).sameTable

/- Firing timers works on the pool and sends packets. -/
theorem checkTimersLoop_frame
    {now : BitVec 64}
    {fuel : Nat}
    (hCheck : checkTimersLoop fmt now fuel e = .ok e') :
    ∃ timers out, e' = { e with timers, out } := by
  induction fuel generalizing e with
  | zero => cases hCheck
  | succ fuel ih =>
      rw [checkTimersLoop] at hCheck
      split at hCheck
      · cases hCheck
        exact ⟨_, _, rfl⟩
      · split at hCheck
        · rcases bind_eq_ok_iff.mp hCheck with
            ⟨e₁, hCallback, hRest⟩
          simp only [runCallback,
            ReliableModule.redeliveryCb] at hCallback
          rcases bind_eq_ok_iff.mp hCallback with
            ⟨timers₁, -, hEnd⟩
          cases hEnd
          rcases ih hRest with ⟨timers, out, rfl⟩
          exact ⟨timers, out, rfl⟩
        · cases hCheck
          exact ⟨_, _, rfl⟩

/- Reading takes an entry off the input queue. -/
theorem nbRead_frame
    {maxLen : Int}
    {bytes : List Byte}
    (hRead : nbRead fmt c maxLen e = .ok (bytes, e')) :
    ∃ conn queue, e.conns c = some conn ∧
      e' = e.setConn c { conn with inputQueue := queue } := by
  unfold nbRead at hRead
  rcases bind_eq_ok_iff.mp hRead with ⟨conn, hLoad, hRest⟩
  have hConn := Endpoint.loadConn_eq_ok_iff.mp hLoad
  refine ⟨conn, ?_⟩
  cases hQueue : conn.inputQueue with
  | nil =>
      rw [hQueue] at hRest
      cases hRest
      exact ⟨[], hConn, by
        rw [← hQueue, Endpoint.setConn_self hConn]⟩
  | cons entry rest =>
      rcases entry with ⟨payload, size⟩
      rw [hQueue] at hRest
      dsimp only at hRest
      generalize (if maxLen < size then maxLen else size) =
        copySize at hRest
      split at hRest
      · cases hRest
      · rcases bind_eq_ok_iff.mp hRest with
          ⟨copied, -, hEnd⟩
        cases hEnd
        exact ⟨rest, hConn, Endpoint.modifyConn_eq hConn _⟩

end Frames

------------------------------------------------------------
-- Calls and the Table
------------------------------------------------------------

/- The local id of a host, by the routing table in use. -/
def Endpoint.hostLocalId
    (e : Endpoint P)
    (h : BitVec 32) : BitVec 64 :=
  routingTableLookupFromGlobal h e.netState.routingTable

/-
  The entry is added, and the object at `c` describes it.
-/
structure TableAdds
    (e : Endpoint P)
    (x : TableEntry)
    (e' : Endpoint P) : Prop where
  fresh : x.conn ≠ 0 ∧ e.describe x.conn = none
  netState : e.netState.addConnection x.conn x.localAppId
    x.remoteAppId x.remoteHostId = .ok e'.netState
  describe : e'.describe =
    Function.update e.describe x.conn (some x)
  host : e'.myLocalHostId = e.myLocalHostId

/- The entry an object describes is deleted with it. -/
structure TableDeletes
    (cfg : Config)
    (e : Endpoint P)
    (x : TableEntry)
    (e' : Endpoint P) : Prop where
  live : e.describe x.conn = some x
  netState : e'.netState =
    e.netState.deleteConnection cfg.flowIdentifier
      x.localAppId x.remoteAppId x.remoteHostId
  describe : e'.describe =
    Function.update e.describe x.conn none
  host : e'.myLocalHostId = e.myLocalHostId

section Table

variable
    {fmt : PacketFormat P}
    {cfg : Config}
    {c : ConnPtr}
    {h a sa : BitVec 32}
    {e e₁ e' : Endpoint P}
    {conn conn' : Connection}

theorem SignalResult.sameTable
    (hConn : e.conns c = some conn)
    (hSignal : SignalResult fmt cfg c conn h a e conn' e') :
    SameTable e e' ∧
      conn'.tableEntry c = conn.tableEntry c := by
  cases hSignal with
  | wildcard _ hEq =>
      subst hEq
      exact ⟨.setConn hConn rfl, rfl⟩
  | unsignaled _ _ hEq =>
      subst hEq
      exact ⟨.setConn hConn rfl, rfl⟩
  | @signals _ x t timers _ _ hEq hSends =>
      subst hEq
      refine ⟨?_, rfl⟩
      let waiting : Connection :=
        { conn with signalingState := .waitingForSignal }
      have hWaiting : SameTable e (e.setConn c waiting) :=
        .setConn hConn rfl
      have hSent : SameTable (e.setConn c waiting)
          ((e.setConn c waiting).sent fmt cfg c waiting
            e.nextPacket timers x) :=
        .sent (Endpoint.setConn_conns_self e c _) timers x
      refine (hWaiting.trans hSent).trans ?_
      refine ⟨rfl, ?_, rfl⟩
      intro d
      simp [waiting, Endpoint.describe, Endpoint.sent,
        Endpoint.setConn, Endpoint.transmit,
        Endpoint.requested, Endpoint.sendPacket,
        Endpoint.setPacket]

/- `nb__establish` adds the new connection's entry. -/
theorem nbEstablish_table
    {fresh : Connection}
    (hNe : c ≠ 0)
    (hFree : e.conns c = none)
    (hEstablish : nbEstablish fmt cfg c fresh h a sa e =
      .ok e') :
    TableAdds e ⟨c, sa, a, e.hostLocalId h⟩ e' := by
  rcases nbEstablish_ok_iff.mp hEstablish with
    ⟨netState, conn', e₁, hAdd, hSignal, rfl⟩
  let conn₀ := establishedConn cfg fresh (e.hostLocalId h) a sa
  have hConn₀ : (e.registered c conn₀ netState).conns c =
      some conn₀ := Endpoint.setConn_conns_self _ c _
  rcases hSignal.sameTable hConn₀ with ⟨hSame, hEntry⟩
  have hRouted : (routedConn cfg sa conn').tableEntry c =
      conn'.tableEntry c := by
    unfold routedConn
    split <;> rfl
  have hEnd := hSame.trans
    (.setConn hSignal.conns_self hRouted)
  refine ⟨⟨hNe, by rw [Endpoint.describe, hFree]; rfl⟩,
    by rw [hEnd.netState]; exact hAdd, ?_, hEnd.host⟩
  funext d
  rw [hEnd.describe]
  by_cases hEq : d = c
  · subst hEq
    rw [Endpoint.describe, hConn₀, Function.update_self]
    rfl
  · have hOther : (e.registered c conn₀ netState).conns d =
        e.conns d := by
      exact Endpoint.setConn_conns_of_ne
        { e with netState } _ hEq
    rw [Endpoint.describe, hOther,
      Function.update_of_ne hEq, Endpoint.describe]

/- `nb__destablish` deletes the connection's entry. -/
theorem nbDestablish_table
    (hDestablish : nbDestablish cfg c e = .ok e') :
    ∃ x, x.conn = c ∧ TableDeletes cfg e x e' := by
  rcases nbDestablish_ok_iff.mp hDestablish with
    ⟨conn, hConn, rfl⟩
  refine ⟨conn.tableEntry c, rfl, ?_, rfl, ?_, rfl⟩
  · rw [Endpoint.describe]
    change (e.conns c).map _ = _
    rw [hConn]
    rfl
  · funext d
    by_cases hEq : d = c
    · subst hEq
      simp [Endpoint.describe, Connection.tableEntry]
    · have hConnOf : (conn.tableEntry c).conn = c := rfl
      rw [hConnOf, Function.update_of_ne hEq]
      simp [Endpoint.describe, Function.update_of_ne hEq]

/-
  What a call does to the table: it adds an entry, deletes
  one, or leaves the table as it was.
-/
inductive TableEffect
    (cfg : Config)
    (e : Endpoint P) :
    Call P → Endpoint P → Prop
| adds {e' : Endpoint P} {c : ConnPtr} {fresh : Connection}
    {h a sa : BitVec 32} :
    TableAdds e ⟨c, sa, a, e.hostLocalId h⟩ e' →
    TableEffect cfg e (.establish c fresh h a sa) e'
| deletes {e' : Endpoint P} {x : TableEntry} :
    TableDeletes cfg e x e' →
    TableEffect cfg e (.destablish x.conn) e'
| same {e' : Endpoint P} {call : Call P} :
    SameTable e e' → TableEffect cfg e call e'

/- Only establishing and destablishing touch the table. -/
theorem Calls.table
    {call : Call P}
    (hCall : Calls fmt cfg e call e') :
    TableEffect cfg e call e' := by
  cases hCall with
  | establish hNe hFree hEstablish =>
      exact .adds (nbEstablish_table hNe hFree hEstablish)
  | destablish hDestablish =>
      rcases nbDestablish_table hDestablish with
        ⟨x, rfl, hDeletes⟩
      exact .deletes hDeletes
  | send hSend =>
      rcases nbSend_ok_iff.mp hSend with
        ⟨conn, y, x, t, timers, hConn, -, -, -, rfl⟩
      have hRequested : SameTable e e.requested :=
        .of_conns_eq rfl rfl rfl
      exact .same (hRequested.trans
        (.sent (e := e.requested) hConn timers x))
  | ingress hIngress =>
      exact .same (ingress_sameTable hIngress)
  | checkTimers hCheck =>
      rcases checkTimersLoop_frame hCheck with
        ⟨timers, out, rfl⟩
      exact .same (.of_conns_eq rfl rfl rfl)
  | tick => exact .same (.of_conns_eq rfl rfl rfl)
  | read hRead =>
      rcases nbRead_frame hRead with
        ⟨conn, queue, hConn, rfl⟩
      exact .same (.setConn hConn rfl)

/-
  Host ids fit into their members: every one the stack
  stores is a 32-bit id.
-/
structure HostsKept
    (e : Endpoint P) : Prop where
  own : e.myLocalHostId.toNat < 2 ^ 32
  remote : ∀ c x, e.describe c = some x →
    x.remoteHostId.toNat < 2 ^ 32

theorem lookup_lt
    (h : BitVec 32)
    (table : Option (List RoutingTableEntry)) :
    (routingTableLookupFromGlobal h table).toNat < 2 ^ 32 := by
  have hWide : ∀ w : BitVec 32,
      (w.setWidth 64).toNat < 2 ^ 32 := by
    intro w
    rw [BitVec.toNat_setWidth]
    omega
  cases table with
  | none => exact hWide h
  | some entries =>
      rw [routingTableLookupFromGlobal]
      induction entries with
      | nil => exact hWide h
      | cons entry entries ih =>
          rw [lookupEntries]
          split
          · exact hWide _
          · exact ih

theorem HostsKept.netInit
    (fresh : NetState)
    (hConns : ∀ c x, e.describe c = some x →
      x.remoteHostId.toNat < 2 ^ 32) :
    HostsKept (nbNetInit fresh e) :=
  ⟨lookup_lt _ none, hConns⟩

theorem HostsKept.fits
    (hHosts : HostsKept e)
    (hConn : e.conns c = some conn) :
    HostsFit conn e.myLocalHostId := by
  have hDescribe : e.describe c = some (conn.tableEntry c) := by
    rw [Endpoint.describe, hConn]
    rfl
  exact ⟨Nat.lt_trans (hHosts.remote c _ hDescribe)
    (by decide), Nat.lt_trans hHosts.own (by decide)⟩

theorem SameTable.hostsKept
    (hSame : SameTable e e')
    (hHosts : HostsKept e) :
    HostsKept e' := by
  refine ⟨hSame.host ▸ hHosts.own, ?_⟩
  intro d x hx
  rw [hSame.describe] at hx
  exact hHosts.remote d x hx

/- The remote host of a new entry is looked up. -/
theorem TableAdds.hostsKept
    (hAdds : TableAdds e ⟨c, sa, a, e.hostLocalId h⟩ e')
    (hHosts : HostsKept e) :
    HostsKept e' := by
  refine ⟨hAdds.host ▸ hHosts.own, ?_⟩
  intro d x hx
  rw [hAdds.describe, Function.update_apply] at hx
  split at hx
  · cases hx
    exact lookup_lt _ _
  · exact hHosts.remote d x hx

/- No call makes a host id too large. -/
theorem Calls.hostsKept
    {call : Call P}
    (hHosts : HostsKept e)
    (hCall : Calls fmt cfg e call e') :
    HostsKept e' := by
  cases hCall.table with
  | adds hAdds => exact hAdds.hostsKept hHosts
  | @deletes _ y hDeletes =>
      refine ⟨hDeletes.host ▸ hHosts.own, ?_⟩
      intro d x hx
      rw [hDeletes.describe, Function.update_apply] at hx
      split at hx
      · cases hx
      · exact hHosts.remote d x hx
  | same hSame => exact hSame.hostsKept hHosts

end Table

end NetBlocks
