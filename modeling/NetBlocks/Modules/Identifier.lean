import NetBlocks.Modules.Inorder

/-
  The identifier module: the table of active connections,
  and the lookup that decides which connection a packet
  belongs to.

  Main declarations:
    * `NetState.addConnection`
    * `NetState.retrieveConnection`
    * `NetState.retrieveWildcardConnection`
    * `NetState.deleteConnection`
    * `IdentifierModule.hookIngress`
-/

namespace NetBlocks

------------------------------------------------------------
-- Routing Table
------------------------------------------------------------

/- The search of `nb__routing_table_lookup_from_global`. -/
def lookupEntries
    (localId : BitVec 32) :
    List RoutingTableEntry → BitVec 64
| [] => localId.setWidth 64
| entry :: entries =>
    if entry.localId = localId.setWidth 64 then
      entry.globalId.setWidth 64
    else
      lookupEntries localId entries

/-
  `nb__routing_table_lookup_from_global`. Without a routing
  table, local and global ids are the same.
-/
def routingTableLookupFromGlobal
    (localId : BitVec 32) :
    Option (List RoutingTableEntry) → BitVec 64
| none => localId.setWidth 64
| some entries => lookupEntries localId entries

------------------------------------------------------------
-- The Table of Active Connections
------------------------------------------------------------

/- `WILDCARD_APP_ID` -/
def wildcardAppId : BitVec 32 := 0

/- `nb__wildcard_host_identifier` -/
def wildcardHostIdentifier : BitVec 64 := 0

namespace NetState

/- `identifier_module::add_connection` -/
def addConnection
    (s : NetState)
    (c : ConnPtr)
    (appId srcAppId : BitVec 32)
    (srcHostId : BitVec 64) : Except Fault NetState :=
  let idx := s.numConn
  if idx < maxActiveConnections then
    .ok { s with
      numConn := idx + 1
      activeLocalAppIds :=
        Function.update s.activeLocalAppIds idx appId
      activeConnections :=
        Function.update s.activeConnections idx c
      activeRemoteAppIds :=
        Function.update s.activeRemoteAppIds idx srcAppId
      activeRemoteHostIds :=
        Function.update s.activeRemoteHostIds idx
          srcHostId }
  else
    .error .outOfBounds

/- `identifier_module::match_connection` -/
def matchConnection
    (s : NetState)
    (flow : FlowIdentifier)
    (dstAppId srcAppId : BitVec 32)
    (srcHostId : BitVec 64)
    (index : Nat) : Bool :=
  match flow with
  | .srcDstIdentifier =>
      s.activeLocalAppIds index == dstAppId &&
        (s.activeRemoteAppIds index == srcAppId &&
          s.activeRemoteHostIds index == srcHostId)
  | .dstIdentifiersOnly =>
      s.activeLocalAppIds index == dstAppId

/-
  The search loops of the table: the first index in use that
  satisfies the condition.
-/
def findIndex
    (s : NetState)
    (found : Nat → Bool) : Option Nat :=
  (List.range s.numConn).find? found

/- `identifier_module::retrieve_connection` -/
def retrieveConnection
    (s : NetState)
    (flow : FlowIdentifier)
    (appId srcAppId : BitVec 32)
    (srcHostId : BitVec 64) : ConnPtr :=
  match s.findIndex
      (s.matchConnection flow appId srcAppId srcHostId) with
  | some i => s.activeConnections i
  | none => 0

/- The condition of `retrieve_wildcard_connection`. -/
def matchWildcard
    (s : NetState)
    (appId : BitVec 32)
    (index : Nat) : Bool :=
  s.activeLocalAppIds index == appId &&
    (s.activeRemoteAppIds index == wildcardAppId &&
      s.activeRemoteHostIds index == wildcardHostIdentifier)

/- `identifier_module::retrieve_wildcard_connection` -/
def retrieveWildcardConnection
    (s : NetState)
    (appId : BitVec 32) : ConnPtr :=
  match s.findIndex (s.matchWildcard appId) with
  | some i => s.activeConnections i
  | none => 0

/-
  What `delete_connection` does to the entry it found: the
  last entry takes its place, except that the remote host
  ids are assigned the other way around.
-/
def removeEntry
    (s : NetState)
    (flow : FlowIdentifier)
    (i : Nat) : NetState :=
  let total := s.numConn - 1
  let s' :=
    { s with
      numConn := total
      activeLocalAppIds :=
        Function.update s.activeLocalAppIds i
          (s.activeLocalAppIds total)
      activeConnections :=
        Function.update s.activeConnections i
          (s.activeConnections total) }
  match flow with
  | .srcDstIdentifier =>
      { s' with
        activeRemoteAppIds :=
          Function.update s.activeRemoteAppIds i
            (s.activeRemoteAppIds total)
        activeRemoteHostIds :=
          Function.update s.activeRemoteHostIds total
            (s.activeRemoteHostIds i) }
  | .dstIdentifiersOnly => s'

/- `identifier_module::delete_connection` -/
def deleteConnection
    (s : NetState)
    (flow : FlowIdentifier)
    (appId srcAppId : BitVec 32)
    (srcHostId : BitVec 64) : NetState :=
  match s.findIndex
      (s.matchConnection flow appId srcAppId srcHostId) with
  | some i => s.removeEntry flow i
  | none => s

end NetState

------------------------------------------------------------
-- Hooks
------------------------------------------------------------

namespace IdentifierModule

variable {P : Type}

/- `identifier_module::hook_net_init` -/
def hookNetInit
    (e : Endpoint P) : Endpoint P :=
  { e with
    netState :=
      { e.netState with numConn := 0, routingTable := none }
    myLocalHostId :=
      routingTableLookupFromGlobal e.myHostId none }

/- `identifier_module::hook_establish` -/
def hookEstablish
    (c : ConnPtr)
    (h a sa : BitVec 32)
    (e : Endpoint P) :
    Except Fault (HookStatus × Endpoint P) := do
  let hostLocalId :=
    routingTableLookupFromGlobal h e.netState.routingTable
  let _ ← e.loadConn c
  let e := e.modifyConn c (fun conn =>
    { conn with
      remoteHostId := hostLocalId
      remoteAppId := a
      localAppId := sa
      inputQueue := []
      acceptQueue := [] })
  let netState ←
    e.netState.addConnection c sa a hostLocalId
  return (.hookContinue, { e with netState })

/-
  `identifier_module::hook_destablish`. The queues it frees
  are part of the connection object here.
-/
def hookDestablish
    (cfg : Config)
    (c : ConnPtr)
    (e : Endpoint P) :
    Except Fault (HookStatus × Endpoint P) := do
  let conn ← e.loadConn c
  let netState :=
    e.netState.deleteConnection cfg.flowIdentifier
      conn.localAppId conn.remoteAppId conn.remoteHostId
  return (.hookContinue, { e with netState })

/- `identifier_module::hook_send` -/
def hookSend
    (fmt : PacketFormat P)
    (c : ConnPtr)
    (p : PacketPtr)
    (e : Endpoint P) :
    Except Fault (HookStatus × Endpoint P) := do
  let conn ← e.loadConn c
  let e := e.modifyPacket p
    (fmt.setInteger .dstHostId conn.remoteHostId)
  let e := e.modifyPacket p
    (fmt.setWord .dstAppId conn.remoteAppId)
  let e := e.modifyPacket p
    (fmt.setInteger .srcHostId e.myLocalHostId)
  let e := e.modifyPacket p
    (fmt.setWord .srcAppId conn.localAppId)
  return (.hookContinue, e)

/-
  The end of `hook_ingress`, for a packet no connection
  matches: a wildcard listener queues it, and its user is
  told. Without one, the process aborts.
-/
def ingressWildcard
    (dstAppId srcAppId : BitVec 32)
    (srcHostId : BitVec 64)
    (p : PacketPtr)
    (e : Endpoint P) :
    Except Fault (HookStatus × Endpoint P) := do
  let c := e.netState.retrieveWildcardConnection dstAppId
  if c ≠ 0 then
    let conn ← e.loadConn c
    let acceptQueue ←
      insertAcceptQueue conn.acceptQueue srcAppId srcHostId p
    let e := e.modifyConn c (fun conn =>
      { conn with acceptQueue })
    return (.hookDrop,
      { e with events := e.events ++ [(.acceptReady, c)] })
  else
    throw (.assertion "Failed to lookup connection")

/- `identifier_module::hook_ingress` -/
def hookIngress
    (fmt : PacketFormat P)
    (cfg : Config)
    (p : PacketPtr)
    (e : Endpoint P) :
    Except Fault (HookStatus × Endpoint P) :=
  let x := e.packets p
  if fmt.getInteger .dstHostId x ≠ e.myLocalHostId then
    .ok (.hookDrop, e)
  else
    let dstAppId := fmt.getWord .dstAppId x
    let srcAppId := fmt.getWord .srcAppId x
    let srcHostId := fmt.getInteger .srcHostId x
    let c := e.netState.retrieveConnection
      cfg.flowIdentifier dstAppId srcAppId srcHostId
    if c ≠ 0 then
      .ok (.hookContinue,
        e.modifyPacket p (fmt.setInteger .flowIdentifier c))
    else
      match cfg.flowIdentifier with
      | .dstIdentifiersOnly => .ok (.hookDrop, e)
      | .srcDstIdentifier =>
          ingressWildcard dstAppId srcAppId srcHostId p e

end IdentifierModule

end NetBlocks
