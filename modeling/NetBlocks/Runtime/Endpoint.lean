import NetBlocks.Runtime.Timer

/-
  The state of one process that runs the stack: connection
  objects, the connection table, packet buffers, timers, and
  what was handed to the transport and to the user.

  Main declarations:
    * `Config`
    * `Connection` and its queues
    * `NetState`
    * `Endpoint`
-/

------------------------------------------------------------
-- Configuration
------------------------------------------------------------

namespace NetBlocks

/- `identifier_module::flow_identifier_t` -/
inductive FlowIdentifier where
| dstIdentifiersOnly
| srcDstIdentifier
deriving DecidableEq, Repr

/- `inorder_module::inorder_strategy_t` -/
inductive InorderStrategy where
| dropOutOfOrder
| holdForever
| noInorder
deriving DecidableEq, Repr

/-
  The options the modules are generated with, in the
  NO_COMPAT configuration.
-/
structure Config where
  flowIdentifier : FlowIdentifier
  inorderStrategy : InorderStrategy
  reliableEnabled : Bool
  signalingEnabled : Bool
  routingEnabled : Bool
  checksumEnabled : Bool
deriving DecidableEq, Repr

------------------------------------------------------------
-- Queues
------------------------------------------------------------

/- `MAX_DATA_QUEUE_ELEMS` -/
def maxDataQueueElems : Nat := 512

/- `MAX_ACCEPT_QUEUE_ELEMS` -/
def maxAcceptQueueElems : Nat := 512

/-
  A data queue holds the packets whose payload is to be
  read, and the length of each payload.
-/
abbrev DataQueue := List (PacketPtr × Int)

/- `nb__insert_data_queue` -/
def insertDataQueue
    (q : DataQueue)
    (buff : PacketPtr)
    (len : Int) : Except Fault DataQueue :=
  if q.length < maxDataQueueElems then
    .ok (q ++ [(buff, len)])
  else
    .error .outOfBounds

/- One entry of the three arrays of an accept queue. -/
structure AcceptEntry where
  srcAppId : BitVec 32
  srcHostId : BitVec 64
  packet : PacketPtr
deriving DecidableEq, Repr

abbrev AcceptQueue := List AcceptEntry

/- `nb__insert_accept_queue` -/
def insertAcceptQueue
    (q : AcceptQueue)
    (srcAppId : BitVec 32)
    (srcHostId : BitVec 64)
    (packet : PacketPtr) : Except Fault AcceptQueue :=
  if q.length < maxAcceptQueueElems then
    .ok (q ++ [⟨srcAppId, srcHostId, packet⟩])
  else
    .error .outOfBounds

------------------------------------------------------------
-- Connections
------------------------------------------------------------

/- `signaling_module::signaling_state_t` -/
inductive SignalingState where
| waitingForSignal
| signaled
| signalHandled
| signalNa
deriving DecidableEq, Repr

/- Both packet buffers of a connection have 32 slots. -/
abbrev Slot := Fin 32

/- The slot of a sequence number. -/
def slot
    (sequence : BitVec 32) : Slot :=
  ⟨sequence.toNat % 32, Nat.mod_lt _ (by decide)⟩

/- `nb__connection_t` -/
structure Connection where
  remoteHostId : BitVec 64
  remoteAppId : BitVec 32
  localAppId : BitVec 32
  inputQueue : DataQueue
  acceptQueue : AcceptQueue
  lastSentSequence : BitVec 32
  lastRecvSequence : BitVec 32
  inorderBuffer : Slot → Option PacketPtr
  maxOooSequence : BitVec 32
  redeliveryBuffer : Slot → Option PacketPtr
  signalingState : SignalingState
  dstGlobalId : BitVec 32

/- `MAX_ACTIVE_CONNECTIONS` -/
def maxActiveConnections : Nat := 512

/- `struct routing_table_entry` -/
structure RoutingTableEntry where
  globalId : BitVec 32
  localId : BitVec 64
deriving DecidableEq, Repr

/-
  `nb__net_state_t`: the connection table, as parallel
  arrays of 512 entries of which the first `numConn` are in
  use, and the routing table.
-/
structure NetState where
  numConn : Nat
  activeLocalAppIds : Nat → BitVec 32
  activeRemoteAppIds : Nat → BitVec 32
  activeRemoteHostIds : Nat → BitVec 64
  activeConnections : Nat → ConnPtr
  routingTable : Option (List RoutingTableEntry)

------------------------------------------------------------
-- Endpoints
------------------------------------------------------------

/- The events a connection's callback is called with. -/
inductive QueueEvent where
| established
| readReady
| acceptReady
deriving DecidableEq, Repr

/-
  A process. `packets` is the memory the packet buffers are
  taken from: a buffer that is requested or polled starts at
  `nextPacket` and holds whatever was there. `out` lists the
  packets handed to `nb__send_packet`, with their sizes, and
  `events` the callbacks made, both in order.
-/
structure Endpoint (P : Type) where
  timers : TimerPool
  timeNow : BitVec 64
  myHostId : BitVec 32
  myLocalHostId : BitVec 64
  netState : NetState
  conns : ConnPtr → Option Connection
  packets : PacketPtr → P
  nextPacket : PacketPtr
  out : List (P × BitVec 32)
  events : List (QueueEvent × ConnPtr)

namespace Endpoint

variable {P : Type}

/- Dereference a connection pointer. -/
def loadConn
    (e : Endpoint P)
    (c : ConnPtr) : Except Fault Connection :=
  match e.conns c with
  | none => .error .danglingPointer
  | some conn => .ok conn

/- Assign fields of the connection at `c`. -/
def modifyConn
    (e : Endpoint P)
    (c : ConnPtr)
    (assign : Connection → Connection) : Endpoint P :=
  { e with
    conns := Function.update e.conns c
      ((e.conns c).map assign) }

/- Write to the packet buffer at `p`. -/
def modifyPacket
    (e : Endpoint P)
    (p : PacketPtr)
    (write : P → P) : Endpoint P :=
  { e with
    packets := Function.update e.packets p
      (write (e.packets p)) }

/- `nb__request_send_buffer` -/
def requestSendBuffer
    (e : Endpoint P) : PacketPtr × Endpoint P :=
  (e.nextPacket, { e with nextPacket := e.nextPacket + 1 })

/- `nb__send_packet` -/
def sendPacket
    (e : Endpoint P)
    (p : PacketPtr)
    (size : BitVec 32) : Endpoint P :=
  { e with out := e.out ++ [(e.packets p, size)] }

------------------------------------------------------------
-- Assignments in Normal Form
------------------------------------------------------------

/- Replace the connection at `c`. -/
def setConn
    (e : Endpoint P)
    (c : ConnPtr)
    (conn : Connection) : Endpoint P :=
  { e with conns := Function.update e.conns c (some conn) }

/- Replace the packet at `p`. -/
def setPacket
    (e : Endpoint P)
    (p : PacketPtr)
    (x : P) : Endpoint P :=
  { e with packets := Function.update e.packets p x }

theorem loadConn_eq_ok_iff
    {e : Endpoint P}
    {c : ConnPtr}
    {conn : Connection} :
    e.loadConn c = .ok conn ↔ e.conns c = some conn := by
  unfold loadConn
  cases e.conns c <;> simp

theorem loadConn_of_some
    {e : Endpoint P}
    {c : ConnPtr}
    {conn : Connection}
    (hConn : e.conns c = some conn) :
    e.loadConn c = .ok conn :=
  loadConn_eq_ok_iff.mpr hConn

theorem loadConn_of_none
    {e : Endpoint P}
    {c : ConnPtr}
    (hConn : e.conns c = none) :
    e.loadConn c = .error .danglingPointer := by
  rw [loadConn, hConn]

theorem modifyConn_eq
    {e : Endpoint P}
    {c : ConnPtr}
    {conn : Connection}
    (hConn : e.conns c = some conn)
    (assign : Connection → Connection) :
    e.modifyConn c assign = e.setConn c (assign conn) := by
  rw [modifyConn, hConn]
  rfl

theorem modifyPacket_eq
    (e : Endpoint P)
    (p : PacketPtr)
    (write : P → P) :
    e.modifyPacket p write =
      e.setPacket p (write (e.packets p)) :=
  rfl

@[simp] theorem setConn_conns_self
    (e : Endpoint P)
    (c : ConnPtr)
    (conn : Connection) :
    (e.setConn c conn).conns c = some conn := by
  simp [setConn]

theorem setConn_conns_of_ne
    (e : Endpoint P)
    {c d : ConnPtr}
    (conn : Connection)
    (hNe : d ≠ c) :
    (e.setConn c conn).conns d = e.conns d := by
  simp [setConn, hNe]

@[simp] theorem setConn_loadConn
    (e : Endpoint P)
    (c : ConnPtr)
    (conn : Connection) :
    (e.setConn c conn).loadConn c = .ok conn := by
  simp [loadConn]

@[simp] theorem setConn_setConn
    (e : Endpoint P)
    (c : ConnPtr)
    (conn conn' : Connection) :
    (e.setConn c conn).setConn c conn' =
      e.setConn c conn' := by
  simp [setConn]

@[simp] theorem setConn_modifyConn
    (e : Endpoint P)
    (c : ConnPtr)
    (conn : Connection)
    (assign : Connection → Connection) :
    (e.setConn c conn).modifyConn c assign =
      e.setConn c (assign conn) := by
  rw [modifyConn_eq (setConn_conns_self e c conn),
    setConn_setConn]

theorem setConn_self
    {e : Endpoint P}
    {c : ConnPtr}
    {conn : Connection}
    (hConn : e.conns c = some conn) :
    e.setConn c conn = e := by
  simp [setConn, ← hConn]

@[simp] theorem setPacket_packets_self
    (e : Endpoint P)
    (p : PacketPtr)
    (x : P) :
    (e.setPacket p x).packets p = x := by
  simp [setPacket]

theorem setPacket_packets_of_ne
    (e : Endpoint P)
    {p q : PacketPtr}
    (x : P)
    (hNe : q ≠ p) :
    (e.setPacket p x).packets q = e.packets q := by
  simp [setPacket, hNe]

@[simp] theorem setPacket_setPacket
    (e : Endpoint P)
    (p : PacketPtr)
    (x y : P) :
    (e.setPacket p x).setPacket p y = e.setPacket p y := by
  simp [setPacket]

@[simp] theorem setPacket_self
    (e : Endpoint P)
    (p : PacketPtr) :
    e.setPacket p (e.packets p) = e := by
  simp [setPacket]

@[simp] theorem setPacket_conns
    (e : Endpoint P)
    (p : PacketPtr)
    (x : P) :
    (e.setPacket p x).conns = e.conns :=
  rfl

@[simp] theorem setPacket_loadConn
    (e : Endpoint P)
    (p : PacketPtr)
    (x : P)
    (c : ConnPtr) :
    (e.setPacket p x).loadConn c = e.loadConn c :=
  rfl

@[simp] theorem setPacket_timers
    (e : Endpoint P)
    (p : PacketPtr)
    (x : P) :
    (e.setPacket p x).timers = e.timers :=
  rfl

@[simp] theorem setPacket_netState
    (e : Endpoint P)
    (p : PacketPtr)
    (x : P) :
    (e.setPacket p x).netState = e.netState :=
  rfl

@[simp] theorem setPacket_nextPacket
    (e : Endpoint P)
    (p : PacketPtr)
    (x : P) :
    (e.setPacket p x).nextPacket = e.nextPacket :=
  rfl

@[simp] theorem setConn_packets
    (e : Endpoint P)
    (c : ConnPtr)
    (conn : Connection) :
    (e.setConn c conn).packets = e.packets :=
  rfl

@[simp] theorem setConn_timers
    (e : Endpoint P)
    (c : ConnPtr)
    (conn : Connection) :
    (e.setConn c conn).timers = e.timers :=
  rfl

@[simp] theorem setConn_netState
    (e : Endpoint P)
    (c : ConnPtr)
    (conn : Connection) :
    (e.setConn c conn).netState = e.netState :=
  rfl

@[simp] theorem setConn_nextPacket
    (e : Endpoint P)
    (c : ConnPtr)
    (conn : Connection) :
    (e.setConn c conn).nextPacket = e.nextPacket :=
  rfl

@[simp] theorem setPacket_myHostId
    (e : Endpoint P)
    (p : PacketPtr)
    (x : P) :
    (e.setPacket p x).myHostId = e.myHostId :=
  rfl

@[simp] theorem setConn_myHostId
    (e : Endpoint P)
    (c : ConnPtr)
    (conn : Connection) :
    (e.setConn c conn).myHostId = e.myHostId :=
  rfl

@[simp] theorem setPacket_myLocalHostId
    (e : Endpoint P)
    (p : PacketPtr)
    (x : P) :
    (e.setPacket p x).myLocalHostId = e.myLocalHostId :=
  rfl

@[simp] theorem setConn_myLocalHostId
    (e : Endpoint P)
    (c : ConnPtr)
    (conn : Connection) :
    (e.setConn c conn).myLocalHostId = e.myLocalHostId :=
  rfl

@[simp] theorem setPacket_timeNow
    (e : Endpoint P)
    (p : PacketPtr)
    (x : P) :
    (e.setPacket p x).timeNow = e.timeNow :=
  rfl

@[simp] theorem setConn_timeNow
    (e : Endpoint P)
    (c : ConnPtr)
    (conn : Connection) :
    (e.setConn c conn).timeNow = e.timeNow :=
  rfl

@[simp] theorem setPacket_out
    (e : Endpoint P)
    (p : PacketPtr)
    (x : P) :
    (e.setPacket p x).out = e.out :=
  rfl

@[simp] theorem setConn_out
    (e : Endpoint P)
    (c : ConnPtr)
    (conn : Connection) :
    (e.setConn c conn).out = e.out :=
  rfl

@[simp] theorem setPacket_events
    (e : Endpoint P)
    (p : PacketPtr)
    (x : P) :
    (e.setPacket p x).events = e.events :=
  rfl

@[simp] theorem setConn_events
    (e : Endpoint P)
    (c : ConnPtr)
    (conn : Connection) :
    (e.setConn c conn).events = e.events :=
  rfl

/- Connections and packets are assigned independently. -/
theorem setPacket_setConn
    (e : Endpoint P)
    (p : PacketPtr)
    (x : P)
    (c : ConnPtr)
    (conn : Connection) :
    (e.setPacket p x).setConn c conn =
      (e.setConn c conn).setPacket p x :=
  rfl

end Endpoint

end NetBlocks
