import NetBlocks.Lib.SwapRemoval
import NetBlocks.Runtime.IpcTransport

/-
  The hub behind the IPC transport: a process that relays what
  each client writes to all other clients.  The hub and its
  clients take turns in any order; between them are the queues
  of a sequenced-packet socket, one for each direction.

  Main declarations:
    * `Hub` and `Hub.Point`
    * `HubNet` and `HubMove`
    * `HubSteps`
-/

namespace NetBlocks

open SwapRemoval

------------------------------------------------------------
-- The Process
------------------------------------------------------------

/- The size of `buffer` -/
def hubBufferSize : Nat := 1600

/- The size of `fds` -/
def hubMaxFds : Nat := 256

/-
  Where the process is: at `select`, at the test for a new
  connection, at the head of the loop over the descriptors, or
  at the head of the loop that sends what it read.
-/
inductive Hub.Point where
| select
| accept (set : List Nat)
| scan (set : List Nat) (i : Nat)
| relay (set : List Nat) (i : Nat) (buffer : List Byte)
    (j : Nat)
deriving DecidableEq, Repr

/-
  The variables of `main`. The list `fds` is the first
  `fd_count` elements of the array.
-/
structure Hub where
  ipcSocket : Nat
  fds : List Nat
  point : Hub.Point
deriving DecidableEq, Repr

namespace Hub

/- `select` returned, with the descriptors that are ready. -/
def selected
    (set : List Nat)
    (h : Hub) : Hub :=
  { h with point := .accept set }

/- `accept` returned a new descriptor. -/
def accepted
    (set : List Nat)
    (newFd : Nat)
    (h : Hub) : Except Fault Hub :=
  if h.fds.length < hubMaxFds then
    .ok { h with
      fds := h.fds ++ [newFd]
      point := .scan set 0 }
  else
    .error .outOfBounds

/- The descriptor at `i` is done, or is not ready. -/
def scanned
    (set : List Nat)
    (i : Nat)
    (h : Hub) : Hub :=
  { h with point := .scan set i }

/-
  `read` returned a message, and so 0 for an empty one. Then
  the last descriptor takes the place of the closed one, and
  is looked at next.
-/
def received
    (set : List Nat)
    (i : Nat)
    (message : List Byte)
    (h : Hub) : Hub :=
  match message.take hubBufferSize with
  | [] =>
      { h with
        fds := removeAt h.fds i
        point := .scan set i }
  | buffer => { h with point := .relay set i buffer 0 }

/- The descriptor at `j` is served, or is the reader's own. -/
def relayed
    (set : List Nat)
    (i : Nat)
    (buffer : List Byte)
    (j : Nat)
    (h : Hub) : Hub :=
  { h with point := .relay set i buffer (j + 1) }

end Hub

------------------------------------------------------------
-- The Hub and Its Clients
------------------------------------------------------------

inductive ClientStatus where
| absent
| connected
| closed
deriving DecidableEq, Repr

/-
  The hub, the connections that wait to be accepted, the
  client behind each descriptor, and the packets on their way
  from and to each client.
-/
structure HubNet (C : Type) where
  hub : Hub
  backlog : List C
  peer : Nat → Option C
  status : C → ClientStatus
  up : C → List (List Byte)
  down : C → List (List Byte)

namespace HubNet

variable {C : Type}

/- The clients behind the descriptors of the hub -/
def peers
    (net : HubNet C) : List (Option C) :=
  net.hub.fds.map net.peer

/- The hub did not close the connection of a client. -/
def Attached
    (net : HubNet C)
    (c : C) : Prop :=
  some c ∈ net.peers ∨ c ∈ net.backlog

/- A `read` would return: a packet, or that the client left. -/
def Readable
    (net : HubNet C)
    (fd : Nat) : Prop :=
  ∃ c, net.peer fd = some c ∧
    (net.up c ≠ [] ∨ net.status c = .closed)

/- What `select` reports -/
def Ready
    (net : HubNet C)
    (fd : Nat) : Prop :=
  (fd = net.hub.ipcSocket ∧ net.backlog ≠ []) ∨
    (fd ∈ net.hub.fds ∧ net.Readable fd)

/- The hub listens, and nobody has connected yet. -/
def start (ipcSocket : Nat) : HubNet C :=
  { hub :=
      { ipcSocket := ipcSocket
        fds := []
        point := .select }
    backlog := []
    peer := fun _ => none
    status := fun _ => .absent
    up := fun _ => []
    down := fun _ => [] }

end HubNet

/-
  What a client or the hub does. A client connects, writes
  with `nb__send_packet`, polls a packet and closes its
  socket. The other moves are those of the hub.
-/
inductive HubMove (C : Type) where
| connect (c : C)
| write (c : C) (message : List Byte)
| poll (c : C) (packet : List Byte)
| close (c : C)
| select (set : List Nat)
| accept (fd : Nat) (c : C)
| noAccept
| skip (fd : Nat)
| read (fd : Nat) (c : C) (message : List Byte)
| hangUp (fd : Nat) (c : C)
| readFails (fd : Nat)
| send (fd : Nat)
| skipOwn
| relayEnd
| scanEnd

section Steps

variable {C : Type} [DecidableEq C]

/- A client that closed its socket receives nothing. -/
def HubNet.sendTo
    (c : C)
    (buffer : List Byte)
    (net : HubNet C) : C → List (List Byte) :=
  if net.status c = .closed then
    net.down
  else
    Function.update net.down c (net.down c ++ [buffer])

/- One step of a client or of the hub -/
inductive HubSteps :
    HubNet C → HubMove C → HubNet C → Prop where
| connect {net : HubNet C} {c : C} :
    net.status c = .absent →
      HubSteps net (.connect c)
        { net with
          status := Function.update net.status c .connected
          backlog := net.backlog ++ [c] }
| write {net : HubNet C} {c : C} {message : List Byte} :
    net.status c = .connected → net.Attached c →
      HubSteps net (.write c message)
        { net with
          up := Function.update net.up c
            (net.up c ++ [message]) }
  -- `nb__poll_packet` reads at most `IPC_MTU` bytes
| poll {net : HubNet C} {c : C} {message : List Byte}
    {rest : List (List Byte)} :
    net.status c = .connected →
    net.down c = message :: rest →
      HubSteps net (.poll c (message.take ipcMtu))
        { net with down := Function.update net.down c rest }
| close {net : HubNet C} {c : C} :
    net.status c = .connected →
      HubSteps net (.close c)
        { net with
          status := Function.update net.status c .closed }
| select {net : HubNet C} {set : List Nat} :
    net.hub.point = .select → set ≠ [] →
    (∀ fd, fd ∈ set ↔ net.Ready fd) →
      HubSteps net (.select set)
        { net with hub := net.hub.selected set }
  -- the kernel picks a descriptor that is not in use
| accept {net : HubNet C} {set : List Nat} {newFd : Nat}
    {c : C} {rest : List C} {hub : Hub} :
    net.hub.point = .accept set →
    net.hub.ipcSocket ∈ set →
    net.backlog = c :: rest →
    newFd ∉ net.hub.fds → newFd ≠ net.hub.ipcSocket →
    net.hub.accepted set newFd = .ok hub →
      HubSteps net (.accept newFd c)
        { net with
          hub := hub
          backlog := rest
          peer := Function.update net.peer newFd (some c) }
| noAccept {net : HubNet C} {set : List Nat} :
    net.hub.point = .accept set →
    net.hub.ipcSocket ∉ set →
      HubSteps net .noAccept
        { net with hub := net.hub.scanned set 0 }
| skip {net : HubNet C} {set : List Nat} {i fd : Nat} :
    net.hub.point = .scan set i →
    net.hub.fds[i]? = some fd → fd ∉ set →
      HubSteps net (.skip fd)
        { net with hub := net.hub.scanned set (i + 1) }
| read {net : HubNet C} {set : List Nat} {i fd : Nat}
    {c : C} {message : List Byte}
    {rest : List (List Byte)} :
    net.hub.point = .scan set i →
    net.hub.fds[i]? = some fd → fd ∈ set →
    net.peer fd = some c →
    net.up c = message :: rest → message ≠ [] →
      HubSteps net (.read fd c message)
        { net with
          hub := net.hub.received set i message
          up := Function.update net.up c rest }
  -- the client left, or it wrote an empty message
| hangUp {net : HubNet C} {set : List Nat} {i fd : Nat}
    {c : C} :
    net.hub.point = .scan set i →
    net.hub.fds[i]? = some fd → fd ∈ set →
    net.peer fd = some c →
    (net.up c = [] ∧ net.status c = .closed ∨
      (net.up c).head? = some []) →
      HubSteps net (.hangUp fd c)
        { net with hub := net.hub.received set i [] }
  -- the client left packets behind: `read` returns -1, and
  -- each `send` of that length fails too
| readFails {net : HubNet C} {set : List Nat} {i fd : Nat}
    {c : C} :
    net.hub.point = .scan set i →
    net.hub.fds[i]? = some fd → fd ∈ set →
    net.peer fd = some c →
    net.status c = .closed → net.down c ≠ [] →
      HubSteps net (.readFails fd)
        { net with hub := net.hub.scanned set (i + 1) }
| skipOwn {net : HubNet C} {set : List Nat} {i : Nat}
    {buffer : List Byte} :
    net.hub.point = .relay set i buffer i →
    i < net.hub.fds.length →
      HubSteps net .skipOwn
        { net with hub := net.hub.relayed set i buffer i }
| send {net : HubNet C} {set : List Nat} {i j fd : Nat}
    {buffer : List Byte} {c : C} :
    net.hub.point = .relay set i buffer j → i ≠ j →
    net.hub.fds[j]? = some fd → net.peer fd = some c →
      HubSteps net (.send fd)
        { net with
          hub := net.hub.relayed set i buffer j
          down := net.sendTo c buffer }
| relayEnd {net : HubNet C} {set : List Nat} {i j : Nat}
    {buffer : List Byte} :
    net.hub.point = .relay set i buffer j →
    net.hub.fds.length ≤ j →
      HubSteps net .relayEnd
        { net with hub := net.hub.scanned set (i + 1) }
| scanEnd {net : HubNet C} {set : List Nat} {i : Nat} :
    net.hub.point = .scan set i →
    net.hub.fds.length ≤ i →
      HubSteps net .scanEnd
        { net with hub := { net.hub with point := .select } }

end Steps

end NetBlocks
