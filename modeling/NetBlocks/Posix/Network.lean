import NetBlocks.Core.Dispatch

/-
  The POSIX interface: sockets as file descriptors, on top of
  the API.

  Main declarations:
    * `FdTables` and `Posix`
    * `mainLoopStep`
    * `findFreePort`
    * `nbpSocket`, `nbpConnect`, `nbpBind`, `nbpAccept`
    * `nbpClose` and `nbpSelect`
-/

namespace NetBlocks

variable {P : Type}

------------------------------------------------------------
-- Tables
------------------------------------------------------------

/- `MAX_FDS` -/
def maxFds : Nat := 256

/-
  The static tables, by file descriptor. `portOccupied` is
  indexed by port number less 8000. `userData` is the member
  of the connection object, which only this layer uses.
-/
structure FdTables where
  fdTable : Nat → ConnPtr
  nbFd : Nat → Bool
  fdAcceptCounter : Nat → BitVec 32
  fdEstablishStatus : Nat → Bool
  portOccupied : Nat → Bool
  fdSrcPort : Nat → BitVec 16
  userData : ConnPtr → Nat

/- The tables are zero at the start of the program. -/
def FdTables.zero : FdTables where
  fdTable := fun _ => 0
  nbFd := fun _ => false
  fdAcceptCounter := fun _ => 0
  fdEstablishStatus := fun _ => false
  portOccupied := fun _ => false
  fdSrcPort := fun _ => 0
  userData := fun _ => 0

/- A process that uses the POSIX interface. -/
abbrev Posix (P : Type) := Endpoint P × FdTables

/- An access to one of the tables. -/
def checkFd
    (fd : Nat) : Except Fault Unit :=
  if fd < maxFds then
    .ok ()
  else
    .error .outOfBounds

/-
  `grab_free_fd`, where `open` returned `fd`.
-/
def grabFreeFd
    (fd : Nat)
    (t : FdTables) : Except Fault FdTables := do
  checkFd fd
  if t.nbFd fd then
    throw (.assertion "nb_fd[fd] == 0")
  else
    return { t with nbFd := Function.update t.nbFd fd true }

/- `nb__set_user_data` -/
def setUserData
    (c : ConnPtr)
    (fd : Nat)
    (s : Posix P) : Except Fault (Posix P) := do
  let _ ← s.1.loadConn c
  return (s.1,
    { s.2 with
      userData := Function.update s.2.userData c fd })

------------------------------------------------------------
-- Events
------------------------------------------------------------

/- `nb_posix_common_callback` -/
def posixCallback : Callback P FdTables
| .acceptReady, c, s => do
    let _ ← s.1.loadConn c
    let fd := s.2.userData c
    checkFd fd
    return (s.1,
      { s.2 with
        fdAcceptCounter :=
          Function.update s.2.fdAcceptCounter fd
            (s.2.fdAcceptCounter fd + 1) })
| .established, c, s => do
    let _ ← s.1.loadConn c
    let fd := s.2.userData c
    checkFd fd
    return (s.1,
      { s.2 with
        fdEstablishStatus :=
          Function.update s.2.fdEstablishStatus fd true })
| .readReady, _, s => .ok s

/-
  The callbacks made inside a call of the API. They write to
  the tables only, so they may as well run after it.
-/
def raiseEvents :
    List (QueueEvent × ConnPtr) → Posix P →
      Except Fault (Posix P)
| [], s => .ok s
| (event, c) :: events, s => do
    let s ← posixCallback event c s
    raiseEvents events s

/- A call of the API, with the callbacks made inside it. -/
def callApi
    (e : Endpoint P)
    (s : Posix P) : Except Fault (Posix P) :=
  raiseEvents (e.events.drop s.1.events.length) (e, s.2)

/-
  What the outside does in one step of the main loop: the
  time that the clock returns, and the packet received, if
  there is one.
-/
structure StepInput (P : Type) where
  now : BitVec 64
  packet : Option (P × Int)

/- Poll for a packet, and run the ingress path on it. -/
def pollStep
    (fmt : PacketFormat P)
    (cfg : Config)
    (packet : Option (P × Int))
    (s : Posix P) : Except Fault (Posix P) :=
  match packet with
  | none => .ok s
  | some (x, len) => do
      let e ← ingress fmt cfg x len s.1
      callApi e s

/- `nb__main_loop_step` -/
def mainLoopStep
    (fmt : PacketFormat P)
    (cfg : Config)
    (input : StepInput P)
    (s : Posix P) : Except Fault (Posix P) := do
  let s ← pollStep fmt cfg input.packet
    (tick input.now s.1, s.2)
  let s ← cycleConnections posixCallback s
  let e ← checkTimers fmt s.1
  return (e, s.2)

------------------------------------------------------------
-- Sockets
------------------------------------------------------------

/- `nbp_socket`, where `open` returned `fd`. -/
def nbpSocket
    (fd : Nat)
    (s : Posix P) : Except Fault (Posix P) := do
  let t ← grabFreeFd fd s.2
  return (s.1,
    { t with
      fdTable := Function.update t.fdTable fd 0
      fdAcceptCounter :=
        Function.update t.fdAcceptCounter fd 0
      fdEstablishStatus :=
        Function.update t.fdEstablishStatus fd false
      fdSrcPort := Function.update t.fdSrcPort fd 0 })

/- The ports that can be assigned, 8080 up to 9999. -/
def assignablePorts : List Nat :=
  List.range' 8080 1920

/- `find_free_port` -/
def findFreePort
    (occupied : Nat → Bool) :
    Except Fault (Nat × (Nat → Bool)) :=
  match assignablePorts.find? (fun i =>
      !occupied (i - 8000)) with
  | some i => .ok (i, Function.update occupied (i - 8000) true)
  | none => .error (.assertion "0")

/-
  The loop of `nbp_connect`, which only ends once the
  connection is established.
-/
def awaitEstablished
    (fmt : PacketFormat P)
    (cfg : Config)
    (fd : Nat) :
    List (StepInput P) → Posix P → Except Fault (Posix P)
| [], s =>
    if s.2.fdEstablishStatus fd then
      .ok s
    else
      .error .diverges
| input :: inputs, s =>
    if s.2.fdEstablishStatus fd then
      .ok s
    else do
      let s ← mainLoopStep fmt cfg input s
      awaitEstablished fmt cfg fd inputs s

/-
  Establish the connection of a socket, at the address `c`
  with the contents `fresh`.
-/
def establishFd
    (fmt : PacketFormat P)
    (cfg : Config)
    (fd : Nat)
    (c : ConnPtr)
    (fresh : Connection)
    (h a sa : BitVec 32)
    (s : Posix P) : Except Fault (Posix P) := do
  if s.2.fdTable fd ≠ 0 then
    throw (.assertion "fd_table[sockfd] == NULL")
  else
    let e ← nbEstablish fmt cfg c fresh h a sa s.1
    let s ← callApi e s
    let t :=
      { s.2 with fdTable := Function.update s.2.fdTable fd c }
    setUserData c fd (s.1, t)

/- `nbp_connect` -/
def nbpConnect
    (fmt : PacketFormat P)
    (cfg : Config)
    (fd : Nat)
    (dstAddr : BitVec 32)
    (sinPort : BitVec 16)
    (c : ConnPtr)
    (fresh : Connection)
    (inputs : List (StepInput P))
    (s : Posix P) : Except Fault (Posix P) := do
  checkFd fd
  if s.2.nbFd fd then
    let (port, portOccupied) ← findFreePort s.2.portOccupied
    let s ← establishFd fmt cfg fd c fresh dstAddr
      (sinPort.setWidth 32) (BitVec.ofNat 32 port)
      (s.1, { s.2 with portOccupied })
    awaitEstablished fmt cfg fd inputs s
  else
    -- this fd does not belong to us
    return s

/- `nbp_bind` -/
def nbpBind
    (fmt : PacketFormat P)
    (cfg : Config)
    (fd : Nat)
    (sinPort : BitVec 16)
    (c : ConnPtr)
    (fresh : Connection)
    (input : StepInput P)
    (s : Posix P) : Except Fault (Posix P) := do
  checkFd fd
  if s.2.nbFd fd then
    let s ← establishFd fmt cfg fd c fresh
      (wildcardHostIdentifier.setWidth 32) 0
      (sinPort.setWidth 32) s
    mainLoopStep fmt cfg input s
  else
    return s

/- The loop of `nbp_accept`. -/
def awaitAccept
    (fmt : PacketFormat P)
    (cfg : Config)
    (fd : Nat) :
    List (StepInput P) → Posix P → Except Fault (Posix P)
| [], s =>
    if s.2.fdAcceptCounter fd ≠ 0 then
      .ok s
    else
      .error .diverges
| input :: inputs, s =>
    if s.2.fdAcceptCounter fd ≠ 0 then
      .ok s
    else do
      let s ← mainLoopStep fmt cfg input s
      awaitAccept fmt cfg fd inputs s

/-
  The part of `nbp_accept` behind its loop, where `open`
  returned `newFd`.
-/
def acceptFd
    (fmt : PacketFormat P)
    (cfg : Config)
    (fd newFd : Nat)
    (c : ConnPtr)
    (fresh : Connection)
    (fuel : Nat)
    (s : Posix P) : Except Fault (Posix P) := do
  let t ← grabFreeFd newFd s.2
  let (accepted, e) ←
    nbAccept fmt cfg (t.fdTable fd) c fresh fuel s.1
  let s ← callApi e (s.1, t)
  let t :=
    { s.2 with
      fdTable := Function.update s.2.fdTable newFd accepted
      fdAcceptCounter :=
        Function.update s.2.fdAcceptCounter fd
          (s.2.fdAcceptCounter fd - 1) }
  setUserData accepted newFd (s.1, t)

/- What `nbp_accept` returns of the peer in `addr`. -/
structure SockAddr where
  sinPort : BitVec 16
  sAddr : BitVec 32
deriving DecidableEq, Repr

/- `nbp_accept` -/
def nbpAccept
    (fmt : PacketFormat P)
    (cfg : Config)
    (fd newFd : Nat)
    (c : ConnPtr)
    (fresh : Connection)
    (fuel : Nat)
    (inputs : List (StepInput P))
    (input : StepInput P)
    (s : Posix P) :
    Except Fault (Option SockAddr × Posix P) := do
  checkFd fd
  if s.2.nbFd fd then
    let s ← awaitAccept fmt cfg fd inputs s
    let s ← acceptFd fmt cfg fd newFd c fresh fuel s
    let s ← mainLoopStep fmt cfg input s
    let conn ← s.1.loadConn (s.2.fdTable newFd)
    return (some
      { sinPort := conn.remoteAppId.setWidth 16
        sAddr := conn.remoteHostId.setWidth 32 }, s)
  else
    return (none, s)

/- `nbp_close` -/
def nbpClose
    (cfg : Config)
    (fd : Nat)
    (s : Posix P) : Except Fault (Posix P) := do
  checkFd fd
  if s.2.nbFd fd then
    let e ← nbDestablish cfg (s.2.fdTable fd) s.1
    let port := (s.2.fdSrcPort fd).toNat
    return (e,
      { s.2 with
        portOccupied :=
          Function.update s.2.portOccupied port false
        fdTable := Function.update s.2.fdTable fd 0
        nbFd := Function.update s.2.nbFd fd false })
  else
    return s

------------------------------------------------------------
-- Waiting for Sockets
------------------------------------------------------------

/- What `nbp_select` found an fd ready for. -/
inductive ReadyFor where
| accept (fd : Nat)
| read (fd : Nat)
deriving DecidableEq, Repr

/- The inner loop of `nbp_select`. -/
def findReady
    (s : Posix P) :
    List Nat → Except Fault (Option ReadyFor)
| [] => .ok none
| fd :: fds => do
    checkFd fd
    if s.2.fdAcceptCounter fd ≠ 0 then
      return some (.accept fd)
    else
      let conn ← s.1.loadConn (s.2.fdTable fd)
      if conn.inputQueue ≠ [] then
        return some (.read fd)
      else
        findReady s fds

/- The outer loop, with `n` rounds left. -/
def selectLoop
    (fmt : PacketFormat P)
    (cfg : Config)
    (fds : List Nat)
    (input : Nat → StepInput P) :
    Nat → Posix P →
      Except Fault (Option ReadyFor × Posix P)
| 0, s => .ok (none, s)
| n + 1, s => do
    let s ← mainLoopStep fmt cfg (input n) s
    match ← findReady s fds with
    | some ready => return (some ready, s)
    | none => selectLoop fmt cfg fds input n s

/-
  `nbp_select` on the fds that are set in `readfds`.
-/
def nbpSelect
    (fmt : PacketFormat P)
    (cfg : Config)
    (fds : List Nat)
    (input : Nat → StepInput P)
    (s : Posix P) :
    Except Fault (Option ReadyFor × Posix P) :=
  selectLoop fmt cfg fds input 1000 s

end NetBlocks
