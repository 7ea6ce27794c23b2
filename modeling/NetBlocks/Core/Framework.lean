import NetBlocks.Modules.Acknowledge

/-
  The ingress, establish, and destablish paths, and the API
  functions of the interface module and the runtime.

  Main declarations:
    * `runIngressPath`
    * `nbNetInit`, `nbEstablish`, and `nbDestablish`
    * `nbSend`, `nbRead`, and `nbAccept`
    * `checkTimers`
-/

namespace NetBlocks

variable {P : Type}

------------------------------------------------------------
-- Paths
------------------------------------------------------------

/- `hook_ingress` of each module. -/
def hookIngress
    (fmt : PacketFormat P)
    (cfg : Config)
    (p : PacketPtr) :
    Module → Endpoint P →
      Except Fault (HookStatus × Endpoint P)
| .payload => PayloadModule.hookIngress fmt p
| .signaling => SignalingModule.hookIngress fmt p
| .inorder => InorderModule.hookIngress fmt cfg p
| .reliable => ReliableModule.hookIngress fmt cfg p
| .identifier => IdentifierModule.hookIngress fmt cfg p
| .signalingAfter => fun e => .ok (.hookContinue, e)
| .routing => fun e => .ok (.hookContinue, e)
| .checksum => ChecksumModule.hookIngress fmt p
| .network => NetworkModule.hookIngress fmt p

/-
  `framework::run_ingress_path`: the modules in the reverse
  of the order they are registered in.
-/
def runIngressPath
    (fmt : PacketFormat P)
    (cfg : Config)
    (p : PacketPtr)
    (e : Endpoint P) :
    Except Fault (Endpoint P) := do
  let (_, e) ← runHooks (hookIngress fmt cfg p)
    (registeredModules cfg).reverse e
  return e

/- `hook_establish` of each module. -/
def hookEstablish
    (fmt : PacketFormat P)
    (cfg : Config)
    (c : ConnPtr)
    (h a sa : BitVec 32) :
    Module → Endpoint P →
      Except Fault (HookStatus × Endpoint P)
| .inorder => InorderModule.hookEstablish cfg c
| .reliable => ReliableModule.hookEstablish c
| .identifier => IdentifierModule.hookEstablish c h a sa
| .signalingAfter =>
    SignalingModuleAfter.hookEstablish fmt cfg c h a
| .routing => RoutingModule.hookEstablish c sa
| _ => fun e => .ok (.hookContinue, e)

/- `framework::run_establish_path` -/
def runEstablishPath
    (fmt : PacketFormat P)
    (cfg : Config)
    (c : ConnPtr)
    (h a sa : BitVec 32)
    (e : Endpoint P) :
    Except Fault (Endpoint P) := do
  let (_, e) ← runHooks (hookEstablish fmt cfg c h a sa)
    (registeredModules cfg) e
  return e

/- `hook_destablish` of each module. -/
def hookDestablish
    (cfg : Config)
    (c : ConnPtr) :
    Module → Endpoint P →
      Except Fault (HookStatus × Endpoint P)
| .identifier => IdentifierModule.hookDestablish cfg c
| _ => fun e => .ok (.hookContinue, e)

/- `framework::run_destablish_path` -/
def runDestablishPath
    (cfg : Config)
    (c : ConnPtr)
    (e : Endpoint P) :
    Except Fault (Endpoint P) := do
  let (_, e) ← runHooks (hookDestablish cfg c)
    (registeredModules cfg) e
  return e

------------------------------------------------------------
-- Generated API
------------------------------------------------------------

/-
  `nb__net_init`. `fresh` is what `malloc` returns for the
  connection table.
-/
def nbNetInit
    (fresh : NetState)
    (e : Endpoint P) : Endpoint P :=
  IdentifierModule.hookNetInit
    { e with
      timers := e.timers.initTimers
      netState := fresh }

/-
  `nb__establish`, where `malloc` returns the address `c` of
  an object with the contents `fresh`.
-/
def nbEstablish
    (fmt : PacketFormat P)
    (cfg : Config)
    (c : ConnPtr)
    (fresh : Connection)
    (h a sa : BitVec 32)
    (e : Endpoint P) :
    Except Fault (Endpoint P) :=
  runEstablishPath fmt cfg c h a sa
    { e with
      conns := Function.update e.conns c (some fresh) }

/- `nb__destablish` -/
def nbDestablish
    (cfg : Config)
    (c : ConnPtr)
    (e : Endpoint P) :
    Except Fault (Endpoint P) := do
  let e ← runDestablishPath cfg c e
  return { e with conns := Function.update e.conns c none }

/- `nb__send` -/
def nbSend
    (fmt : PacketFormat P)
    (cfg : Config)
    (c : ConnPtr)
    (buff : List Byte)
    (e : Endpoint P) :
    Except Fault (Nat × Endpoint P) :=
  runSendPath fmt cfg c buff e

/-
  `nb__run_ingress_step`. The length of the received packet
  is not passed on.
-/
def nbRunIngressStep
    (fmt : PacketFormat P)
    (cfg : Config)
    (p : PacketPtr)
    (_len : Int)
    (e : Endpoint P) :
    Except Fault (Endpoint P) :=
  runIngressPath fmt cfg p e

------------------------------------------------------------
-- Runtime API
------------------------------------------------------------

/-
  `nb__poll_packet`, when a packet with the contents `x` was
  received: it is returned in a new buffer.
-/
def pollPacket
    (x : P)
    (e : Endpoint P) : PacketPtr × Endpoint P :=
  let (p, e) := e.requestSendBuffer
  (p, e.modifyPacket p (fun _ => x))

/- Receive a packet and run the ingress path on it. -/
def ingress
    (fmt : PacketFormat P)
    (cfg : Config)
    (x : P)
    (len : Int)
    (e : Endpoint P) :
    Except Fault (Endpoint P) :=
  let (p, e) := pollPacket x e
  nbRunIngressStep fmt cfg p len e

/- `nb__read` -/
def nbRead
    (fmt : PacketFormat P)
    (c : ConnPtr)
    (maxLen : Int)
    (e : Endpoint P) :
    Except Fault (List Byte × Endpoint P) := do
  let conn ← e.loadConn c
  match conn.inputQueue with
  | [] => return ([], e)
  | (payload, payloadSize) :: rest =>
      let copySize :=
        if maxLen < payloadSize then maxLen else payloadSize
      if copySize < 0 then
        -- `memcpy` takes the size as unsigned
        throw .outOfBounds
      else
        let bytes ← fmt.readPayload copySize.toNat
          (e.packets payload)
        return (bytes, e.modifyConn c (fun conn =>
          { conn with inputQueue := rest }))

/-
  The loop of `nb__accept` over the entries from `i` on:
  process the packets of the accepted peer, and put the last
  entry in the place of each.
-/
def acceptLoop
    (fmt : PacketFormat P)
    (cfg : Config)
    (c : ConnPtr)
    (srcAppId : BitVec 32)
    (srcHostId : BitVec 64) :
    Nat → Nat → Endpoint P → Except Fault (Endpoint P)
| 0, _, _ => .error .diverges
| fuel + 1, i, e => do
    let conn ← e.loadConn c
    match conn.acceptQueue[i]? with
    | none => return e
    | some entry =>
        if entry.srcAppId = srcAppId ∧
            entry.srcHostId = srcHostId then
          let e ← nbRunIngressStep fmt cfg entry.packet 0 e
          let conn ← e.loadConn c
          let e :=
            match conn.acceptQueue.getLast? with
            | none => e
            | some last =>
                e.modifyConn c (fun conn =>
                  { conn with
                    acceptQueue :=
                      (conn.acceptQueue.set i last).dropLast })
          acceptLoop fmt cfg c srcAppId srcHostId fuel i e
        else
          acceptLoop fmt cfg c srcAppId srcHostId fuel
            (i + 1) e

/-
  `nb__accept`: pop the last entry, establish a connection
  for it, at the address `s` with the contents `fresh`, and
  process its packet before the other ones of that peer. It
  returns null when no entry is queued. The loop moves on or
  shortens the queue unless the listener gets new entries,
  and `fuel` bounds it.
-/
def nbAccept
    (fmt : PacketFormat P)
    (cfg : Config)
    (c : ConnPtr)
    (s : ConnPtr)
    (fresh : Connection)
    (fuel : Nat)
    (e : Endpoint P) :
    Except Fault (ConnPtr × Endpoint P) := do
  let conn ← e.loadConn c
  match conn.acceptQueue.getLast? with
  | none => return (0, e)
  | some entry =>
      let e := e.modifyConn c (fun conn =>
        { conn with acceptQueue := conn.acceptQueue.dropLast })
      let e ← nbEstablish fmt cfg s fresh
        (entry.srcHostId.setWidth 32) entry.srcAppId
        conn.localAppId e
      -- an accepted connection has already been signalled
      let e := e.modifyConn s (fun conn =>
        { conn with signalingState := .signaled })
      let e ← nbRunIngressStep fmt cfg entry.packet 0 e
      let e ← acceptLoop fmt cfg c entry.srcAppId
        entry.srcHostId fuel 0 e
      return (s, e)

/- Call the callback of a timer that fired. -/
def runCallback
    (fmt : PacketFormat P)
    (t : TimerPtr)
    (tNow : BitVec 64)
    (e : Endpoint P) : Except Fault (Endpoint P) :=
  match (e.timers.allocatedTimers t).callback with
  | .reliableRedeliveryTimerCb =>
      ReliableModule.redeliveryCb fmt t
        (e.timers.allocatedTimers t).argument tNow e

/- The loop of `nb__check_timers`. -/
def checkTimersLoop
    (fmt : PacketFormat P)
    (tNow : BitVec 64) :
    Nat → Endpoint P → Except Fault (Endpoint P)
| 0, _ => .error .diverges
| fuel + 1, e =>
    match e.timers.timersHead with
    | none => .ok e
    | some t =>
        if (e.timers.allocatedTimers t).timeout ≤ tNow then do
          let e ← runCallback fmt t tNow
            { e with timers := e.timers.removeTimer t }
          checkTimersLoop fmt tNow fuel e
        else
          .ok e

/-
  `nb__check_timers`. A timer that fires gets a later
  timeout, so each fires once unless the clock wraps.
-/
def checkTimers
    (fmt : PacketFormat P)
    (e : Endpoint P) :
    Except Fault (Endpoint P) :=
  checkTimersLoop fmt e.timeNow (maxTimerAllocs + 1) e

/- The clock is read anew. -/
def tick
    (now : BitVec 64)
    (e : Endpoint P) : Endpoint P :=
  { e with timeNow := now }

end NetBlocks
