import NetBlocks.Modules.Identifier

/-
  The modules that complete a packet and hand it to the
  transport: payload, routing, checksum, and network.

  Main declarations:
    * `PayloadModule.hookSend`
    * `RoutingModule.hookSend`
    * `ChecksumModule.hookSend` and `hookIngress`
    * `NetworkModule.hookSend` and `hookIngress`
-/

namespace NetBlocks

variable {P : Type}

------------------------------------------------------------
-- Payload
------------------------------------------------------------

namespace PayloadModule

/-
  `payload_module::hook_send`. The length it stores through
  `ret_len` is that of the user's buffer.
-/
def hookSend
    (fmt : PacketFormat P)
    (p : PacketPtr)
    (buff : List Byte)
    (e : Endpoint P) :
    Except Fault (HookStatus × Endpoint P) := do
  let totalLen := BitVec.ofNat 32 (fmt.headerLen + buff.length)
  let e := e.modifyPacket p (fmt.setWord .totalLen totalLen)
  let e := e.modifyPacket p
    (fmt.setWord .computedTotalLen totalLen)
  let x ← fmt.writePayload buff (e.packets p)
  return (.hookContinue, e.modifyPacket p (fun _ => x))

/- `payload_module::hook_ingress` -/
def hookIngress
    (fmt : PacketFormat P)
    (p : PacketPtr)
    (e : Endpoint P) :
    Except Fault (HookStatus × Endpoint P) :=
  .ok (.hookContinue,
    e.modifyPacket p fmt.restoreTotalLen)

end PayloadModule

------------------------------------------------------------
-- Routing
------------------------------------------------------------

namespace RoutingModule

/- `routing_module::hook_establish` -/
def hookEstablish
    (c : ConnPtr)
    (sa : BitVec 32)
    (e : Endpoint P) :
    Except Fault (HookStatus × Endpoint P) := do
  let _ ← e.loadConn c
  return (.hookContinue,
    e.modifyConn c (fun conn =>
      { conn with dstGlobalId := sa }))

/- `routing_module::hook_send` -/
def hookSend
    (fmt : PacketFormat P)
    (c : ConnPtr)
    (p : PacketPtr)
    (e : Endpoint P) :
    Except Fault (HookStatus × Endpoint P) := do
  let conn ← e.loadConn c
  let e := e.modifyPacket p
    (fmt.setWord .dstGlobalId conn.dstGlobalId)
  let e := e.modifyPacket p
    (fmt.setWord .srcGlobalId e.myHostId)
  return (.hookContinue, e)

end RoutingModule

------------------------------------------------------------
-- Checksum
------------------------------------------------------------

namespace ChecksumModule

/- `checksum_module::hook_send` -/
def hookSend
    (fmt : PacketFormat P)
    (p : PacketPtr)
    (e : Endpoint P) :
    Except Fault (HookStatus × Endpoint P) := do
  let (x, checksum) ← fmt.computeChecksum (e.packets p)
  return (.hookContinue,
    e.modifyPacket p (fun _ =>
      fmt.setInteger .checksum (checksum.setWidth 64) x))

/-
  `checksum_module::hook_ingress`. The old checksum is put
  back in case the packet is processed again.
-/
def hookIngress
    (fmt : PacketFormat P)
    (p : PacketPtr)
    (e : Endpoint P) :
    Except Fault (HookStatus × Endpoint P) := do
  let checksumSaved : BitVec 16 :=
    (fmt.getInteger .checksum (e.packets p)).setWidth 16
  let (x, checksum) ← fmt.computeChecksum (e.packets p)
  let e := e.modifyPacket p (fun _ =>
    fmt.setInteger .checksum (checksumSaved.setWidth 64) x)
  if checksum = checksumSaved then
    return (.hookContinue, e)
  else
    return (.hookDrop, e)

end ChecksumModule

------------------------------------------------------------
-- Network
------------------------------------------------------------

namespace NetworkModule

/- `network_module::hook_send` -/
def hookSend
    (fmt : PacketFormat P)
    (p : PacketPtr)
    (e : Endpoint P) :
    Except Fault (HookStatus × Endpoint P) :=
  let size := fmt.getWord .computedTotalLen (e.packets p)
  .ok (.hookContinue, e.sendPacket p size)

/- `network_module::hook_ingress` -/
def hookIngress
    (fmt : PacketFormat P)
    (p : PacketPtr)
    (e : Endpoint P) :
    Except Fault (HookStatus × Endpoint P) :=
  .ok (.hookContinue,
    e.modifyPacket p fmt.restoreTotalLen)

end NetworkModule

end NetBlocks
