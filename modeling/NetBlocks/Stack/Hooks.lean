import NetBlocks.Core.PacketBuffer
import NetBlocks.Core.SendPath
import NetBlocks.Runtime.IpChecksum
import NetBlocks.Stack.Layout

/-
  What the hooks of a configured stack do to the bytes of a
  packet: the members they set, the payload they copy, and
  the checksums they compute.

  Main declarations:
    * `PacketStack` and `PacketStack.setIntegers`
    * `PacketStack.hookSend` and `PacketStack.runSendPath`
    * `PacketStack.computeChecksum`
    * `PacketStack.networkIngress`, `checksumIngress`, and
      `routingIngress`
-/

namespace NetBlocks

open ByteMemory Except

------------------------------------------------------------
-- Stacks
------------------------------------------------------------

namespace DynamicLayout

variable {ν : Type}

/- `get_addr`, counted from the packet's address -/
def getAddr
    (layout : DynamicLayout ν)
    (name : ν) : Except Fault Nat := do
  let offset ← layout.offset name
  if offset % 8 ≠ 0 then
    throw (.assertion
      "Cannot obtain address for non aligned members")
  else
    return offset / 8

/- Set members one after the other. -/
def setIntegers
    (layout : DynamicLayout ν)
    (calls : List (ν × BitVec 64))
    (mem : Memory) : Except Fault Memory :=
  calls.foldlM
    (fun mem call => layout.setInteger call.1 call.2 mem) mem

theorem getAddr_eq
    {layout : DynamicLayout ν}
    {name : ν}
    {addr : Nat}
    (hOffset : layout.offset name = .ok (8 * addr)) :
    layout.getAddr name = .ok addr := by
  simp [getAddr, hOffset]

theorem setIntegers_singleton
    (layout : DynamicLayout ν)
    (name : ν)
    (v : BitVec 64)
    (mem : Memory) :
    layout.setIntegers [(name, v)] mem =
      layout.setInteger name v mem := by
  rw [setIntegers, List.foldlM_cons]
  cases layout.setInteger name v mem <;> rfl

theorem setIntegers_append
    (layout : DynamicLayout ν)
    (first second : List (ν × BitVec 64))
    (mem : Memory) :
    layout.setIntegers (first ++ second) mem =
      layout.setIntegers first mem >>=
        layout.setIntegers second :=
  List.foldlM_append

end DynamicLayout

/-
  A stack for which the layout is built, with the sizes that
  the generated code contains as constants.
-/
structure PacketStack where
  options : StackOptions
  ranged : RangedMembers
  ranged_eq : options.rangedMembers = .ok ranged
  totalSize : Nat
  totalSize_eq :
    (options.layout ranged).getTotalSize = .ok totalSize

/- The stack that `main` builds, without custom ranges. -/
def simpleStack : PacketStack where
  options :=
    .plain StackOptions.simpleConfig .noCompat .fullPacket
  ranged := StackOptions.plainMembers
  ranged_eq := StackOptions.plain_rangedMembers _ _ _
  totalSize := 63
  totalSize_eq := by decide

namespace PacketStack

/- `net_packet` -/
def netPacket
    (stack : PacketStack) : DynamicLayout StackMember :=
  stack.options.layout stack.ranged

/- `get_headroom` -/
def headroom
    (stack : PacketStack) : Nat :=
  stack.options.headroom

/- `get_total_size() - get_headroom() - 1` -/
def headerLen
    (stack : PacketStack) : Nat :=
  stack.totalSize - stack.headroom - 1

def isIPCompat
    (stack : PacketStack) : Bool :=
  stack.options.compatLevel.isIPCompat

------------------------------------------------------------
-- Send Hooks
------------------------------------------------------------

/-
  What the send hooks read of the connection, the host, and
  the timers.
-/
structure SendValues where
  sequenceNumber : BitVec 32
  redeliveryTimer : BitVec 64
  remoteHostId : BitVec 64
  remoteAppId : BitVec 32
  myLocalHostId : BitVec 64
  localAppId : BitVec 32
  dstGlobalId : BitVec 32
  myHostId : BitVec 32

/- Those of a connection's first packet. -/
def simpleValues : SendValues where
  sequenceNumber := 1
  redeliveryTimer := 2
  remoteHostId := 3
  remoteAppId := 4
  myLocalHostId := 5
  localAppId := 6
  dstGlobalId := 7
  myHostId := 8

section Send

variable
    (stack : PacketStack)
    (values : SendValues)

/- Copy bytes to an address. -/
def writeBytes
    (mem : Memory)
    (addr : Nat)
    (bytes : List Byte) : Memory :=
  fun a =>
    if a < addr then
      mem a
    else
      (bytes[a - addr]?).getD (mem a)

/- The length of a packet, an `unsigned int`. -/
def packetLen
    (len : Nat) : BitVec 32 :=
  BitVec.ofNat 32 stack.headerLen + BitVec.ofNat 32 len

/- The lengths set by `payload_module::hook_send`. -/
def lengthSend
    (len : BitVec 64) : List (StackMember × BitVec 64) :=
  (if stack.isIPCompat then
    []
  else
    [(.header .totalLen, len)]) ++
  [(.header .computedTotalLen, len)]

/- `payload_module::hook_send` -/
def payloadSend
    (buff : List Byte)
    (mem : Memory) : Except Fault Memory := do
  let len := (stack.packetLen buff.length).setWidth 64
  let mem ← stack.netPacket.setIntegers
    (stack.lengthSend len) mem
  let addr ← stack.netPacket.getAddr .payload
  return writeBytes mem addr buff

/- The members set by `inorder_module::hook_send`. -/
def inorderSend : List (StackMember × BitVec 64) :=
  if stack.options.isNumbered then
    [(.header .sequenceNumber,
      values.sequenceNumber.setWidth 64)]
  else
    []

/- The members set by `reliable_module::hook_send`. -/
def reliableSend : List (StackMember × BitVec 64) :=
  [(.header .redeliveryTimer, values.redeliveryTimer),
    (.header .ackSequenceNumber, 0)]

/- The members set by `identifier_module::hook_send`. -/
def identifierSend : List (StackMember × BitVec 64) :=
  [(.header .dstHostId, values.remoteHostId),
    (.header .dstAppId, values.remoteAppId.setWidth 64),
    (.header .srcHostId, values.myLocalHostId),
    (.header .srcAppId, values.localAppId.setWidth 64)] ++
  if stack.options.compatLevel.isEthCompat then
    [(.compat .protocolIdentifier, 0x0008)]
  else
    []

/- The global ids set by `routing_module::hook_send`. -/
def globalIds : List (StackMember × BitVec 64) :=
  [(.header .dstGlobalId, values.dstGlobalId.setWidth 64),
    (.header .srcGlobalId, values.myHostId.setWidth 64)]

/- `ip_len`, in network byte order -/
def ipLen
    (len : Nat) : BitVec 16 :=
  htons (BitVec.ofNat 16 (len + 28))

/- The IP header, with a checksum of zero. -/
def ipHeader
    (len : Nat) : List (StackMember × BitVec 64) :=
  [(.compat .ipVIDE, 0x0045),
    (.compat .ipIFF, 0x0040724a),
    (.compat .ipTtl, 0x40),
    (.compat .ipProtocol, 0x11),
    (.compat .ipHeaderChecksum, 0),
    (.compat .ipTotalLen, (ipLen len).setWidth 64)]

/- `routing_module::hook_send` -/
def routingSend
    (len : Nat)
    (mem : Memory) : Except Fault Memory := do
  let mem ← stack.netPacket.setIntegers
    (globalIds values) mem
  if stack.isIPCompat then
    let mem ← stack.netPacket.setIntegers (ipHeader len) mem
    let headerAddr ←
      stack.netPacket.getAddr (.compat .ipVIDE)
    stack.netPacket.setInteger (.compat .ipHeaderChecksum)
      ((doIpChecksum mem headerAddr 20).setWidth 64) mem
  else
    return mem

end Send

------------------------------------------------------------
-- Checksum
------------------------------------------------------------

section Checksum

variable (stack : PacketStack)

/- `eo`, an `int`: where the bytes that are added up end -/
def checksumEnd
    (mem : Memory) : Except Fault Int := do
  match stack.options.checksumType with
  | .fullPacket =>
      let computed ← stack.netPacket.getInteger
        (.header .computedTotalLen) mem
      return (computed.setWidth 32 +
        BitVec.ofNat 32 stack.headroom).toInt
  | .headerOnly =>
      return stack.totalSize - 1

/-
  `p[eo] = 0`. An end before the packet, which a length that
  is negative can give, is not in its buffer.
-/
def pad
    (eo : Int)
    (mem : Memory) : Except Fault Memory :=
  if 0 ≤ eo then
    .ok (Function.update mem eo.toNat 0)
  else
    .error .outOfBounds

/-
  `compute_checksum`: clear the checksum, pad the packet to
  an even number of bytes, and add up its words. The loop
  ends before its first round if the end is not behind the
  headroom.
-/
def computeChecksum
    (mem : Memory) :
    Except Fault (Memory × BitVec 16) := do
  let mem ← stack.netPacket.setInteger (.header .checksum) 0 mem
  let so : Int := stack.headroom
  let eo ← stack.checksumEnd mem
  if (eo - so) % 2 ≠ 0 then
    let mem ← pad eo mem
    return (mem, PacketBuffer.sumWords mem stack.headroom
      ((eo + 1 - so) / 2).toNat)
  else
    return (mem, PacketBuffer.sumWords mem stack.headroom
      ((eo - so) / 2).toNat)

/- `checksum_module::hook_send` -/
def checksumSend
    (mem : Memory) : Except Fault Memory := do
  let r ← stack.computeChecksum mem
  stack.netPacket.setInteger (.header .checksum)
    (r.2.setWidth 64) r.1

end Checksum

------------------------------------------------------------
-- The Send Path
------------------------------------------------------------

section SendPath

variable
    (stack : PacketStack)
    (values : SendValues)
    (buff : List Byte)

/-
  `hook_send` of each module, as far as it is about the
  packet's bytes.
-/
def hookSend : Module → Memory → Except Fault Memory
| .payload => stack.payloadSend buff
| .signaling => .ok
| .inorder =>
    stack.netPacket.setIntegers (stack.inorderSend values)
| .reliable =>
    stack.netPacket.setIntegers (reliableSend values)
| .identifier =>
    stack.netPacket.setIntegers (stack.identifierSend values)
| .signalingAfter => .ok
| .routing => stack.routingSend values buff.length
| .checksum => stack.checksumSend
| .network => .ok

/- `framework::run_send_path`, on a buffer for the packet -/
def runSendPath
    (mem : Memory) : Except Fault Memory :=
  (registeredModules stack.options.toConfig).foldlM
    (fun mem m => stack.hookSend values buff m mem) mem

end SendPath

/- The `size` that `network_module::hook_send` passes on. -/
def sentSize
    (stack : PacketStack)
    (mem : Memory) : Except Fault (BitVec 32) := do
  let size ← stack.netPacket.getInteger
    (.header .computedTotalLen) mem
  return size.setWidth 32

------------------------------------------------------------
-- Ingress Hooks
------------------------------------------------------------

section Ingress

variable (stack : PacketStack)

/- `computed_total_len` takes the value of `total_len`. -/
def restoreTotalLen
    (mem : Memory) : Except Fault Memory := do
  let len ← stack.netPacket.getInteger (.header .totalLen) mem
  stack.netPacket.setInteger (.header .computedTotalLen) len mem

/- `network_module::hook_ingress` -/
def networkIngress
    (mem : Memory) : Except Fault Memory :=
  if stack.isIPCompat then
    .ok mem
  else
    stack.restoreTotalLen mem

/- `checksum_module::hook_ingress` -/
def checksumIngress
    (mem : Memory) :
    Except Fault (HookStatus × Memory) := do
  let saved ← stack.netPacket.getInteger (.header .checksum) mem
  let saved : BitVec 16 := saved.setWidth 16
  let r ← stack.computeChecksum mem
  let mem ← stack.netPacket.setInteger (.header .checksum)
    (saved.setWidth 64) r.1
  if r.2 = saved then
    return (.hookContinue, mem)
  else
    return (.hookDrop, mem)

/- `routing_module::hook_ingress` -/
def routingIngress
    (mem : Memory) : Except Fault Memory :=
  if stack.isIPCompat then do
    let len ← stack.netPacket.getInteger
      (.compat .ipTotalLen) mem
    let totalLen : BitVec 16 := ntohs (len.setWidth 16) + 14
    stack.netPacket.setInteger (.header .computedTotalLen)
      (totalLen.setWidth 64) mem
  else
    .ok mem

/- `payload_len` in `inorder_module::hook_ingress`, an `int` -/
def payloadLen
    (mem : Memory) : Except Fault Int := do
  let computed ← stack.netPacket.getInteger
    (.header .computedTotalLen) mem
  return ((computed - BitVec.ofNat 64 stack.headerLen).setWidth
    32).toInt

end Ingress

end PacketStack

end NetBlocks
