import NetBlocks.Core.IngressSpec
import NetBlocks.Stack.Wire

/-
  The ingress path of a configured stack, as far as it is
  about the bytes of a packet.

  Main declarations:
    * `PacketStack.hookIngress`
    * `PacketStack.runFrontHooks`
    * `PacketStack.receivedLen`
-/

namespace NetBlocks

open ByteMemory Except

namespace PacketStack

section Ingress

variable (stack : PacketStack)

/-
  `identifier_module::hook_ingress`, where `flow` is the
  connection that is found. A packet without one is dropped,
  or waits in an accept queue.
-/
def identifierIngress
    (flow : Option (BitVec 64))
    (mem : Memory) :
    Except Fault (HookStatus × Memory) :=
  match flow with
  | some c => do
      let mem ← stack.netPacket.setInteger
        (.header .flowIdentifier) c mem
      return (.hookContinue, mem)
  | none => .ok (.hookDrop, mem)

/-
  `reliable_module::hook_ingress`. An acknowledgement goes no
  further; that of a packet is built in another buffer.
-/
def reliableIngress
    (mem : Memory) :
    Except Fault (HookStatus × Memory) := do
  let ackSeq ← stack.netPacket.getInteger
    (.header .ackSequenceNumber) mem
  if ackSeq.setWidth 32 ≠ (0 : BitVec 32) then
    return (.hookDrop, mem)
  else
    return (.hookContinue, mem)

/- A hook that drops nothing. -/
def continues
    (result : Except Fault Memory) :
    Except Fault (HookStatus × Memory) :=
  result.map (fun mem => (.hookContinue, mem))

/-
  `hook_ingress` of the modules before the inorder one, as far
  as it is about the packet's bytes.
-/
def hookIngress
    (flow : Option (BitVec 64)) :
    Module → Memory → Except Fault (HookStatus × Memory)
| .network => fun mem => continues (stack.networkIngress mem)
| .checksum => stack.checksumIngress
| .routing => fun mem => continues (stack.routingIngress mem)
| .identifier => stack.identifierIngress flow
| .reliable => stack.reliableIngress
| _ => fun mem => .ok (.hookContinue, mem)

/- The hooks of some modules, up to the first that drops. -/
def runIngressHooks
    (flow : Option (BitVec 64)) :
    List Module → Memory → Except Fault (HookStatus × Memory)
| [], mem => .ok (.hookContinue, mem)
| m :: modules, mem => do
    let (status, mem) ← stack.hookIngress flow m mem
    match status with
    | .hookDrop => return (.hookDrop, mem)
    | .hookContinue => runIngressHooks flow modules mem

/- The modules before the inorder one, on ingress. -/
def frontModules
    (stack : PacketStack) : List Module :=
  NetBlocks.frontModules stack.options.toConfig ++
    if stack.options.reliableEnabled then [.reliable] else []

/- The ingress path up to the inorder module. -/
def runFrontHooks
    (flow : Option (BitVec 64))
    (mem : Memory) :
    Except Fault (HookStatus × Memory) :=
  stack.runIngressHooks flow stack.frontModules mem

/-
  The packet as `inorder_module::hook_ingress` leaves it when
  it takes it for the next one.
-/
def inorderIngress
    (mem : Memory) : Except Fault Memory :=
  match stack.options.inorderStrategy with
  | .holdForever => stack.restoreTotalLen mem
  | _ => .ok mem

/- `payload_module::hook_ingress` -/
def payloadIngress
    (mem : Memory) : Except Fault Memory :=
  if stack.isIPCompat then
    .ok mem
  else
    stack.restoreTotalLen mem

/-
  The payload length that is computed for a packet that
  arrives, unless it is dropped before.
-/
def receivedLen
    (flow : Option (BitVec 64))
    (mem : Memory) : Except Fault (Option Int) := do
  let (status, mem) ← stack.runFrontHooks flow mem
  match status with
  | .hookDrop => return none
  | .hookContinue => do
      let mem ← stack.inorderIngress mem
      let len ← stack.payloadLen mem
      return some len

end Ingress

end PacketStack

end NetBlocks
