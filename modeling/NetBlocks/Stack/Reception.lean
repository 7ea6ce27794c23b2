import NetBlocks.Stack.Ingress

/-
  The whole ingress path of a configured stack on the bytes of
  one packet, with what it looks up in connections as
  functions, and what it hands on as reports.

  Main declarations:
    * `Lookups` and `Report`
    * `PacketStack.hookReceive`
    * `PacketStack.receive`
-/

namespace NetBlocks

open ByteMemory Except

/-
  What the hooks ask the state of the host: its own id, the
  connection for the ids of a packet, and whether the inorder
  module of a connection takes a number as the next one.
-/
structure Lookups where
  myLocalHostId : BitVec 64
  retrieveConnection :
    BitVec 32 → BitVec 32 → BitVec 64 → Option ConnPtr
  inOrder : ConnPtr → BitVec 32 → Bool

/- What a hook does with a packet, apart from its bytes. -/
inductive Report where
| checked (passes : Bool)
| foreign
| unmatched (dstApp srcApp : BitVec 32) (srcHost : BitVec 64)
| found (flow : ConnPtr)
| acked (flow : ConnPtr) (ackSeq : BitVec 32)
| answered (flow : ConnPtr) (seq : BitVec 32)
| inserted (flow : ConnPtr) (payloadLen : Int)
| ignored (flow : ConnPtr) (seq : BitVec 32)
| shelved (flow : ConnPtr) (seq : BitVec 32)
| signaled (flow : ConnPtr)
deriving DecidableEq, Repr

namespace PacketStack

section Reception

variable
    (stack : PacketStack)
    (lookups : Lookups)

/- What a hook returns: whether to go on, and its reports. -/
abbrev Received : Type := HookStatus × List Report

/- `get_integer` of a member -/
def get
    (f : Field)
    (mem : Memory) : Except Fault (BitVec 64) :=
  stack.netPacket.getInteger (.header f) mem

/- `checksum_module::hook_ingress` -/
def checksumReceive
    (mem : Memory) : Except Fault (Received × Memory) := do
  let r ← stack.checksumIngress mem
  return ((r.1, [.checked (r.1 = .hookContinue)]), r.2)

/- `identifier_module::hook_ingress` -/
def identifierReceive
    (mem : Memory) : Except Fault (Received × Memory) := do
  let dstHost ← stack.get .dstHostId mem
  if dstHost ≠ lookups.myLocalHostId then
    return ((.hookDrop, [.foreign]), mem)
  else
    let dstApp ← stack.get .dstAppId mem
    let srcApp ← stack.get .srcAppId mem
    let srcHost ← stack.get .srcHostId mem
    match lookups.retrieveConnection (dstApp.setWidth 32)
      (srcApp.setWidth 32) srcHost with
    | some c =>
        let mem ← stack.netPacket.setInteger
          (.header .flowIdentifier) c mem
        return ((.hookContinue, [.found c]), mem)
    | none =>
        return ((.hookDrop, [.unmatched (dstApp.setWidth 32)
          (srcApp.setWidth 32) srcHost]), mem)

/-
  `reliable_module::hook_ingress`. The acknowledgement of a
  packet is built in a buffer of its own.
-/
def reliableReceive
    (mem : Memory) : Except Fault (Received × Memory) := do
  let ackSeq ← stack.get .ackSequenceNumber mem
  let c ← stack.get .flowIdentifier mem
  if ackSeq.setWidth 32 ≠ (0 : BitVec 32) then
    return ((.hookDrop, [.acked c (ackSeq.setWidth 32)]), mem)
  else
    let seq ← stack.get .sequenceNumber mem
    return ((.hookContinue, [.answered c (seq.setWidth 32)]),
      mem)

/- The payload is queued unless it is empty. -/
def insertPayload
    (c : ConnPtr)
    (mem : Memory) : Except Fault (Received × Memory) := do
  let payloadLen ← stack.payloadLen mem
  return ((.hookContinue,
    if payloadLen ≠ 0 then [.inserted c payloadLen] else []),
    mem)

/-
  `inorder_module::hook_ingress`, without the packets that
  were shelved before, which have buffers of their own.
-/
def inorderReceive
    (mem : Memory) : Except Fault (Received × Memory) := do
  let c ← stack.get .flowIdentifier mem
  match stack.options.inorderStrategy with
  | .dropOutOfOrder =>
      let seq ← stack.get .sequenceNumber mem
      if lookups.inOrder c (seq.setWidth 32) then
        stack.insertPayload c mem
      else
        return ((.hookDrop, [.ignored c (seq.setWidth 32)]),
          mem)
  | .holdForever =>
      let seq ← stack.get .sequenceNumber mem
      if lookups.inOrder c (seq.setWidth 32) then
        let mem ← stack.restoreTotalLen mem
        stack.insertPayload c mem
      else
        return ((.hookDrop, [.shelved c (seq.setWidth 32)]),
          mem)
  | .noInorder => stack.insertPayload c mem

/- `signaling_module::hook_ingress` -/
def signalingReceive
    (mem : Memory) : Except Fault (Received × Memory) := do
  let c ← stack.get .flowIdentifier mem
  return ((.hookContinue, [.signaled c]), mem)

/- A hook that drops nothing, and reports nothing. -/
def proceeds
    (result : Except Fault Memory) :
    Except Fault (Received × Memory) := do
  let mem ← result
  return ((.hookContinue, []), mem)

/- `hook_ingress` of each module, on the packet's bytes -/
def hookReceive :
    Module → Memory → Except Fault (Received × Memory)
| .network => fun mem => proceeds (stack.networkIngress mem)
| .checksum => stack.checksumReceive
| .routing => fun mem => proceeds (stack.routingIngress mem)
| .signalingAfter => fun mem => proceeds (.ok mem)
| .identifier => stack.identifierReceive lookups
| .reliable => stack.reliableReceive
| .inorder => stack.inorderReceive lookups
| .signaling => stack.signalingReceive
| .payload => fun mem => proceeds (stack.payloadIngress mem)

/- The hooks that are left run unless the packet is dropped. -/
def goOn
    (rest : Memory → Except Fault (List Report × Memory))
    (r : Received)
    (mem : Memory) : Except Fault (List Report × Memory) :=
  match r.1 with
  | .hookDrop => return (r.2, mem)
  | .hookContinue => do
      let more ← rest mem
      return (r.2 ++ more.1, more.2)

/- The hooks of some modules, up to the first that drops. -/
def receiveHooks :
    List Module → Memory →
      Except Fault (List Report × Memory)
| [], mem => .ok ([], mem)
| m :: modules, mem => do
    let r ← stack.hookReceive lookups m mem
    goOn (receiveHooks modules) r.1 r.2

/- `framework::run_ingress_path` -/
def receive
    (mem : Memory) : Except Fault (List Report × Memory) :=
  stack.receiveHooks lookups
    (registeredModules stack.options.toConfig).reverse mem

end Reception

end PacketStack

end NetBlocks
