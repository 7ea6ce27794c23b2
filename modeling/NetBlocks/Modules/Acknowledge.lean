import NetBlocks.Core.SendPath

/-
  The hooks that send packets of their own, through the send
  hooks of the modules after them: the receiving half of the
  reliable module, which acknowledges, and signaling.

  Main declarations:
    * `ReliableModule.hookIngress`
    * `SignalingModuleAfter.hookEstablish`
    * `SignalingModule.hookIngress`
-/

namespace NetBlocks

variable {P : Type}

------------------------------------------------------------
-- Acknowledgements
------------------------------------------------------------

namespace ReliableModule

/-
  `reliable_module::hook_ingress` on an ack: stop the timer
  of the packet in the slot of the number. An empty slot
  means a duplicate ack, which is ignored.
-/
def receiveAck
    (fmt : PacketFormat P)
    (c : ConnPtr)
    (ackSeq : BitVec 32)
    (e : Endpoint P) : Except Fault (Endpoint P) := do
  let index := slot ackSeq
  let conn ← e.loadConn c
  match conn.redeliveryBuffer index with
  | none => return e
  | some pRem =>
      match toTimerPtr
          (fmt.getInteger .redeliveryTimer
            (e.packets pRem)) with
      | none => throw .danglingPointer
      | some t =>
          let timers := (e.timers.removeTimer t).returnTimer t
          let e := { e with timers }
          return e.modifyConn c (fun conn =>
            { conn with
              redeliveryBuffer :=
                Function.update conn.redeliveryBuffer
                  index none })

/-
  `reliable_module::hook_ingress` on any other packet: send
  an ack for its number. Ack packets have size 1.
-/
def sendAck
    (fmt : PacketFormat P)
    (cfg : Config)
    (c : ConnPtr)
    (seq : BitVec 32)
    (e : Endpoint P) : Except Fault (Endpoint P) := do
  let (pAck, e) := e.requestSendBuffer
  let totalLen := BitVec.ofNat 32 (fmt.headerLen + 1)
  let e := e.modifyPacket pAck
    (fmt.setWord .ackSequenceNumber seq)
  let e := e.modifyPacket pAck
    (fmt.setWord .totalLen totalLen)
  let e := e.modifyPacket pAck
    (fmt.setWord .computedTotalLen totalLen)
  runSendAfter fmt cfg .reliable c pAck e

/- `reliable_module::hook_ingress` -/
def hookIngress
    (fmt : PacketFormat P)
    (cfg : Config)
    (p : PacketPtr)
    (e : Endpoint P) :
    Except Fault (HookStatus × Endpoint P) := do
  let x := e.packets p
  let ackSeq := fmt.getWord .ackSequenceNumber x
  let c := InorderModule.flowConnection fmt p e
  if ackSeq ≠ 0 then
    let e ← receiveAck fmt c ackSeq e
    return (.hookDrop, e)
  else
    let seq := fmt.getWord .sequenceNumber x
    let e ← sendAck fmt cfg c seq e
    return (.hookContinue, e)

end ReliableModule

------------------------------------------------------------
-- Signaling
------------------------------------------------------------

namespace SignalingModuleAfter

/- The signaling packet of `hook_establish`, of length 0. -/
def sendSignal
    (fmt : PacketFormat P)
    (cfg : Config)
    (c : ConnPtr)
    (e : Endpoint P) : Except Fault (Endpoint P) := do
  let (pSig, e) := e.requestSendBuffer
  let totalLen := BitVec.ofNat 32 fmt.headerLen
  let e := e.modifyPacket pSig
    (fmt.setWord .totalLen totalLen)
  let e := e.modifyPacket pSig
    (fmt.setWord .computedTotalLen totalLen)
  runSendAfter fmt cfg .signaling c pSig e

/- `signaling_module_after::hook_establish` -/
def hookEstablish
    (fmt : PacketFormat P)
    (cfg : Config)
    (c : ConnPtr)
    (h a : BitVec 32)
    (e : Endpoint P) :
    Except Fault (HookStatus × Endpoint P) := do
  let _ ← e.loadConn c
  if h.setWidth 64 = wildcardHostIdentifier ∨ a = 0 then
    return (.hookContinue,
      e.modifyConn c (fun conn =>
        { conn with signalingState := .signalNa }))
  else if cfg.signalingEnabled then
    let e := e.modifyConn c (fun conn =>
      { conn with signalingState := .waitingForSignal })
    let e ← sendSignal fmt cfg c e
    return (.hookContinue, e)
  else
    return (.hookContinue,
      e.modifyConn c (fun conn =>
        { conn with signalingState := .signaled }))

end SignalingModuleAfter

namespace SignalingModule

/- `signaling_module::hook_ingress` -/
def hookIngress
    (fmt : PacketFormat P)
    (p : PacketPtr)
    (e : Endpoint P) :
    Except Fault (HookStatus × Endpoint P) := do
  let c := InorderModule.flowConnection fmt p e
  let conn ← e.loadConn c
  if conn.signalingState = .waitingForSignal then
    return (.hookContinue,
      e.modifyConn c (fun conn =>
        { conn with signalingState := .signaled }))
  else
    return (.hookContinue, e)

end SignalingModule

end NetBlocks
