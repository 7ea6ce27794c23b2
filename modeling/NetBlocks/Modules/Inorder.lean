import NetBlocks.Runtime.Endpoint
import NetBlocks.Lib.Runs

/-
  The inorder module: it numbers outgoing packets and
  decides which incoming ones reach the input queue.

  Main declarations:
    * `HookStatus`
    * `InorderModule.hookSend`
    * `InorderModule.hookIngress` and its loop `drain`
-/

namespace NetBlocks

/- `module::hook_status` -/
inductive HookStatus where
| hookContinue
| hookDrop
deriving DecidableEq, Repr

namespace InorderModule

variable {P : Type}

------------------------------------------------------------
-- Establishing and Sending
------------------------------------------------------------

/-
  `inorder_module::hook_establish`. A last received sequence
  of zero allows any packet to be accepted.
-/
def hookEstablish
    (cfg : Config)
    (c : ConnPtr)
    (e : Endpoint P) :
    Except Fault (HookStatus × Endpoint P) := do
  let _ ← e.loadConn c
  let e := e.modifyConn c (fun conn =>
    { conn with
      lastSentSequence := 1010
      lastRecvSequence := 0 })
  let e :=
    if cfg.inorderStrategy = .holdForever then
      e.modifyConn c (fun conn =>
        { conn with
          inorderBuffer := fun _ => none
          maxOooSequence := 0 })
    else
      e
  return (.hookContinue, e)

/- `inorder_module::hook_send` -/
def hookSend
    (fmt : PacketFormat P)
    (cfg : Config)
    (c : ConnPtr)
    (p : PacketPtr)
    (e : Endpoint P) :
    Except Fault (HookStatus × Endpoint P) := do
  let conn ← e.loadConn c
  let sq := conn.lastSentSequence + 1
  let e := e.modifyConn c (fun conn =>
    { conn with lastSentSequence := sq })
  let e :=
    if cfg.inorderStrategy ≠ .noInorder ∨
        cfg.reliableEnabled then
      e.modifyPacket p (fmt.setWord .sequenceNumber sq)
    else
      e
  return (.hookContinue, e)

------------------------------------------------------------
-- Ingress
------------------------------------------------------------

/-
  Hand the payload of the packet at `p` to the input queue,
  unless it is empty.
-/
def insertPayload
    (fmt : PacketFormat P)
    (c : ConnPtr)
    (p : PacketPtr)
    (e : Endpoint P) : Except Fault (Endpoint P) := do
  let payloadLen := fmt.payloadLen (e.packets p)
  if payloadLen ≠ 0 then
    let conn ← e.loadConn c
    let inputQueue ←
      insertDataQueue conn.inputQueue p payloadLen
    return e.modifyConn c (fun conn =>
      { conn with inputQueue })
  else
    return e

/-
  The loop that delivers shelved packets, from number `i`
  on, until an empty slot or `max_ooo_sequence`. Every round
  empties a slot, so 32 rounds and a last check are enough
  fuel.
-/
def drain
    (fmt : PacketFormat P)
    (c : ConnPtr) :
    Nat → BitVec 32 → Endpoint P →
      Except Fault (Endpoint P)
| 0, _, _ => .error .diverges
| fuel + 1, i, e => do
    let conn ← e.loadConn c
    if i ≤ conn.maxOooSequence then
      match conn.inorderBuffer (slot i) with
      | none => return e
      | some p =>
          let e := e.modifyPacket p fmt.restoreTotalLen
          let e ← insertPayload fmt c p e
          drain fmt c fuel (i + 1)
            (e.modifyConn c (fun conn =>
              { conn with
                lastRecvSequence := i
                inorderBuffer :=
                  Function.update conn.inorderBuffer
                    (slot i) none }))
    else
      return e

/- The number of rounds `drain` can take. -/
def drainFuel : Nat := 33

/- The connection the identifier module found for a packet. -/
def flowConnection
    (fmt : PacketFormat P)
    (p : PacketPtr)
    (e : Endpoint P) : ConnPtr :=
  fmt.getInteger .flowIdentifier (e.packets p)

/- `hook_ingress` for `drop_out_of_order` -/
def ingressDropOutOfOrder
    (fmt : PacketFormat P)
    (p : PacketPtr)
    (e : Endpoint P) :
    Except Fault (HookStatus × Endpoint P) := do
  let c := flowConnection fmt p e
  let conn ← e.loadConn c
  let packetSeq := fmt.getWord .sequenceNumber (e.packets p)
  if conn.lastRecvSequence < packetSeq then
    let e := e.modifyConn c (fun conn =>
      { conn with lastRecvSequence := packetSeq })
    let e ← insertPayload fmt c p e
    return (.hookContinue, e)
  else
    return (.hookDrop, e)

/- `hook_ingress` for `hold_forever` -/
def ingressHoldForever
    (fmt : PacketFormat P)
    (p : PacketPtr)
    (e : Endpoint P) :
    Except Fault (HookStatus × Endpoint P) := do
  let c := flowConnection fmt p e
  let conn ← e.loadConn c
  let lastSeq := conn.lastRecvSequence
  let packetSeq := fmt.getWord .sequenceNumber (e.packets p)
  if lastSeq = 0 ∨ packetSeq = lastSeq + 1 then
    let e := e.modifyPacket p fmt.restoreTotalLen
    let e ← insertPayload fmt c p e
    let e := e.modifyConn c (fun conn =>
      { conn with lastRecvSequence := packetSeq })
    let e ← drain fmt c drainFuel (packetSeq + 1) e
    return (.hookContinue, e)
  else
    -- received out of order, so shelve the packet
    let e := e.modifyConn c (fun conn =>
      { conn with
        inorderBuffer :=
          Function.update conn.inorderBuffer
            (slot packetSeq) (some p) })
    let e :=
      if conn.maxOooSequence < packetSeq then
        e.modifyConn c (fun conn =>
          { conn with maxOooSequence := packetSeq })
      else
        e
    return (.hookDrop, e)

/- `hook_ingress` for `no_inorder` -/
def ingressNoInorder
    (fmt : PacketFormat P)
    (p : PacketPtr)
    (e : Endpoint P) :
    Except Fault (HookStatus × Endpoint P) := do
  let c := flowConnection fmt p e
  let _ ← e.loadConn c
  let e ← insertPayload fmt c p e
  return (.hookContinue, e)

/- `inorder_module::hook_ingress` -/
def hookIngress
    (fmt : PacketFormat P)
    (cfg : Config)
    (p : PacketPtr)
    (e : Endpoint P) :
    Except Fault (HookStatus × Endpoint P) :=
  match cfg.inorderStrategy with
  | .dropOutOfOrder => ingressDropOutOfOrder fmt p e
  | .holdForever => ingressHoldForever fmt p e
  | .noInorder => ingressNoInorder fmt p e

end InorderModule

end NetBlocks
