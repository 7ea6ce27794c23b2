import NetBlocks.Modules.Transmit

/-
  The sending half of the reliable module: every packet sent
  gets a timer that sends it again until it is acknowledged.

  Main declarations:
    * `ReliableModule.hookSend`
    * `ReliableModule.redeliveryCb`
-/

namespace NetBlocks

namespace ReliableModule

variable {P : Type}

/- `REDELIVERY_TIMEOUT_MS` -/
def redeliveryTimeoutMs : BitVec 64 := 50

/- `reliable_module::hook_establish` -/
def hookEstablish
    (c : ConnPtr)
    (e : Endpoint P) :
    Except Fault (HookStatus × Endpoint P) := do
  let _ ← e.loadConn c
  return (.hookContinue,
    e.modifyConn c (fun conn =>
      { conn with redeliveryBuffer := fun _ => none }))

/-
  `redelivery_cb`, which is also
  `nb__reliable_redelivery_timer_cb`: send the packet again
  and start the timer anew.
-/
def redeliveryCb
    (fmt : PacketFormat P)
    (t : TimerPtr)
    (param : PacketPtr)
    (timeout : BitVec 64)
    (e : Endpoint P) : Except Fault (Endpoint P) := do
  let size := fmt.getWord .computedTotalLen (e.packets param)
  let e := e.sendPacket param size
  let timers ← e.timers.insertTimer (some t)
    (timeout + redeliveryTimeoutMs)
    .reliableRedeliveryTimerCb param
  return { e with timers }

/- A timer's address, zero for the null pointer. -/
def timerAddress : Option TimerPtr → BitVec 64
| none => 0
| some t => toUll t

/- `reliable_module::hook_send` -/
def hookSend
    (fmt : PacketFormat P)
    (c : ConnPtr)
    (p : PacketPtr)
    (e : Endpoint P) :
    Except Fault (HookStatus × Endpoint P) := do
  let _ ← e.loadConn c
  let index :=
    slot (fmt.getWord .sequenceNumber (e.packets p))
  let e := e.modifyConn c (fun conn =>
    { conn with
      redeliveryBuffer :=
        Function.update conn.redeliveryBuffer index (some p) })
  let (t, timers) := e.timers.allocTimer
  let timers ← timers.insertTimer t
    (e.timeNow + redeliveryTimeoutMs)
    .reliableRedeliveryTimerCb p
  let e := { e with timers }
  let e := e.modifyPacket p
    (fmt.setInteger .redeliveryTimer (timerAddress t))
  let e := e.modifyPacket p
    (fmt.setWord .ackSequenceNumber 0)
  return (.hookContinue, e)

end ReliableModule

end NetBlocks
