import NetBlocks.Core.Channel
import NetBlocks.Core.Exchange

/-
  Which runs of a channel there are: while a timer is free,
  a byte can be sent, and while the queue has room, any packet
  that was sent can arrive, as often as the network likes.

  Main declarations:
    * `Connected`
    * `Connected.sendsMany`
    * `Connected.arrives`
-/

namespace NetBlocks

open Except TransitionSystem

variable {P : Type}

------------------------------------------------------------
-- Both Ends Open
------------------------------------------------------------

/-
  Both connections are open, what was sent is for the
  receiver, the timers `free` are left to the sender, and
  each of its buffers to come holds a byte.
-/
structure Connected
    (fmt : PacketFormat P)
    (cfg : Config)
    (s : Ends)
    (d c : ConnPtr)
    (free : List TimerPtr)
    (ch : Channel P) : Prop where
  invariant : ChannelInvariant fmt cfg d c ch
  sender : ∃ conn active, IsOpen cfg s d ch.sender conn ∧
    ch.sender.timers.Represents active free
  receiver : ∃ conn, IsOpen cfg s.flip c ch.receiver conn
  sent : ∀ sent ∈ ch.log, s.flip.Gets fmt sent.1 ∧
    fmt.getWord .ackSequenceNumber sent.1 = 0
  writes : ∀ (p : PacketPtr) (b : Byte),
    ch.sender.nextPacket ≤ p →
      ∃ y, fmt.writePayload [b] (lengthPacket fmt 1
        (ch.sender.packets p)) = .ok y

section Connected

variable
    {fmt : PacketFormat P}
    {cfg : Config}
    {s : Ends}
    {d c : ConnPtr}
    {u : TimerPtr}
    {free : List TimerPtr}
    {ch : Channel P}
    (hReliable : cfg.reliableEnabled = true)
    (hChecksum : cfg.checksumEnabled = false)

include hReliable hChecksum

/- A byte is sent with the next free timer. -/
theorem Connected.sends
    (hConnected : Connected fmt cfg s d c (u :: free) ch)
    (b : Byte) :
    ∃ e' x,
      ChannelSteps fmt cfg d c ch
        (.sender (.call (.send d [b])))
        { ch with
          sender := e'
          log := ch.log ++ [(x, [b])] } ∧
      Connected fmt cfg s d c free
        { ch with
          sender := e'
          log := ch.log ++ [(x, [b])] } := by
  rcases hConnected.sender with ⟨conn, active, hOpen, hPool⟩
  rcases hConnected.writes _ b (Nat.le_refl _) with ⟨y, hY⟩
  have hWrite : fmt.writePayload [b] (lengthPacket fmt
      [b].length (ch.sender.packets ch.sender.nextPacket)) =
        .ok y := hY
  rcases hOpen.sends hReliable hChecksum hPool hWrite with
    ⟨x, timers, active', -, hSend, hOpen', hPool', -, hGets,
      hNoAck⟩
  have hMoves : Moves fmt cfg ch.sender (.call (.send d [b]))
      (ch.sender.requested.sent fmt cfg d conn
        ch.sender.nextPacket timers x) := .call (.send hSend)
  have hStep : ChannelSteps fmt cfg d c ch _ _ :=
    .sender hMoves (by simp)
  rw [StackMove.sends, if_pos rfl, handedOut_sent,
    List.map_singleton] at hStep
  refine ⟨_, x, hStep, hConnected.invariant.step hReliable
    hStep, ⟨_, active', hOpen', hPool'⟩, hConnected.receiver,
    ?_, ?_⟩
  · intro sent hSent
    rcases List.mem_append.mp hSent with hSent | hSent
    · exact hConnected.sent sent hSent
    · rw [List.mem_singleton.mp hSent]
      exact ⟨hGets, hNoAck⟩
  · intro p b' hp
    have hNe : p ≠ ch.sender.nextPacket :=
      Nat.ne_of_gt (Nat.lt_of_succ_le hp)
    have hSame : (ch.sender.requested.sent fmt cfg d conn
        ch.sender.nextPacket timers x).packets p =
          ch.sender.packets p :=
      Endpoint.setPacket_packets_of_ne _ _ hNe
    change ∃ y, fmt.writePayload [b'] (lengthPacket fmt 1
      ((ch.sender.requested.sent fmt cfg d conn
        ch.sender.nextPacket timers x).packets p)) = .ok y
    rw [hSame]
    exact hConnected.writes p b' (Nat.le_of_succ_le hp)

/- So is a byte after another, whatever is asked of arrivals. -/
theorem Connected.sendsMany
    {guard : Channel P → ChannelMove P → Prop}
    (hGuard : ∀ ch m, guard ch (.sender m))
    (hConnected : Connected fmt cfg s d c free ch)
    (bytes : List Byte)
    (hTimers : bytes.length ≤ free.length) :
    ∃ moves e' sent free',
      Run (Guarded guard (ChannelSteps fmt cfg d c)) ch moves
        { ch with sender := e', log := ch.log ++ sent } ∧
      Connected fmt cfg s d c free'
        { ch with sender := e', log := ch.log ++ sent } ∧
      sent.map Prod.snd = bytes.map (fun b => [b]) := by
  induction bytes generalizing ch free with
  | nil =>
      refine ⟨[], ch.sender, [], free, ?_, ?_, rfl⟩
      · rw [List.append_nil]
        exact .nil ch
      · rw [List.append_nil]
        exact hConnected
  | cons b bytes ih =>
      cases free with
      | nil => cases hTimers
      | cons u free =>
          rcases hConnected.sends hReliable hChecksum b with
            ⟨e₁, x, hStep, hConnected₁⟩
          rcases ih hConnected₁
              (Nat.le_of_succ_le_succ hTimers) with
            ⟨moves, e', sent, free', hRun, hEnd, hSent⟩
          have hLog : ch.log ++ [(x, [b])] ++ sent =
              ch.log ++ (x, [b]) :: sent := by
            rw [List.append_assoc, List.singleton_append]
          rw [hLog] at hRun hEnd
          refine ⟨_, e', (x, [b]) :: sent, free',
            .cons ⟨hGuard _ _, hStep⟩ hRun, hEnd, ?_⟩
          rw [List.map_cons, List.map_cons, hSent]

/- Any packet that was sent can be the next to arrive. -/
theorem Connected.arrives
    {conn : Connection}
    {i : Nat}
    {y : P}
    {bytes : List Byte}
    (hConnected : Connected fmt cfg s d c free ch)
    (hConn : ch.receiver.conns c = some conn)
    (hRoom : conn.inputQueue.length + 34 ≤ maxDataQueueElems)
    (hAt : ch.log[i]? = some (y, bytes)) :
    ∃ ch' conn' status w taken positions,
      ChannelSteps fmt cfg d c ch
        (.receiver (.call (.ingress y 0))) ch' ∧
      Connected fmt cfg s d c free ch' ∧
      ch'.log = ch.log ∧
      Placed fmt cfg c ch ch' i ch.receiver.nextPacket
        (ch.receiver.polled y) conn conn' status w taken
        positions ∧
      conn'.inputQueue.length ≤ conn.inputQueue.length + 34 := by
  rcases hConnected.receiver with ⟨conn₁, hOpen⟩
  cases hConn.symm.trans hOpen.live
  have hSent := hConnected.sent _ (List.mem_of_getElem? hAt)
  have hCarries := hConnected.invariant.numbered.carries _ _ _
    hAt
  rcases hPlace : place cfg.inorderStrategy (numberAt i)
    ch.receiver.nextPacket conn.inorderView with
    ⟨status, w, taken⟩
  have hFits : ∀ lens : PacketPtr → Int,
      Room conn.inputQueue (payloads lens (arrivedPackets
        status ch.receiver.nextPacket taken)) := by
    intro lens
    have hLength := place_payloads_le hPlace lens
    exact Or.inr (by omega)
  rcases hOpen.takes hReliable hChecksum hSent.1 hSent.2
      hCarries.number hPlace (fun lens _ => hFits lens) 0 with
    ⟨ack, e', conn', hIngress, hOpen', hLength, -⟩
  have hMoves : Moves fmt cfg ch.receiver
      (.call (.ingress y 0)) e' := .call (.ingress hIngress)
  have hOwn : (ch.receiver.polled y).packets
      ch.receiver.nextPacket = y := polled_packets_self _
  have hReceiver : dataReceiver fmt cfg ch.receiver.nextPacket
      (ch.receiver.polled y) = some c := by
    rcases hOpen.routes hChecksum hSent.1 with
      ⟨hCheck, hHost, hFound⟩
    refine dataReceiver_eq_some_iff.mpr ⟨_, by rw [hOwn]; exact
      hCheck, hHost, hFound, hOpen.ne_null, ?_⟩
    intro _
    rw [PacketFormat.getWord,
      PacketFormat.get_restoreTotalLen (by decide),
      ← PacketFormat.getWord, hSent.2]
  have hGenuine : Genuine fmt cfg c ch
      (.call (.ingress y 0)) := by
    intro p e hProcesses _
    cases hProcesses
    refine ⟨i, y, bytes, hAt, ?_⟩
    rw [hOwn]
    exact ⟨fun _ _ => rfl, fun _ _ => rfl⟩
  have hStep := ChannelSteps.receiver (d := d) hMoves (by simp)
    hGenuine
  have hIsAt : ch.log.IsAt fmt i ((ch.receiver.polled y
      ).packets ch.receiver.nextPacket) := by
    rw [hOwn]
    exact ⟨y, bytes, hAt, hCarries⟩
  rcases hConnected.invariant.received hReliable hMoves rfl
      hReceiver hConn hIsAt with
    ⟨conn₂, status₂, w₂, taken₂, positions, hPlaced⟩
  have hAfter := hPlaced.after
  rw [Channel.received_receiver] at hAfter
  cases hOpen'.live.symm.trans hAfter
  refine ⟨_, conn', status₂, w₂, taken₂, positions, hStep,
    ⟨hConnected.invariant.step hReliable hStep, ?_, ?_, ?_, ?_⟩,
    Channel.received_log _ _, hPlaced, hLength⟩
  · rw [Channel.received_sender]
    exact hConnected.sender
  · rw [Channel.received_receiver]
    exact ⟨conn', hOpen'⟩
  · rw [Channel.received_log]
    exact hConnected.sent
  · rw [Channel.received_sender]
    exact hConnected.writes

end Connected

end NetBlocks
