import NetBlocks.Core.Replay
import NetBlocks.Correctness.ArmedSlots
import NetBlocks.Correctness.Listener
import NetBlocks.Correctness.TimerAccounting
import NetBlocks.Runtime.Mlx5Transport

/-
  The send buffers of the mlx5 transport, which are handed
  out in rotation and never given back, and the packets that
  may have to be sent again from them.

  Main declarations:
    * `Mlx5Endpoint` and `Mlx5Steps`
    * `Mlx5Endpoint.Unused` and `Mlx5Endpoint.Timely`
    * `BuffersKept`
    * `unused_iff_of_run`
-/

namespace NetBlocks

open Except TransitionSystem

variable {P : Type}

------------------------------------------------------------
-- The Stack on the Transport
------------------------------------------------------------

namespace Mlx5Transport

/- The buffer `mlx5_get_next_send_buffer` returns, by index. -/
def sendFrame
    (t : Mlx5Transport) : PacketPtr :=
  t.sendBufferIndex

/-
  The buffer `mlx5_get_next_recv_buffer` returns. It comes
  after the 512 send buffers.
-/
def recvFrame
    (t : Mlx5Transport) : PacketPtr :=
  512 + t.recvBufferIndex

end Mlx5Transport

/-
  A process on the mlx5 transport. `requests` counts the send
  buffers requested, and `sentAs` records, for each buffer,
  what was handed to the transport when the modules last sent
  a packet in it, and how many buffers were requested before.
-/
structure Mlx5Endpoint (P : Type) where
  endpoint : Endpoint P
  transport : Mlx5Transport
  requests : Nat
  sentAs : PacketPtr → (P × BitVec 32) × Nat

/-
  What happens: the NIC writes completions, the program or
  the main loop calls the stack, or a packet is received.
-/
inductive Mlx5Event (P : Type) where
| completes (arr : Nat → Mlx5Cqe)
| call (call : Call P)
| receives (x : P)

namespace Mlx5Endpoint

/- The next send buffer is the transport's. -/
def ready
    (m : Mlx5Endpoint P) : Endpoint P :=
  { m.endpoint with nextPacket := m.transport.sendFrame }

/- A received packet is where the transport put it. -/
def arrived
    (m : Mlx5Endpoint P)
    (x : P) : Endpoint P :=
  m.ready.setPacket m.transport.recvFrame x

/-
  After a step that left the stack at `e'`. The transport
  advances if the step requested a buffer, and then `log` is
  what is recorded of it.
-/
def next
    (m : Mlx5Endpoint P)
    (t : Mlx5Transport)
    (log : PacketPtr → (P × BitVec 32) × Nat)
    (e' : Endpoint P) : Mlx5Endpoint P :=
  if e'.nextPacket = m.transport.sendFrame then
    { m with
      endpoint := e'
      transport := t }
  else
    { endpoint := e'
      transport := t.getNextSendBuffer.2
      requests := m.requests + 1
      sentAs := log }

/- The last packet sent is recorded for the next buffer. -/
def logged
    (m : Mlx5Endpoint P)
    (fmt : PacketFormat P)
    (e' : Endpoint P) :
    PacketPtr → (P × BitVec 32) × Nat :=
  Function.update m.sentAs m.transport.sendFrame
    (e'.out.getLast?.getD
      (e'.onWire fmt m.transport.sendFrame), m.requests)

/- `nb__net_init` on the transport it set up. -/
def start
    (fresh : NetState)
    (sendBuffer recvBuffer : Int)
    (recvKey : BitVec 32)
    (sentAs : PacketPtr → (P × BitVec 32) × Nat)
    (e : Endpoint P) : Mlx5Endpoint P where
  endpoint := nbNetInit fresh e
  transport :=
    .tryTransport sendBuffer recvBuffer recvKey
  requests := 0
  sentAs := sentAs

end Mlx5Endpoint

/-
  One step. An acknowledgement takes a send buffer as well,
  but it is not recorded, since it is never sent again.
-/
inductive Mlx5Steps
    (fmt : PacketFormat P)
    (cfg : Config)
    (m : Mlx5Endpoint P) :
    Mlx5Event P → Mlx5Endpoint P → Prop
| completes {arr : Nat → Mlx5Cqe} :
    Mlx5Steps fmt cfg m (.completes arr)
      { m with transport :=
        { m.transport with recvCqeArr := arr } }
| call {call : Call P} {e' : Endpoint P} :
    (∀ x len, call ≠ .ingress x len) →
    Calls fmt cfg m.ready call e' →
    Mlx5Steps fmt cfg m (.call call)
      (m.next m.transport (m.logged fmt e') e')
| receives {x : P} {headroom addr : Int} {size : Nat}
    {t : Mlx5Transport} {e' : Endpoint P} :
    m.transport.pollPacket headroom = (some addr, size, t) →
    nbRunIngressStep fmt cfg m.transport.recvFrame size
      (m.arrived x) = .ok e' →
    Mlx5Steps fmt cfg m (.receives x)
      (m.next t m.sentAs e')

/- The next send buffer is not needed any more. -/
def Mlx5Endpoint.Unused
    (m : Mlx5Endpoint P) : Prop :=
  ¬ m.endpoint.Retains m.transport.sendFrame

/-
  Every packet that may be sent again was sent fewer than 512
  requests ago.
-/
def Mlx5Endpoint.Timely
    (m : Mlx5Endpoint P) : Prop :=
  ∀ p, m.endpoint.Retains p →
    m.requests < (m.sentAs p).2 + 512

/- The steps that request a buffer only in time. -/
def TimelySteps
    (fmt : PacketFormat P)
    (cfg : Config)
    (m : Mlx5Endpoint P)
    (event : Mlx5Event P)
    (m' : Mlx5Endpoint P) : Prop :=
  Mlx5Steps fmt cfg m event m' ∧
    (m'.requests ≠ m.requests → m.Timely)

/-
  What is sent when timers fire is what was sent at first, of
  packets that are not acknowledged.
-/
def Mlx5Endpoint.ResendsOriginals
    (fmt : PacketFormat P)
    (m : Mlx5Endpoint P) : Prop :=
  ∀ e', checkTimers fmt m.endpoint = .ok e' →
    ∃ fired : List PacketPtr,
      (∀ p ∈ fired, m.endpoint.Retains p) ∧
      e'.out = m.endpoint.out ++
        fired.map (fun p => (m.sentAs p).1)

------------------------------------------------------------
-- What Is Sent and Shelved
------------------------------------------------------------

section Calls

variable
    {fmt : PacketFormat P}
    {cfg : Config}
    {e e' : Endpoint P}
    {c : ConnPtr}
    {p q : PacketPtr}

theorem out_sent
    (conn : Connection)
    (timers : TimerPool)
    (x : P) :
    (e.requested.sent fmt cfg c conn e.nextPacket timers
      x).out = e.out ++ [(e.requested.sent fmt cfg c conn
        e.nextPacket timers x).onWire fmt e.nextPacket] := by
  have hPacket : (e.requested.sent fmt cfg c conn
      e.nextPacket timers x).packets e.nextPacket = x :=
    Endpoint.setPacket_packets_self _ _ _
  rw [Endpoint.onWire, hPacket]
  simp [Endpoint.sent, Endpoint.transmit,
    Endpoint.sendPacket, Endpoint.requested,
    Endpoint.setPacket, Endpoint.setConn]

/- A call that takes a buffer sends the packet in it. -/
theorem Calls.transmits
    {call : Call P}
    (hNot : ∀ x len, call ≠ .ingress x len)
    (hCall : Calls fmt cfg e call e')
    (hTaken : e'.nextPacket ≠ e.nextPacket) :
    e'.out = e.out ++ [e'.onWire fmt e.nextPacket] := by
  cases hCall with
  | establish _ _ hEstablish =>
      rcases nbEstablish_ok_iff.mp hEstablish with
        ⟨netState, conn', e₁, -, hSignal, rfl⟩
      cases hSignal with
      | wildcard => exact absurd rfl hTaken
      | unsignaled => exact absurd rfl hTaken
      | signals => exact out_sent _ _ _
  | destablish hDestablish =>
      rcases nbDestablish_ok_iff.mp hDestablish with
        ⟨conn, -, rfl⟩
      exact absurd rfl hTaken
  | send hSend =>
      rcases nbSend_ok_iff.mp hSend with
        ⟨_, _, _, _, _, -, -, -, -, rfl⟩
      exact out_sent _ _ _
  | @ingress _ x len => exact absurd rfl (hNot x len)
  | checkTimers hCheck =>
      rcases checkTimersLoop_frame hCheck with
        ⟨timers, out, rfl⟩
      exact absurd rfl hTaken
  | tick => exact absurd rfl hTaken
  | read hRead =>
      rcases nbRead_frame hRead with ⟨_, _, _, rfl⟩
      exact absurd rfl hTaken

/- A packet is shelved at some connection. -/
def Endpoint.Shelves
    (cfg : Config)
    (e : Endpoint P)
    (q : PacketPtr) : Prop :=
  ∃ c conn k, e.conns c = some conn ∧
    conn.inorderView.slots cfg.inorderStrategy k = some q

theorem Endpoint.Shelves.of_update
    {conn' : Connection}
    (hShelves : e'.Shelves cfg q)
    (new : PacketPtr → Prop)
    (hConns : e'.conns =
      Function.update e.conns c (some conn'))
    (hSlots : ∀ k, conn'.inorderView.slots
        cfg.inorderStrategy k = some q →
      new q ∨ e.Shelves cfg q) :
    new q ∨ e.Shelves cfg q := by
  rcases hShelves with ⟨d, conn, k, hConn, hSlot⟩
  rw [hConns, Function.update_apply] at hConn
  split at hConn
  · cases hConn
    exact hSlots k hSlot
  · exact Or.inr ⟨d, conn, k, hConn, hSlot⟩

/- Only packets received are shelved. -/
theorem Calls.shelves
    {call : Call P}
    (hNot : ∀ x len, call ≠ .ingress x len)
    (hCall : Calls fmt cfg e call e')
    (hShelves : e'.Shelves cfg q) :
    e.Shelves cfg q := by
  have hNothing : False ∨ e.Shelves cfg q := by
    cases hCall with
    | establish _ _ hEstablish =>
        apply hShelves.of_update (fun _ => False)
          (nbEstablish_conns hEstablish)
        intro k hSlot
        rw [openedConn_slots] at hSlot
        cases hSlot
    | destablish hDestablish =>
        rcases nbDestablish_ok_iff.mp hDestablish with
          ⟨conn, -, rfl⟩
        rcases hShelves with ⟨d, conn', k, hConn, hSlot⟩
        simp only [Function.update_apply] at hConn
        split at hConn
        · cases hConn
        · exact Or.inr ⟨d, conn', k, hConn, hSlot⟩
    | send hSend =>
        rcases nbSend_ok_iff.mp hSend with
          ⟨conn, _, x, _, timers, hConn, -, -, -, rfl⟩
        apply hShelves.of_update (fun _ => False) rfl
        intro k hSlot
        exact Or.inr ⟨_, conn, k, hConn, hSlot⟩
    | @ingress _ x len => exact absurd rfl (hNot x len)
    | checkTimers hCheck =>
        rcases checkTimersLoop_frame hCheck with
          ⟨timers, out, rfl⟩
        exact Or.inr hShelves
    | tick => exact Or.inr hShelves
    | read hRead =>
        rcases nbRead_frame hRead with
          ⟨conn, queue, hConn, rfl⟩
        apply hShelves.of_update (fun _ => False) rfl
        intro k hSlot
        refine Or.inr ⟨_, conn, k, hConn, ?_⟩
        cases hStrategy : cfg.inorderStrategy <;>
          rw [hStrategy] at hSlot <;> exact hSlot
  exact hNothing.resolve_left id

/- A packet received may be shelved. -/
theorem IngressResult.shelves
    (hIngress : IngressResult fmt cfg p e e')
    (hShelves : e'.Shelves cfg q) :
    q = p ∨ e.Shelves cfg q := by
  cases hIngress with
  | dropped hFront =>
      cases hFront with
      | rejected => exact Or.inr hShelves
      | unclaimed => exact Or.inr hShelves
      | @parked y listener conn queue _ _ _ _ _ _ hConn =>
          apply hShelves.of_update (· = p) rfl
          intro k hSlot
          exact Or.inr ⟨_, conn, k, hConn, hSlot⟩
  | routed _ _ _ hBack =>
      rcases hBack.delivers with ⟨conn, conn', hDelivers⟩
      apply hShelves.of_update (· = p)
        hDelivers.conns
      intro k hSlot
      rcases hDelivers.slots k q hSlot with hEq | ⟨k, hOld⟩
      · exact Or.inl hEq
      · exact Or.inr ⟨_, conn, k, hDelivers.found, hOld⟩

/- Which packets are written when one is received. -/
theorem IngressResult.packets_eq
    (hIngress : IngressResult fmt cfg p e e')
    (hNe : q ≠ p)
    (hShelved : ¬ e.Shelves cfg q)
    (hNext : e'.nextPacket = e.nextPacket ∨
      q ≠ e.nextPacket) :
    e'.packets q = e.packets q := by
  cases hIngress with
  | dropped hFront =>
      cases hFront with
      | rejected =>
          exact Endpoint.setPacket_packets_of_ne e _ hNe
      | unclaimed =>
          exact Endpoint.setPacket_packets_of_ne e _ hNe
      | parked =>
          exact Endpoint.setPacket_packets_of_ne e _ hNe
  | routed _ _ _ hBack =>
      have hSame := hBack.packets_eq hNe
        (fun c conn k hConn hSlot =>
          hShelved ⟨c, conn, k, hConn, hSlot⟩) hNext
      rw [hSame]
      exact Endpoint.setPacket_packets_of_ne e _ hNe

end Calls

------------------------------------------------------------
-- The Invariant
------------------------------------------------------------

/-
  The packet at `p` was sent in the buffer of its turn, at
  most 512 requests ago, and is as it was sent.
-/
structure Mlx5Endpoint.Keeps
    (fmt : PacketFormat P)
    (m : Mlx5Endpoint P)
    (p : PacketPtr) : Prop where
  turn : p = (m.sentAs p).2 % 512
  before : (m.sentAs p).2 < m.requests
  recent : m.requests ≤ (m.sentAs p).2 + 512
  original : m.endpoint.onWire fmt p = (m.sentAs p).1

/-
  The transport's index counts the requests, packets are only
  shelved in receive buffers, and active timers are for
  packets that are kept.
-/
structure BuffersKept
    (fmt : PacketFormat P)
    (cfg : Config)
    (m : Mlx5Endpoint P) : Prop where
  index : m.transport.sendBufferIndex = m.requests % 512
  hosts : HostsKept m.endpoint
  shelved : ∀ q, m.endpoint.Shelves cfg q → 512 ≤ q
  timers : HasArmedSlots fmt (m.Keeps fmt) m.endpoint

section Buffers

variable
    {fmt : PacketFormat P}
    {cfg : Config}
    {m m' : Mlx5Endpoint P}
    {active free : List TimerPtr}
    {e e' : Endpoint P}
    {p : PacketPtr}

theorem Mlx5Endpoint.Keeps.lt
    (hKeeps : m.Keeps fmt p) :
    p < 512 := by
  rw [hKeeps.turn]
  exact Nat.mod_lt _ (by decide)

/- Its buffer is the next one only after 512 requests. -/
theorem BuffersKept.frame_iff
    (hKept : BuffersKept fmt cfg m)
    (hKeeps : m.Keeps fmt p) :
    p = m.transport.sendFrame ↔
      m.requests = (m.sentAs p).2 + 512 := by
  have hTurns : ∀ p n requests : Nat, p = n % 512 →
      n < requests → requests ≤ n + 512 →
      (p = requests % 512 ↔ requests = n + 512) := by
    omega
  rw [Mlx5Transport.sendFrame, hKept.index]
  exact hTurns _ _ _ hKeeps.turn hKeeps.before hKeeps.recent

theorem BuffersKept.keeps
    (hKept : BuffersKept fmt cfg m)
    (hRetains : m.endpoint.Retains p) :
    m.Keeps fmt p := by
  rcases hKept.timers with ⟨active, free, hSlots, hArmed⟩
  rcases hSlots.retains_iff.mp hRetains with
    ⟨t, hActive, hArgument⟩
  rw [← hArgument]
  exact hArmed t hActive

/- Packets are received elsewhere. -/
theorem BuffersKept.frames_ne
    (hKept : BuffersKept fmt cfg m) :
    m.transport.recvFrame ≠ m.transport.sendFrame := by
  have hLt : m.transport.sendBufferIndex < 512 := by
    rw [hKept.index]
    exact Nat.mod_lt _ (by decide)
  exact Nat.ne_of_gt
    (Nat.lt_of_lt_of_le hLt (Nat.le_add_right 512 _))

/- The next buffer is unused as long as packets are in time. -/
theorem BuffersKept.unused_iff
    (hKept : BuffersKept fmt cfg m) :
    m.Unused ↔ m.Timely := by
  constructor
  · intro hUnused p hRetains
    have hKeeps := hKept.keeps hRetains
    apply Nat.lt_of_le_of_ne hKeeps.recent
    intro hEq
    have hFrame := (hKept.frame_iff hKeeps).mpr hEq
    rw [hFrame] at hRetains
    exact hUnused hRetains
  · intro hTimely hRetains
    have hKeeps := hKept.keeps hRetains
    have hEq := (hKept.frame_iff hKeeps).mp rfl
    exact Nat.ne_of_lt (hTimely _ hRetains) hEq

/- Slots and timers do not depend on what buffer is next. -/
theorem SlotsArmed.ready
    (hSlots : SlotsArmed fmt m.endpoint active free) :
    SlotsArmed fmt m.ready active free :=
  hSlots.of_same rfl (fun _ _ _ hHolds => hHolds)
    (fun _ _ => rfl)

theorem Mlx5Endpoint.next_of_same
    {t : Mlx5Transport}
    {log : PacketPtr → (P × BitVec 32) × Nat}
    (hSame : e'.nextPacket = m.transport.sendFrame) :
    m.next t log e' = { m with
      endpoint := e'
      transport := t } :=
  if_pos hSame

theorem Mlx5Endpoint.next_of_taken
    {t : Mlx5Transport}
    {log : PacketPtr → (P × BitVec 32) × Nat}
    (hTaken : e'.nextPacket ≠ m.transport.sendFrame) :
    m.next t log e' =
      { endpoint := e'
        transport := t.getNextSendBuffer.2
        requests := m.requests + 1
        sentAs := log } :=
  if_neg hTaken

/- A packet is kept while another buffer is requested. -/
theorem Mlx5Endpoint.Keeps.aged
    (hKeeps : m.Keeps fmt p)
    (hRequests : m'.requests = m.requests + 1)
    (hLog : m'.sentAs p = m.sentAs p)
    (hPacket : m'.endpoint.packets p = m.endpoint.packets p)
    (hRecent : m.requests < (m.sentAs p).2 + 512) :
    m'.Keeps fmt p := by
  refine ⟨?_, ?_, ?_, ?_⟩
  · rw [hLog]
    exact hKeeps.turn
  · rw [hLog, hRequests]
    exact Nat.lt_succ_of_lt hKeeps.before
  · rw [hLog, hRequests]
    exact hRecent
  · rw [hLog, ← hKeeps.original, Endpoint.onWire, hPacket,
      Endpoint.onWire]

/- A packet is kept once it is sent. -/
theorem Mlx5Endpoint.Keeps.sent
    (hRequests : m'.requests = m.requests + 1)
    (hTurn : p = m.requests % 512)
    (hLog : m'.sentAs p =
      (m'.endpoint.onWire fmt p, m.requests)) :
    m'.Keeps fmt p := by
  refine ⟨?_, ?_, ?_, ?_⟩
  · rw [hLog]
    exact hTurn
  · rw [hLog, hRequests]
    exact Nat.lt_succ_self _
  · rw [hLog, hRequests]
    exact Nat.add_le_add_left (by decide) _
  · rw [hLog]

/- A step that requests no buffer. -/
theorem BuffersKept.of_same
    {t : Mlx5Transport}
    {log : PacketPtr → (P × BitVec 32) × Nat}
    (hKept : BuffersKept fmt cfg m)
    (hIndex : t.sendBufferIndex = m.transport.sendBufferIndex)
    (hHosts : HostsKept e')
    (hShelved : ∀ q, e'.Shelves cfg q → 512 ≤ q)
    (hSame : e'.nextPacket = m.transport.sendFrame)
    (hPackets : ∀ q, q < 512 → e'.packets q =
      m.endpoint.packets q)
    (hArms : HasArmedSlots fmt (m.Keeps fmt) e') :
    BuffersKept fmt cfg (m.next t log e') := by
  rw [Mlx5Endpoint.next_of_same hSame]
  rcases hArms with ⟨active, free, hSlots, hArmed⟩
  refine ⟨hIndex.trans hKept.index, hHosts, hShelved,
    active, free, hSlots, ?_⟩
  intro t ht
  have hKeeps := hArmed t ht
  refine ⟨hKeeps.turn, hKeeps.before, hKeeps.recent, ?_⟩
  rw [← hKeeps.original, Endpoint.onWire, Endpoint.onWire,
    hPackets _ hKeeps.lt]

/-
  A step that requests a buffer which nothing needs. It may
  arm a timer for a packet in it that it sent.
-/
theorem BuffersKept.of_taken
    {t : Mlx5Transport}
    {log : PacketPtr → (P × BitVec 32) × Nat}
    {sent : Prop}
    (hKept : BuffersKept fmt cfg m)
    (hIndex : t.sendBufferIndex = m.transport.sendBufferIndex)
    (hHosts : HostsKept e')
    (hShelved : ∀ q, e'.Shelves cfg q → 512 ≤ q)
    (hTaken : e'.nextPacket ≠ m.transport.sendFrame)
    (hPackets : ∀ q, q < 512 → q ≠ m.transport.sendFrame →
      e'.packets q = m.endpoint.packets q)
    (hLog : ∀ q, q ≠ m.transport.sendFrame →
      log q = m.sentAs q)
    (hSent : sent → log m.transport.sendFrame =
      (e'.onWire fmt m.transport.sendFrame, m.requests))
    (hArms : HasArmedSlots fmt (fun p => m.Keeps fmt p ∧
        p ≠ m.transport.sendFrame ∨
      sent ∧ p = m.transport.sendFrame) e') :
    BuffersKept fmt cfg (m.next t log e') := by
  rw [Mlx5Endpoint.next_of_taken hTaken]
  rcases hArms with ⟨active, free, hSlots, hArmed⟩
  refine ⟨?_, hHosts, hShelved, active, free, hSlots, ?_⟩
  · change (t.sendBufferIndex + 1) % 512 = _
    rw [hIndex, hKept.index, Nat.mod_add_mod]
  · intro u hu
    rcases hArmed u hu with ⟨hKeeps, hNe⟩ | ⟨hOf, hEq⟩
    · have hRecent := Nat.lt_of_le_of_ne hKeeps.recent
        (fun hEq => hNe ((hKept.frame_iff hKeeps).mpr hEq))
      exact hKeeps.aged rfl (hLog _ hNe)
        (hPackets _ hKeeps.lt hNe) hRecent
    · apply Mlx5Endpoint.Keeps.sent (m := m) rfl
      · rw [← hKept.index]
        exact hEq
      · change log (e'.timers.allocatedTimers u).argument = _
        rw [hEq]
        exact hSent hOf

------------------------------------------------------------
-- What Steps Preserve
------------------------------------------------------------

/- A call of the stack. -/
theorem BuffersKept.call
    {call : Call P}
    (hKept : BuffersKept fmt cfg m)
    (hReliable : cfg.reliableEnabled = true)
    (hNot : ∀ x len, call ≠ .ingress x len)
    (hCall : Calls fmt cfg m.ready call e')
    (hTimely : e'.nextPacket ≠ m.transport.sendFrame →
      m.Timely) :
    BuffersKept fmt cfg
      (m.next m.transport (m.logged fmt e') e') := by
  have hHosts : HostsKept m.ready :=
    ⟨hKept.hosts.own, hKept.hosts.remote⟩
  have hHosts' := hCall.hostsKept hHosts
  have hShelved : ∀ q, e'.Shelves cfg q → 512 ≤ q := by
    intro q hShelves
    have hBefore : m.ready.Shelves cfg q :=
      hCall.shelves hNot hShelves
    exact hKept.shelved q hBefore
  rcases hKept.timers with ⟨active, free, hSlots, hArmed⟩
  by_cases hSame : e'.nextPacket = m.transport.sendFrame
  · have hArms : HasArmedSlots fmt (m.Keeps fmt) e' :=
      hSlots.ready.step hArmed hReliable hHosts hNot hCall
        (fun hLt => absurd hSame (Nat.ne_of_gt hLt))
    apply hKept.of_same rfl hHosts' hShelved hSame _ hArms
    intro q _
    cases hCall.takes hNot with
    | nothing _ hPackets => rw [hPackets]; rfl
    | next hNext =>
        exact absurd (hNext.symm.trans hSame)
          (Nat.succ_ne_self _)
  · have hUnused := hKept.unused_iff.mpr (hTimely hSame)
    have hArmed' : ArmedFor (fun p => m.Keeps fmt p ∧
          p ≠ m.transport.sendFrame ∨
        True ∧ p = m.transport.sendFrame) m.ready active := by
      intro t ht
      refine Or.inl ⟨hArmed t ht, ?_⟩
      intro hEq
      exact hUnused (hSlots.retains_iff.mpr ⟨t, ht, hEq⟩)
    have hArms := hSlots.ready.step hArmed' hReliable hHosts
      hNot hCall (fun _ =>
        ⟨fun hHolds => hUnused (Or.inl hHolds),
          Or.inr ⟨trivial, rfl⟩⟩)
    have hOut := hCall.transmits hNot hSame
    apply hKept.of_taken rfl hHosts' hShelved hSame _ _ _
      hArms
    · intro q _ hNe
      cases hCall.takes hNot with
      | nothing hNext => exact absurd hNext hSame
      | next _ hPackets => exact hPackets q hNe
    · intro q hNe
      exact Function.update_of_ne hNe _ _
    · intro _
      rw [Mlx5Endpoint.logged, Function.update_self, hOut,
        List.getLast?_concat]
      rfl

/- A packet received, which may be acknowledged. -/
theorem BuffersKept.receives
    {t : Mlx5Transport}
    {x : P}
    (hKept : BuffersKept fmt cfg m)
    (hIndex : t.sendBufferIndex = m.transport.sendBufferIndex)
    (hIngress : IngressResult fmt cfg m.transport.recvFrame
      (m.arrived x) e')
    (hTimely : e'.nextPacket ≠ m.transport.sendFrame →
      m.Timely) :
    BuffersKept fmt cfg (m.next t m.sentAs e') := by
  have hHosts : HostsKept (m.arrived x) :=
    ⟨hKept.hosts.own, hKept.hosts.remote⟩
  have hHosts' := hIngress.sameTable.hostsKept hHosts
  have hFrame : ∀ q, q < 512 → q ≠ m.transport.recvFrame := by
    intro q hLt hEq
    rw [hEq] at hLt
    exact Nat.not_lt_of_le (Nat.le_add_right 512 _) hLt
  have hShelved : ∀ q, e'.Shelves cfg q → 512 ≤ q := by
    intro q hShelves
    rcases hIngress.shelves hShelves with hEq | hBefore
    · rw [hEq]
      exact Nat.le_add_right 512 _
    · exact hKept.shelved q hBefore
  have hPackets : ∀ q, q < 512 →
      e'.nextPacket = m.transport.sendFrame ∨
        q ≠ m.transport.sendFrame →
      e'.packets q = m.endpoint.packets q := by
    intro q hLt hNext
    have hUnshelved : ¬ (m.arrived x).Shelves cfg q :=
      fun hShelves => Nat.not_lt_of_le
        (hKept.shelved q hShelves) hLt
    rw [hIngress.packets_eq (hFrame q hLt) hUnshelved hNext]
    exact Endpoint.setPacket_packets_of_ne _ _ (hFrame q hLt)
  rcases hKept.timers with ⟨active, free, hSlots, hArmed⟩
  have hUnheld : ¬ m.ready.Holds m.transport.recvFrame := by
    intro hHolds
    have hKeeps := hKept.keeps (Or.inl hHolds)
    exact hFrame _ hKeeps.lt rfl
  have hSlots' : SlotsArmed fmt (m.arrived x) active free :=
    hSlots.ready.setPacket hUnheld x
  by_cases hSame : e'.nextPacket = m.transport.sendFrame
  · have hArms : HasArmedSlots fmt (m.Keeps fmt) e' :=
      hSlots'.processes hArmed hUnheld
        (fun hLt => absurd hSame (Nat.ne_of_gt hLt)) hIngress
    exact hKept.of_same hIndex hHosts' hShelved hSame
      (fun q hLt => hPackets q hLt (Or.inl hSame)) hArms
  · have hUnused := hKept.unused_iff.mpr (hTimely hSame)
    have hArmed' : ArmedFor (fun p => m.Keeps fmt p ∧
          p ≠ m.transport.sendFrame ∨
        False ∧ p = m.transport.sendFrame) (m.arrived x)
        active := by
      intro u hu
      refine Or.inl ⟨hArmed u hu, ?_⟩
      intro hEq
      exact hUnused (hSlots.retains_iff.mpr ⟨u, hu, hEq⟩)
    have hArms := hSlots'.processes hArmed' hUnheld
      (fun _ hHolds => hUnused (Or.inl hHolds)) hIngress
    exact hKept.of_taken hIndex hHosts' hShelved hSame
      (fun q hLt hNe => hPackets q hLt (Or.inr hNe))
      (fun _ _ => rfl) False.elim hArms

theorem requests_next
    {t : Mlx5Transport}
    {log : PacketPtr → (P × BitVec 32) × Nat}
    (hTaken : e'.nextPacket ≠ m.transport.sendFrame) :
    (m.next t log e').requests ≠ m.requests := by
  rw [Mlx5Endpoint.next_of_taken hTaken]
  exact Nat.succ_ne_self _

theorem TimelySteps.buffersKept
    {event : Mlx5Event P}
    (hReliable : cfg.reliableEnabled = true)
    (hKept : BuffersKept fmt cfg m)
    (hStep : TimelySteps fmt cfg m event m') :
    BuffersKept fmt cfg m' := by
  rcases hStep with ⟨hStep, hTimely⟩
  cases hStep with
  | completes =>
      rcases hKept.timers with ⟨active, free, hSlots, hArmed⟩
      refine ⟨hKept.index, hKept.hosts, hKept.shelved, active,
        free, hSlots, ?_⟩
      intro t ht
      have hKeeps := hArmed t ht
      exact ⟨hKeeps.turn, hKeeps.before, hKeeps.recent,
        hKeeps.original⟩
  | call hNot hCall =>
      exact hKept.call hReliable hNot hCall
        (fun hTaken => hTimely (requests_next hTaken))
  | @receives x headroom _ _ t e' hPoll hIngress =>
      have hIndex := Mlx5Transport.pollPacket_sendBufferIndex
        headroom m.transport
      rw [hPoll] at hIndex
      exact hKept.receives hIndex
        ((runIngressPath_iff hKept.frames_ne).mp hIngress)
        (fun hTaken => hTimely (requests_next hTaken))

------------------------------------------------------------
-- Runs
------------------------------------------------------------

theorem buffersKept_start
    (fresh : NetState)
    (sendBuffer recvBuffer : Int)
    (recvKey : BitVec 32)
    (sentAs : PacketPtr → (P × BitVec 32) × Nat)
    (hConns : ∀ c, e.conns c = none)
    (hHead : e.timers.timersHead = none) :
    BuffersKept fmt cfg (.start fresh sendBuffer recvBuffer
      recvKey sentAs e) := by
  have hNone : ∀ c b, (nbNetInit fresh e).buffers c ≠
      some b := by
    intro c b hB
    rcases Option.map_eq_some_iff.mp hB with ⟨conn, hConn, -⟩
    rw [show (nbNetInit fresh e).conns c = none from hConns c]
      at hConn
    cases hConn
  have hPool : (nbNetInit fresh e).timers.Represents []
      (List.finRange maxTimerAllocs) :=
    TimerPool.initTimers_represents hHead
  have hSlots : SlotsArmed fmt (nbNetInit fresh e) []
      (List.finRange maxTimerAllocs) := by
    refine ⟨hPool, ?_, ?_, ?_⟩
    · intro t
      rw [List.nil_append]
      exact List.mem_finRange t
    · rintro p ⟨c, k, b, hB, -⟩
      exact absurd hB (hNone c b)
    · rintro c k c' k' p ⟨b, hB, -⟩
      exact absurd hB (hNone c b)
  have hHosts : HostsKept (nbNetInit fresh e) := by
    apply HostsKept.netInit
    intro c x hx
    rw [Endpoint.describe, hConns c] at hx
    cases hx
  have hShelved : ∀ q, ¬ (nbNetInit fresh e).Shelves cfg q := by
    rintro q ⟨c, conn, k, hConn, -⟩
    cases (hConns c).symm.trans hConn
  exact ⟨(Nat.zero_mod 512).symm, hHosts,
    fun q hShelves => absurd hShelves (hShelved q),
    ⟨_, _, hSlots, fun t ht => by cases ht⟩⟩

/- Timers that fire send what is kept. -/
theorem BuffersKept.resendsOriginals
    (hKept : BuffersKept fmt cfg m) :
    m.ResendsOriginals fmt := by
  intro e' hCheck
  rcases hKept.timers with ⟨active, free, hSlots, hArmed⟩
  rcases checkTimers_fires hSlots.pool hCheck with
    @⟨timers, active', fired, -, -, -, hFired⟩
  have hRetains : ∀ p ∈ fired, m.endpoint.Retains p :=
    fun p hMem => hSlots.retains_iff.mpr (hFired p hMem)
  refine ⟨fired, hRetains, ?_⟩
  have hSame : fired.map (m.endpoint.onWire fmt) =
      fired.map (fun p => (m.sentAs p).1) := by
    apply List.map_congr_left
    intro p hMem
    exact (hKept.keeps (hRetains p hMem)).original
  exact congrArg (m.endpoint.out ++ ·) hSame

/-
  In every run that requests buffers only in time, the next
  buffer is unused if and only if requesting it is in time
  again, and packets are sent again as they were at first.
-/
theorem unused_iff_of_run
    {fresh : NetState}
    {sendBuffer recvBuffer : Int}
    {recvKey : BitVec 32}
    {sentAs : PacketPtr → (P × BitVec 32) × Nat}
    {events : List (Mlx5Event P)}
    (hReliable : cfg.reliableEnabled = true)
    (hConns : ∀ c, e.conns c = none)
    (hHead : e.timers.timersHead = none)
    (hRun : Run (TimelySteps fmt cfg)
      (.start fresh sendBuffer recvBuffer recvKey sentAs e)
      events m) :
    (m.Unused ↔ m.Timely) ∧ m.ResendsOriginals fmt := by
  have hKept : BuffersKept fmt cfg m := hRun.invariant
    (fun _ _ _ hKept hStep => hStep.buffersKept hReliable hKept)
    (buffersKept_start fresh sendBuffer recvBuffer recvKey
      sentAs hConns hHead)
  exact ⟨hKept.unused_iff, hKept.resendsOriginals⟩

end Buffers

------------------------------------------------------------
-- A Packet Left Behind
------------------------------------------------------------

/- The events in which the program sends. -/
def Mlx5Event.sends : Mlx5Event P → Bool
| .call (.establish ..) => true
| .call (.send ..) => true
| _ => false

/-
  A packet without payload is acknowledged, and nothing else
  changes.
-/
theorem acknowledges_empty
    {fmt : PacketFormat P}
    {cfg : Config}
    {e : Endpoint P}
    {p : PacketPtr}
    {y z : P}
    {c : ConnPtr}
    {conn : Connection}
    (hReliable : cfg.reliableEnabled = true)
    (hStrategy : cfg.inorderStrategy = .noInorder)
    (hChecksum : cfg.checksumEnabled = false)
    (hApart : p ≠ e.nextPacket)
    (hCheck : checkPacket fmt cfg (e.packets p) =
      .ok (y, true))
    (hHost : fmt.getInteger .dstHostId y = e.myLocalHostId)
    (hFound : lookup fmt cfg e y = c)
    (hNull : c ≠ 0)
    (hRouted : z = fmt.setInteger .flowIdentifier c y)
    (hData : fmt.getWord .ackSequenceNumber z = 0)
    (hEmpty : fmt.payloadLen z = 0)
    (hConn : e.conns c = some conn)
    (hWaiting : conn.signalingState ≠ .waitingForSignal) :
    ∃ e', runIngressPath fmt cfg p e = .ok e' ∧
      e'.conns = e.conns ∧
      e'.netState = e.netState ∧
      e'.myLocalHostId = e.myLocalHostId ∧
      e'.nextPacket = e.nextPacket + 1 := by
  subst hFound
  let e₀ := e.setPacket p z
  have hZ : e₀.packets p = z :=
    Endpoint.setPacket_packets_self _ _ _
  have hComplete : ∀ w, ∃ w', completePacket fmt cfg conn
      e₀.myLocalHostId e₀.myHostId w = .ok w' := by
    intro w
    simp [completePacket, checksumPacket, hChecksum]
  rcases hComplete (ackPacket fmt
      (fmt.getWord .sequenceNumber (e₀.packets p))
      (e₀.packets e₀.nextPacket)) with ⟨w, hW⟩
  let e₁ := e₀.requested.transmit fmt e₀.nextPacket w
  have hAcked : Acked fmt cfg conn
      (fmt.getWord .sequenceNumber (e₀.packets p)) e₀ e₁ :=
    .sent hReliable hW
  have hLen : InorderModule.ingressLen fmt
      cfg.inorderStrategy e₁ p p = 0 := by
    rw [InorderModule.ingressLen, hAcked.packets_eq hApart, hZ,
      if_pos ⟨by rw [hStrategy]; decide, rfl⟩]
    exact hEmpty
  have hAbsorb : absorb cfg.inorderStrategy
      (InorderModule.ingressLen fmt cfg.inorderStrategy e₁ p)
      (fmt.getWord .sequenceNumber (e₀.packets p)) p
      conn.inorderView =
        .ok (.hookContinue, conn.inorderView, []) := by
    apply absorb_ok_iff.mpr
    have hPlace : place cfg.inorderStrategy
        (fmt.getWord .sequenceNumber (e₀.packets p)) p
        conn.inorderView =
          (.hookContinue, conn.inorderView, []) := by
      rw [hStrategy, place]
    refine ⟨conn.inorderView, hPlace, ?_, ?_⟩
    · rw [arrivedPackets, if_pos rfl, payloads_of_zero hLen]
      exact room_nil _
    · rw [arrivedPackets, if_pos rfl, payloads_of_zero hLen,
        List.append_nil]
  have hSame : arrivedConn conn .hookContinue
      conn.inorderView = conn := by
    rw [arrivedConn, Connection.withInorderView_self]
    exact if_neg (fun hBoth => hWaiting hBoth.2)
  have hData₀ : cfg.reliableEnabled = true →
      fmt.getWord .ackSequenceNumber (e₀.packets p) = 0 := by
    intro _
    rw [hZ]
    exact hData
  have hBack := BackResult.data hData₀ hConn hAcked hAbsorb
  rw [hSame] at hBack
  subst hRouted
  let e' := (e₁.setConn (lookup fmt cfg e y) conn).restoreAll
    fmt (arrivedPackets .hookContinue p [])
  have hConns : e'.conns = e.conns := by
    change Function.update e.conns _ (some conn) = _
    rw [← hConn, Function.update_eq_self]
  have hNext : e'.nextPacket = e.nextPacket + 1 := rfl
  have hResult : IngressResult fmt cfg p e e' :=
    .routed hCheck hHost hNull hBack
  have hSame := hResult.sameTable
  exact ⟨e', (runIngressPath_iff hApart).mpr hResult, hConns,
    hSame.netState, hSame.host, hNext⟩

/-
  A data packet for the connection `c`, without payload, is
  `x` as it is received, and `y` once it is checked. The
  transport will have `n` packets pending when it is polled.
-/
structure Answers
    (fmt : PacketFormat P)
    (cfg : Config)
    (c : ConnPtr)
    (x y : P)
    (n : Nat)
    (m : Mlx5Endpoint P) : Prop where
  checked : checkPacket fmt cfg x = .ok (y, true)
  host : fmt.getInteger .dstHostId y =
    m.endpoint.myLocalHostId
  found : lookup fmt cfg m.endpoint y = c
  data : fmt.getWord .ackSequenceNumber
    (fmt.setInteger .flowIdentifier c y) = 0
  empty : fmt.payloadLen
    (fmt.setInteger .flowIdentifier c y) = 0
  live : ∃ conn, m.endpoint.conns c = some conn ∧
    conn.signalingState ≠ .waitingForSignal
  frame : m.transport.sendBufferIndex < 512
  pending : n = 0 ∨ m.transport.pollRecv.2.pendingRecv = n

section Answers

variable
    {fmt : PacketFormat P}
    {cfg : Config}
    {c : ConnPtr}
    {x y : P}
    {n : Nat}
    {m : Mlx5Endpoint P}

/- So the next send buffer is taken for each such packet. -/
theorem Answers.receives
    (hAnswers : Answers fmt cfg c x y (n + 1) m)
    (hNull : c ≠ 0)
    (hReliable : cfg.reliableEnabled = true)
    (hStrategy : cfg.inorderStrategy = .noInorder)
    (hChecksum : cfg.checksumEnabled = false) :
    ∃ m', Mlx5Steps fmt cfg m (.receives x) m' ∧
      Answers fmt cfg c x y n m' ∧
      m'.endpoint.conns = m.endpoint.conns ∧
      m'.transport.sendBufferIndex =
        (m.transport.sendBufferIndex + 1) % 512 := by
  rcases hAnswers.live with ⟨conn, hConn, hWaiting⟩
  have hApart : m.transport.recvFrame ≠
      (m.arrived x).nextPacket :=
    Nat.ne_of_gt (Nat.lt_of_lt_of_le hAnswers.frame
      (Nat.le_add_right 512 _))
  have hCheck : checkPacket fmt cfg
      ((m.arrived x).packets m.transport.recvFrame) =
        .ok (y, true) := by
    rw [Mlx5Endpoint.arrived, Endpoint.setPacket_packets_self]
    exact hAnswers.checked
  have hFound : lookup fmt cfg (m.arrived x) y = c :=
    hAnswers.found
  have hConn' : (m.arrived x).conns c = some conn := hConn
  rcases acknowledges_empty hReliable hStrategy hChecksum
      hApart hCheck hAnswers.host hFound hNull rfl
      hAnswers.data hAnswers.empty hConn' hWaiting with
    ⟨e', hIngress, hConns, hNetState, hHost, hNext⟩
  have hPending : m.transport.pollRecv.2.pendingRecv =
      n + 1 :=
    hAnswers.pending.resolve_left (Nat.succ_ne_zero n)
  let t : Mlx5Transport :=
    { m.transport.pollRecv.2.getNextRecvBuffer.2 with
      pendingRecv := n }
  have hPoll : m.transport.pollPacket 0 =
      (some (m.transport.pollRecv.2.getNextRecvBuffer.1 - 0),
        mlx5Mtu, t) := by
    rw [Mlx5Transport.pollPacket_eq, hPending,
      if_pos (Nat.succ_ne_zero n)]
    rfl
  have hIndex := Mlx5Transport.pollPacket_sendBufferIndex 0
    m.transport
  rw [hPoll] at hIndex
  have hTaken : e'.nextPacket ≠ m.transport.sendFrame := by
    rw [hNext]
    exact Nat.succ_ne_self _
  refine ⟨_, .receives hPoll hIngress, ?_⟩
  rw [Mlx5Endpoint.next_of_taken hTaken]
  refine ⟨⟨hAnswers.checked, ?_, ?_, hAnswers.data,
    hAnswers.empty, ?_, Nat.mod_lt _ (by decide), ?_⟩,
    hConns, congrArg (fun i => (i + 1) % 512) hIndex⟩
  · exact hAnswers.host.trans hHost.symm
  · rw [← hAnswers.found]
    exact congrArg (fun table : NetState =>
      table.retrieveConnection cfg.flowIdentifier
        (fmt.getWord .dstAppId y) (fmt.getWord .srcAppId y)
        (fmt.getInteger .srcHostId y)) hNetState
  · rw [hConns]
    exact hAnswers.live
  · by_cases hZero : n = 0
    · exact Or.inl hZero
    · right
      have hMore : t.getNextSendBuffer.2.pendingRecv ≠ 0 :=
        hZero
      rw [Mlx5Transport.pollRecv_of_pending hMore]
      rfl

/- Acknowledging takes the buffers around, one by one. -/
theorem Answers.run
    (hAnswers : Answers fmt cfg c x y n m)
    (hNull : c ≠ 0)
    (hReliable : cfg.reliableEnabled = true)
    (hStrategy : cfg.inorderStrategy = .noInorder)
    (hChecksum : cfg.checksumEnabled = false) :
    ∃ m', Run (Mlx5Steps fmt cfg) m
        (List.replicate n (.receives x)) m' ∧
      m'.endpoint.conns = m.endpoint.conns ∧
      m'.transport.sendBufferIndex =
        (m.transport.sendBufferIndex + n) % 512 := by
  induction n generalizing m with
  | zero =>
      refine ⟨m, .nil m, rfl, ?_⟩
      exact (Nat.mod_eq_of_lt hAnswers.frame).symm
  | succ n ih =>
      rcases hAnswers.receives hNull hReliable hStrategy
        hChecksum with ⟨m₁, hStep, hAnswers₁, hConns, hIndex⟩
      rcases ih hAnswers₁ with ⟨m', hRun, hConns', hIndex'⟩
      refine ⟨m', .cons hStep hRun, hConns'.trans hConns, ?_⟩
      rw [hIndex', hIndex, Nat.mod_add_mod, Nat.add_assoc,
        Nat.add_comm 1]

end Answers

/- The small stack on the transport, before any packet. -/
def mlx5Stack : Mlx5Endpoint PacketBuffer :=
  .start blankNetState 0 0 0 (fun _ => ((blankBuffer, 0), 0))
    bareEndpoint

/- The completion of the first 511 packets received. -/
def mostReceived : Mlx5Cqe where
  wqeId := 0
  wqeCounter := 510

/- A packet of app 8 at host 9 for app 7, without payload. -/
def emptyToSeven : PacketBuffer :=
  ((packetToSeven 9 8).setInteger .totalLen
    netPacketFormat.headerLen).setInteger .sequenceNumber 1011

/- The transport when one buffer is requested after that. -/
def mlx5Polled : Mlx5Transport :=
  { mlx5Stack.transport with
    recvCqeArr := fun _ => mostReceived
    sendBufferIndex := 1 }

/- The small stack on it, after it sent a packet. -/
def mlx5Sent
    (e₂ : Endpoint PacketBuffer) :
    Mlx5Endpoint PacketBuffer where
  endpoint := e₂
  transport := mlx5Polled
  requests := 1
  sentAs := Function.update mlx5Stack.sentAs 0
    (e₂.out.getLast?.getD (e₂.onWire netPacketFormat 0), 0)

/- Requests in the first rotation are in time. -/
theorem Mlx5Endpoint.timely_of_lt
    {m : Mlx5Endpoint P}
    (hFew : m.requests < 512) :
    m.Timely := by
  intro p _
  exact Nat.lt_of_lt_of_le hFew (Nat.le_add_left 512 _)

/- The small stack sends the first packet. -/
theorem mlx5Sent_run :
    ∃ e₂ conn,
      Run (TimelySteps netPacketFormat reliableConfig)
        mlx5Stack
        [.completes (fun _ => mostReceived),
          .call (.establish 1 blankConnection 9 8 7),
          .call (.send 1 [104, 105])] (mlx5Sent e₂) ∧
      e₂.conns 1 = some conn ∧
      conn.redeliveryBuffer (slot 1011) = some 0 ∧
      conn.signalingState ≠ .waitingForSignal ∧
      lookup netPacketFormat reliableConfig e₂
        (netPacketFormat.restoreTotalLen emptyToSeven) = 1 ∧
      netPacketFormat.getInteger .dstHostId
        (netPacketFormat.restoreTotalLen emptyToSeven) =
          e₂.myLocalHostId := by
  have hTable : (do
      let e₁ ← establishReliable bareStack
      let r ← sendHi e₁
      let conn ← r.2.loadConn 1
      return ((e₁.nextPacket, r.2.nextPacket),
        (conn.redeliveryBuffer (slot 1011),
          conn.signalingState),
        (lookup netPacketFormat reliableConfig r.2
            (netPacketFormat.restoreTotalLen emptyToSeven),
          r.2.myLocalHostId))) =
      .ok ((0, 1), (some 0, .signaled), (1, 0)) := by
    decide +kernel
  rcases bind_eq_ok_iff.mp hTable with ⟨e₁, hFirst, hRest⟩
  rcases bind_eq_ok_iff.mp hRest with
    ⟨⟨n, e₂⟩, hSecond, hLoad⟩
  rcases bind_eq_ok_iff.mp hLoad with ⟨conn, hConn, hEnd⟩
  simp only [pure_eq_ok, Except.ok.injEq, Prod.mk.injEq]
    at hEnd
  rcases hEnd with ⟨⟨hNone, hOne⟩, ⟨hSlot, hState⟩, hFound,
    hHost⟩
  have hConn' : e₂.conns 1 = some conn :=
    Endpoint.loadConn_eq_ok_iff.mp hConn
  have hWaiting : conn.signalingState ≠
      .waitingForSignal := by
    rw [hState]
    decide
  have hHost' : netPacketFormat.getInteger .dstHostId
      (netPacketFormat.restoreTotalLen emptyToSeven) =
        e₂.myLocalHostId := by
    rw [hHost]
    decide +kernel
  let m₁ : Mlx5Endpoint PacketBuffer := { mlx5Stack with
    transport := { mlx5Stack.transport with
      recvCqeArr := fun _ => mostReceived } }
  have hEstablish : TimelySteps netPacketFormat
      reliableConfig m₁
      (.call (.establish 1 blankConnection 9 8 7))
      { m₁ with endpoint := e₁ } := by
    have hCall : Calls netPacketFormat reliableConfig m₁.ready
        (.establish 1 blankConnection 9 8 7) e₁ :=
      .establish (by decide) rfl hFirst
    have hStep := Mlx5Steps.call (by simp) hCall
    rw [Mlx5Endpoint.next_of_same hNone] at hStep
    exact ⟨hStep, fun hNe => absurd rfl hNe⟩
  have hSend : TimelySteps netPacketFormat reliableConfig
      { m₁ with endpoint := e₁ } (.call (.send 1 [104, 105]))
      (mlx5Sent e₂) := by
    have hReady : Mlx5Endpoint.ready
        { m₁ with endpoint := e₁ } = e₁ :=
      congrArg (fun p => { e₁ with nextPacket := p }) hNone.symm
    have hCall : Calls netPacketFormat reliableConfig
        (Mlx5Endpoint.ready { m₁ with endpoint := e₁ })
        (.send 1 [104, 105]) e₂ := by
      rw [hReady]
      exact .send hSecond
    have hTaken : e₂.nextPacket ≠ 0 := by
      rw [hOne]
      decide
    have hStep := Mlx5Steps.call (by simp) hCall
    rw [Mlx5Endpoint.next_of_taken hTaken] at hStep
    have hFew : 0 < 512 := by decide
    exact ⟨hStep, fun _ => Mlx5Endpoint.timely_of_lt hFew⟩
  exact ⟨e₂, conn, .cons ⟨.completes, fun hNe =>
    absurd rfl hNe⟩ (.cons hEstablish (.cons hSend (.nil _))),
    hConn', hSlot, hWaiting, hFound, hHost'⟩

/-
  A packet that is never acknowledged is still in its slot
  when its buffer comes around again, after 511 packets were
  received and acknowledged.
-/
theorem not_forall_unused :
    ¬ ∀ (fmt : PacketFormat PacketBuffer) cfg fresh sendBuffer
        recvBuffer recvKey sentAs e
        (events : List (Mlx5Event PacketBuffer)) m,
      cfg.reliableEnabled = true →
      (∀ c, e.conns c = none) →
      e.timers.timersHead = none →
      (events.filter Mlx5Event.sends).length ≤ 32 →
      Run (Mlx5Steps fmt cfg) (.start fresh sendBuffer
        recvBuffer recvKey sentAs e) events m →
      m.Unused := by
  intro hAll
  rcases mlx5Sent_run with
    ⟨e₂, conn, hSent, hConn, hSlot, hWaiting, hFound, hHost⟩
  have hFrame : mlx5Polled.sendBufferIndex < 512 := by
    decide
  have hPending : mlx5Polled.pollRecv.2.pendingRecv = 511 := by
    decide +kernel
  have hAnswers : Answers netPacketFormat reliableConfig 1
      emptyToSeven
      (netPacketFormat.restoreTotalLen emptyToSeven) 511
      (mlx5Sent e₂) :=
    ⟨rfl, hHost, hFound, by decide +kernel,
      by decide +kernel, ⟨conn, hConn, hWaiting⟩,
      hFrame, Or.inr hPending⟩
  rcases hAnswers.run (by decide) rfl rfl rfl with
    ⟨m, hRun, hConns, hIndex⟩
  have hWhole := (hSent.mono (fun _ _ _ hStep =>
    hStep.1)).append hRun
  have hUnused : m.Unused := by
    apply hAll netPacketFormat reliableConfig blankNetState 0 0
      0 _ bareEndpoint _ m rfl (fun _ => rfl) rfl _ hWhole
    rw [List.filter_append, List.filter_replicate]
    decide
  apply hUnused
  left
  refine ⟨1, slot 1011, conn.redeliveryBuffer, ?_, ?_⟩
  · rw [Endpoint.buffers, hConns]
    exact congrArg (Option.map _) hConn
  · have hAround : (mlx5Polled.sendBufferIndex + 511) % 512 =
        0 := by
      decide
    have hFirst : m.transport.sendFrame = 0 :=
      hIndex.trans hAround
    rw [hFirst]
    exact hSlot

/- The first packet is in time. -/
theorem unused_iff_of_run_one :
    ∃ (m : Mlx5Endpoint PacketBuffer) (events : List _),
      events ≠ [] ∧
      Run (TimelySteps netPacketFormat reliableConfig)
        mlx5Stack events m ∧
      (m.Unused ↔ m.Timely) ∧
        m.ResendsOriginals netPacketFormat := by
  rcases mlx5Sent_run with ⟨e₂, conn, hSent, -⟩
  exact ⟨_, _, List.cons_ne_nil _ _, hSent,
    unused_iff_of_run rfl (fun _ => rfl) rfl hSent⟩

end NetBlocks
