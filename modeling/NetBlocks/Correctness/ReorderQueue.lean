import NetBlocks.Correctness.NetworkDelivery
import NetBlocks.Lib.ReorderBuffer

/-
  What a connection received is a reorder buffer and a queue
  over payloads: in every run of its host, all that happens to
  it is what may happen to a `Receiver`.

  Main declarations:
    * `place_buffer`
    * `Happens` and `Related`
    * `refinesReceiver_of_run`
-/

namespace NetBlocks

open Except TransitionSystem ReorderBuffer

variable {P : Type}

------------------------------------------------------------
-- The Inorder Module as a Buffer
------------------------------------------------------------

/- The numbers and slots of the inorder module -/
def sequenceNumbers : Numbering (BitVec 32) Slot where
  zero := 0
  next := fun number => number + 1
  slot := slot

def InorderStrategy.policy : InorderStrategy → Policy
| .noInorder => .pass
| .dropOutOfOrder => .newest
| .holdForever => .hold

/- The members besides the queue, over packets -/
def InorderView.buffer
    (strategy : InorderStrategy)
    (v : InorderView) :
    Buffer (BitVec 32) Slot PacketPtr where
  last := v.lastRecvSequence
  largest :=
    match strategy with
    | .holdForever => v.maxOooSequence
    | _ => 0
  held := v.slots strategy

section Buffers

variable
    {strategy : InorderStrategy}
    {number : BitVec 32}
    {p : PacketPtr}
    {v w : InorderView}
    {status : HookStatus}
    {taken : List PacketPtr}

theorem buffer_withQueue
    (strategy : InorderStrategy)
    (v : InorderView)
    (queue : DataQueue) :
    InorderView.buffer strategy
        { v with inputQueue := queue } =
      v.buffer strategy := by
  cases strategy <;> rfl

/- Draining slots drains the buffer. -/
theorem drainSteps_buffer
    (fuel : Nat)
    (i : BitVec 32)
    (v : InorderView) :
    (v.buffer .holdForever).drain sequenceNumbers fuel i =
      ((drainSteps fuel i v).1.buffer .holdForever,
        (drainSteps fuel i v).2) := by
  induction fuel generalizing i v with
  | zero => rfl
  | succ fuel ih =>
      let b := v.buffer .holdForever
      by_cases hMore : i ≤ v.maxOooSequence
      · have hLargest : i ≤ b.largest := hMore
        rw [drainSteps, if_pos hMore, Buffer.drain,
          if_pos hLargest]
        cases hSlot : v.inorderBuffer (slot i) with
        | none =>
            have hHeld : b.held (sequenceNumbers.slot i) =
                none := hSlot
            rw [hHeld]
        | some q =>
            have hHeld : b.held (sequenceNumbers.slot i) =
                some q := hSlot
            have hRest := ih (i + 1) (takeSlot i v)
            rw [Prod.ext_iff] at hRest
            rw [hHeld]
            exact Prod.ext hRest.1
              (congrArg (List.cons q) hRest.2)
      · have hLargest : ¬ i ≤ b.largest := hMore
        rw [drainSteps, if_neg hMore, Buffer.drain,
          if_neg hLargest]

/- Where a packet goes is where it goes in the buffer. -/
theorem place_buffer
    (hPlace : place strategy number p v =
      (status, w, taken)) :
    (v.buffer strategy).arrive sequenceNumbers
        strategy.policy number p =
      (w.buffer strategy, arrivedPackets status p taken) := by
  cases strategy with
  | noInorder =>
      cases hPlace
      rfl
  | dropOutOfOrder =>
      rw [place] at hPlace
      change (if v.lastRecvSequence < number then _ else _) = _
      split at hPlace
      · next hNewer =>
          cases hPlace
          rw [if_pos hNewer]
          rfl
      · next hOlder =>
          cases hPlace
          rw [if_neg hOlder]
          rfl
  | holdForever =>
      rw [place] at hPlace
      change (if v.lastRecvSequence = 0 ∨
        number = v.lastRecvSequence + 1 then _ else _) = _
      split at hPlace
      · next hNext =>
          cases hPlace
          have hDrain := drainSteps_buffer
            InorderModule.drainFuel (number + 1)
            { v with lastRecvSequence := number }
          rw [Prod.ext_iff] at hDrain
          rw [if_pos hNext]
          exact Prod.ext hDrain.1
            (congrArg (List.cons p) hDrain.2)
      · next hOther =>
          cases hPlace
          rw [if_neg hOther]
          rfl

end Buffers

------------------------------------------------------------
-- Payloads in a Host's Memory
------------------------------------------------------------

/- The buffer at `q` holds a payload. -/
def HoldsPayload
    (fmt : PacketFormat P)
    (e : Endpoint P)
    (q : PacketPtr)
    (bytes : List Byte) : Prop :=
  q < e.nextPacket ∧
    ∃ number, fmt.Carries number bytes (e.packets q)

/- So does a queue entry, with the length of the payload. -/
structure QueuesPayload
    (fmt : PacketFormat P)
    (e : Endpoint P)
    (entry : PacketPtr × Int)
    (bytes : List Byte) : Prop where
  holds : HoldsPayload fmt e entry.1 bytes
  size : entry.2 = bytes.length
  some : bytes ≠ []

/- What a connection keeps of the packets it received -/
structure HoldsAll
    (fmt : PacketFormat P)
    (cfg : Config)
    (e : Endpoint P)
    (conn : Connection)
    (r : Receiver (BitVec 32) Slot Byte) : Prop where
  buffer : Buffer.Rel (HoldsPayload fmt e)
    (conn.inorderView.buffer cfg.inorderStrategy) r.buffer
  queue : List.Forall₂ (QueuesPayload fmt e) conn.inputQueue
    r.queue

/- A connection is open when the receiver is. -/
def Related
    (fmt : PacketFormat P)
    (cfg : Config)
    (c : ConnPtr)
    (e : Endpoint P) :
    Option (Receiver (BitVec 32) Slot Byte) → Prop
| none => e.conns c = none
| some r => ∃ conn, e.conns c = some conn ∧
    HoldsAll fmt cfg e conn r

section Payloads

variable
    {fmt : PacketFormat P}
    {cfg : Config}
    {e e' : Endpoint P}
    {conn conn' : Connection}
    {r : Receiver (BitVec 32) Slot Byte}
    {move : StackMove P}
    {p q : PacketPtr}
    {bytes : List Byte}

theorem HoldsPayload.moves
    (hMoves : Moves fmt cfg e move e')
    (hHolds : HoldsPayload fmt e q bytes) :
    HoldsPayload fmt e' q bytes := by
  rcases hHolds with ⟨hOld, number, hCarries⟩
  have hSame := hMoves.samePacket hOld hCarries.whole
  exact ⟨Nat.lt_of_lt_of_le hOld hMoves.nextPacket_le, number,
    hSame.carries _ _ hCarries⟩

theorem QueuesPayload.moves
    {entry : PacketPtr × Int}
    (hMoves : Moves fmt cfg e move e')
    (hQueues : QueuesPayload fmt e entry bytes) :
    QueuesPayload fmt e' entry bytes :=
  ⟨hQueues.holds.moves hMoves, hQueues.size, hQueues.some⟩

/- Payloads stay where they are. -/
theorem HoldsAll.moves
    (hMoves : Moves fmt cfg e move e')
    (hHolds : HoldsAll fmt cfg e conn r)
    (hBuffer : conn'.inorderView.buffer cfg.inorderStrategy =
      conn.inorderView.buffer cfg.inorderStrategy)
    (hQueue : conn'.inputQueue = conn.inputQueue) :
    HoldsAll fmt cfg e' conn' r := by
  refine ⟨?_, ?_⟩
  · rw [hBuffer]
    refine ⟨hHolds.buffer.last, hHolds.buffer.largest, ?_⟩
    intro k
    have hSlot := hHolds.buffer.held k
    generalize (conn.inorderView.buffer
      cfg.inorderStrategy).held k = o at hSlot ⊢
    generalize r.buffer.held k = o' at hSlot ⊢
    cases hSlot with
    | none => exact .none
    | some hPayload => exact .some (hPayload.moves hMoves)
  · rw [hQueue]
    exact hHolds.queue.imp (fun _ _ hQueues =>
      hQueues.moves hMoves)

/- A connection that was just opened holds nothing. -/
theorem holdsAll_blank
    {fresh : Connection}
    {hostLocalId : BitVec 64}
    {h a sa : BitVec 32}
    (e : Endpoint P) :
    HoldsAll fmt cfg e
      (openedConn cfg fresh hostLocalId h a sa p)
      (.blank sequenceNumbers) := by
  have hView := openedConn_inorderView cfg fresh hostLocalId h
    a sa p
  refine ⟨⟨?_, ?_, ?_⟩, ?_⟩
  · rw [hView]
    rfl
  · rw [hView]
    cases hStrategy : cfg.inorderStrategy with
    | holdForever =>
        simp [InorderView.buffer, Connection.inorderView,
          establishedConn, hStrategy, Receiver.blank,
          Buffer.blank, sequenceNumbers]
    | dropOutOfOrder => rfl
    | noInorder => rfl
  · intro k
    have hNone := openedConn_slots cfg fresh hostLocalId h a sa
      p k
    change Option.Rel _ (InorderView.slots _ _ k) none
    rw [hNone]
    exact .none
  · have hQueue := congrArg InorderView.inputQueue hView
    change (openedConn cfg fresh hostLocalId h a sa
      p).inputQueue = [] at hQueue
    rw [hQueue]
    exact .nil

/- Entries for what is delivered, without empty payloads. -/
theorem queuesPayload_of_delivered
    {ps : List PacketPtr}
    {delivered : List (List Byte)}
    (hDelivered : List.Forall₂ (HoldsPayload fmt e) ps
      delivered) :
    List.Forall₂ (QueuesPayload fmt e)
      (payloads (fun q => fmt.sentLen (e.packets q)) ps)
      (delivered.filter (· ≠ [])) := by
  induction hDelivered with
  | nil => exact .nil
  | @cons q bytes ps delivered hPayload _ ih =>
      rcases hPayload with ⟨hOld, number, hCarries⟩
      have hLen := hCarries.sentLen
      rw [payloads_cons]
      by_cases hNil : bytes = []
      · subst hNil
        rw [payloads_of_zero hLen, List.nil_append,
          List.filter_cons_of_neg (by simp)]
        exact ih
      · have hNe : fmt.sentLen (e.packets q) ≠ 0 := by
          rw [hLen]
          intro hZero
          exact hNil (List.length_eq_zero_iff.mp
            (Int.ofNat_eq_zero.mp hZero))
        rw [payloads_of_ne hNe,
          List.filter_cons_of_pos (by simpa using hNil)]
        exact .cons ⟨⟨hOld, number, hCarries⟩, hLen, hNil⟩ ih

end Payloads

------------------------------------------------------------
-- What Happens to a Connection
------------------------------------------------------------

/-
  What a step is to the connection at `c`: it is opened or
  closed, a payload arrives for it, a program reads a payload
  from it, or nothing of this.
-/
inductive Happens
    (fmt : PacketFormat P)
    (cfg : Config)
    (c : ConnPtr)
    (e e' : Endpoint P)
    (move : StackMove P) : Event (BitVec 32) Byte → Prop
| opens :
    move.opens = some c →
    Happens fmt cfg c e e' move .opens
| closes :
    move = .call (.destablish c) →
    Happens fmt cfg c e e' move .closes
| arrives {p : PacketPtr} {e₀ : Endpoint P}
    {number : BitVec 32} {bytes : List Byte} :
    move.processes e = some (p, e₀) →
    dataReceiver fmt cfg p e₀ = some c →
    fmt.Carries number bytes (e₀.packets p) →
    Happens fmt cfg c e e' move (.arrives number bytes)
| reads {maxLen : Int} {piece : List Byte} :
    move = .call (.read c maxLen) →
    nbRead fmt c maxLen e = .ok (piece, e') →
    e.inputQueue c ≠ [] →
    Happens fmt cfg c e e' move (.reads maxLen.toNat piece)
| quiet :
    move.opens ≠ some c →
    move ≠ .call (.destablish c) →
    (∀ p e₀, move.processes e = some (p, e₀) →
      dataReceiver fmt cfg p e₀ ≠ some c) →
    (∀ maxLen, move = .call (.read c maxLen) →
      e.inputQueue c = []) →
    Happens fmt cfg c e e' move .quiet

/- A step of a host, as the connection at `c` sees it -/
def Observed
    (fmt : PacketFormat P)
    (cfg : Config)
    (c : ConnPtr)
    (e : Endpoint P)
    (event : Event (BitVec 32) Byte)
    (e' : Endpoint P) : Prop :=
  ∃ move, Moves fmt cfg e move e' ∧
    Happens fmt cfg c e e' move event

section Refinement

variable
    {fmt : PacketFormat P}
    {cfg : Config}
    {c : ConnPtr}
    {e e₀ e' : Endpoint P}
    {conn : Connection}
    {r : Receiver (BitVec 32) Slot Byte}
    {abs : Option (Receiver (BitVec 32) Slot Byte)}
    {move : StackMove P}
    {p : PacketPtr}
    {number : BitVec 32}
    {bytes piece : List Byte}
    {event : Event (BitVec 32) Byte}

/- A packet that is received arrives at its connection. -/
theorem observed_ingress
    {x : P}
    {len : Int}
    (hIngress : ingress fmt cfg x len e = .ok e')
    (hReceiver : dataReceiver fmt cfg e.nextPacket
      (e.polled x) = some c)
    (hCarries : fmt.Carries number bytes x) :
    Observed fmt cfg c e (.arrives number bytes) e' := by
  refine ⟨.call (.ingress x len), .call (.ingress hIngress),
    .arrives rfl hReceiver ?_⟩
  rw [polled_packets_self]
  exact hCarries

theorem Moves.freed
    (hMoves : Moves fmt cfg e (.call (.destablish c)) e') :
    ∃ conn, e.conns c = some conn ∧ e'.conns c = none := by
  cases hMoves with
  | call hCall =>
      cases hCall with
      | destablish hDestablish =>
          rcases nbDestablish_ok_iff.mp hDestablish with
            ⟨conn, hConn, rfl⟩
          exact ⟨conn, hConn, Function.update_self ..⟩

/- A payload that arrives is delivered or held. -/
theorem HoldsAll.arrives
    (hMoves : Moves fmt cfg e move e')
    (hConn : e.conns c = some conn)
    (hHolds : HoldsAll fmt cfg e conn r)
    (hProcesses : move.processes e = some (p, e₀))
    (hReceiver : dataReceiver fmt cfg p e₀ = some c)
    (hCarries : fmt.Carries number bytes (e₀.packets p)) :
    ∃ conn', e'.conns c = some conn' ∧
      HoldsAll fmt cfg e' conn' (r.arrive sequenceNumbers
        cfg.inorderStrategy.policy number bytes) := by
  rcases hMoves.processed hProcesses with
    ⟨hOld, hIngress, -, hConns, -, -⟩
  rcases hIngress.places hOld hCarries.whole hReceiver with
    ⟨conn₁, conn', status, w, taken, hConn₁, hConn', hPlace,
      hView, hQueue⟩
  rw [hConns, hConn] at hConn₁
  cases hConn₁
  rw [hCarries.number] at hPlace
  have hArrived := place_buffer hPlace
  -- the packet stays in its buffer, with its payload
  have hOwn : HoldsPayload fmt e' p bytes :=
    ⟨Nat.lt_of_lt_of_le hOld hIngress.nextPacket_le, number,
      (hIngress.samePacket hOld hCarries.whole).carries _ _
        hCarries⟩
  have hKept : HoldsAll fmt cfg e' conn r :=
    hHolds.moves hMoves rfl rfl
  have hSame := hKept.buffer.arrive sequenceNumbers
    cfg.inorderStrategy.policy number hOwn
  rw [hArrived] at hSame
  rcases hSame with ⟨hBuffer, hDelivered⟩
  refine ⟨conn', hConn', ?_, ?_⟩
  · rw [hView, buffer_withQueue]
    exact hBuffer
  · rw [hQueue]
    exact List.rel_append hKept.queue
      (queuesPayload_of_delivered hDelivered)

/- A payload that is read is the first one. -/
theorem HoldsAll.reads
    {maxLen : Int}
    (hPrefixes : fmt.ReadsPrefixes)
    (hMoves : Moves fmt cfg e move e')
    (hConn : e.conns c = some conn)
    (hHolds : HoldsAll fmt cfg e conn r)
    (hSome : e.inputQueue c ≠ [])
    (hRead : nbRead fmt c maxLen e = .ok (piece, e')) :
    ∃ conn' payload queue, e'.conns c = some conn' ∧
      r.queue = payload :: queue ∧
      piece = payload.take maxLen.toNat ∧
      HoldsAll fmt cfg e' conn' { r with queue := queue } := by
  rcases nbRead_frame hRead with ⟨conn₁, q, hConn₁, rfl⟩
  cases hConn.symm.trans hConn₁
  have hConn' := Endpoint.setConn_conns_self e c
    { conn with inputQueue := q }
  rw [Endpoint.inputQueue, hConn] at hSome
  rcases nbRead_queue hConn hConn' hRead with
    ⟨hNone, -, -⟩ | ⟨p, size, hQueue, hNonneg, hCopy⟩
  · exact absurd hNone hSome
  · have hFirst := hHolds.queue
    rw [hQueue] at hFirst
    cases hReceived : r.queue with
    | nil =>
        rw [hReceived] at hFirst
        cases hFirst
    | cons payload queue =>
        rw [hReceived] at hFirst
        cases hFirst with
        | cons hQueues hRest =>
            rcases hQueues with ⟨⟨-, number, hCarries⟩, hSize, -⟩
            dsimp only at hCarries hSize
            have hLen : ((min maxLen size).toNat : Int) ≤
                fmt.sentLen (e.packets p) := by
              rw [hCarries.sentLen]
              omega
            have hPiece := hCarries.piece hPrefixes hLen hCopy
            refine ⟨_, payload, queue, hConn', rfl, ?_, ?_, ?_⟩
            · rw [hPiece, hSize]
              apply List.take_eq_take_iff.mpr
              omega
            · have hKept : HoldsAll fmt cfg _ conn r :=
                hHolds.moves hMoves rfl rfl
              exact hKept.buffer
            · exact hRest.imp (fun _ _ hQueues =>
                hQueues.moves hMoves)

/- Nothing else changes what a connection holds. -/
theorem Related.quiet
    (hMoves : Moves fmt cfg e move e')
    (hRelated : Related fmt cfg c e abs)
    (hOpens : move.opens ≠ some c)
    (hCloses : move ≠ .call (.destablish c))
    (hArrives : ∀ p e₀, move.processes e = some (p, e₀) →
      dataReceiver fmt cfg p e₀ ≠ some c)
    (hReads : ∀ maxLen, move = .call (.read c maxLen) →
      e.inputQueue c = []) :
    Related fmt cfg c e' abs := by
  cases abs with
  | none => exact hMoves.closed hRelated hOpens
  | some r =>
      rcases hRelated with ⟨conn, hConn, hHolds⟩
      have hKept : ∃ conn', e'.conns c = some conn' ∧
          conn'.inorderView = conn.inorderView := by
        cases hProcesses : move.processes e with
        | some processed =>
            rcases processed with ⟨p, e₀⟩
            rcases hMoves.processed hProcesses with
              ⟨-, hIngress, -, hConns, -, -⟩
            rw [← hConns] at hConn
            exact hIngress.notData (hArrives p e₀ hProcesses)
              hConn
        | none =>
            rcases hMoves.notProcessing hProcesses hCloses hConn
              with ⟨conn', hConn', hView, hQueue⟩
            refine ⟨conn', hConn', ?_⟩
            have hSame : conn'.inputQueue =
                conn.inputQueue := by
              rcases hQueue with hSame | ⟨maxLen, bytes, hMove,
                hRead⟩
              · exact hSame
              · have hNone := hReads maxLen hMove
                rw [Endpoint.inputQueue, hConn] at hNone
                rcases nbRead_queue hConn hConn' hRead with
                  ⟨hOld, -, hNew⟩ | ⟨p, size, hOld, -⟩
                · rw [hOld, hNew]
                · cases hNone.symm.trans hOld
            rw [hView, hSame]
            rfl
      rcases hKept with ⟨conn', hConn', hView⟩
      refine ⟨conn', hConn', hHolds.moves hMoves ?_ ?_⟩
      · rw [hView]
      · exact congrArg InorderView.inputQueue hView

/-
  A step of a host is a step of the receiver, for whatever it
  is to the connection.
-/
theorem Related.step
    (hPrefixes : fmt.ReadsPrefixes)
    (hRelated : Related fmt cfg c e abs)
    (hObserved : Observed fmt cfg c e event e') :
    ∃ abs', Receiver.Steps sequenceNumbers
        cfg.inorderStrategy.policy abs event abs' ∧
      Related fmt cfg c e' abs' := by
  rcases hObserved with ⟨move, hMoves, hHappens⟩
  cases hHappens with
  | opens hOpens =>
      rcases hMoves.opened hOpens with ⟨hFree, conn', hConn'⟩
      rcases (hMoves.conn_of_none hFree hConn').2 with
        ⟨fresh, host, h, a, sa, p, rfl⟩
      cases abs with
      | none =>
          exact ⟨_, .opens, _, hConn', holdsAll_blank e'⟩
      | some r =>
          rcases hRelated with ⟨conn, hConn, -⟩
          cases hFree.symm.trans hConn
  | closes hCloses =>
      subst hCloses
      rcases hMoves.freed with ⟨conn, hConn, hFreed⟩
      cases abs with
      | none => cases hConn.symm.trans hRelated
      | some r => exact ⟨none, .closes, hFreed⟩
  | @arrives p e₀ number bytes hProcesses hReceiver
      hCarries =>
      rcases hMoves.processed hProcesses with
        ⟨hOld, hIngress, -, hConns, -, -⟩
      rcases hIngress.places hOld hCarries.whole hReceiver with
        ⟨conn, -, -, -, -, hConn, -⟩
      rw [hConns] at hConn
      cases abs with
      | none => cases hConn.symm.trans hRelated
      | some r =>
          rcases hRelated with ⟨conn₁, hConn₁, hHolds⟩
          exact ⟨_, .arrives, hHolds.arrives hMoves hConn₁
            hProcesses hReceiver hCarries⟩
  | @reads maxLen piece _ hRead hSome =>
      cases abs with
      | none =>
          rw [Endpoint.inputQueue, show e.conns c = none from
            hRelated] at hSome
          exact absurd rfl hSome
      | some r =>
          rcases hRelated with ⟨conn, hConn, hHolds⟩
          rcases hHolds.reads hPrefixes hMoves hConn hSome hRead
            with ⟨conn', payload, queue, hConn', hQueue, rfl,
              hHolds'⟩
          exact ⟨_, .reads hQueue, conn', hConn', hHolds'⟩
  | quiet hOpens hCloses hArrives hReads =>
      exact ⟨abs, .quiet, hRelated.quiet hMoves hOpens hCloses
        hArrives hReads⟩

theorem related_of_run
    {events : List (Event (BitVec 32) Byte)}
    (hPrefixes : fmt.ReadsPrefixes)
    (hRelated : Related fmt cfg c e abs)
    (hRun : Run (Observed fmt cfg c) e events e') :
    ∃ abs', Run (Receiver.Steps sequenceNumbers
        cfg.inorderStrategy.policy) abs events abs' ∧
      Related fmt cfg c e' abs' := by
  induction hRun generalizing abs with
  | nil e => exact ⟨abs, .nil abs, hRelated⟩
  | cons hFirst _ ih =>
      rcases hRelated.step hPrefixes hFirst with
        ⟨abs₁, hStep, hRelated₁⟩
      rcases ih hRelated₁ with ⟨abs', hRest, hEnd⟩
      exact ⟨abs', .cons hStep hRest, hEnd⟩

/-
  All that happens to a connection in a run of its host may
  happen to a receiver, and in the end the connection is open
  and holds what the receiver does.
-/
theorem refinesReceiver_of_run
    {events : List (Event (BitVec 32) Byte)}
    (hPrefixes : fmt.ReadsPrefixes)
    (hFree : e.conns c = none)
    (hRun : Run (Observed fmt cfg c) e events e') :
    ∃ abs', Run (Receiver.Steps sequenceNumbers
        cfg.inorderStrategy.policy) none events abs' ∧
      Related fmt cfg c e' abs' :=
  related_of_run hPrefixes hFree hRun

end Refinement

/- The packet in which host 1 sends a byte. -/
def sendsOne : Except Fault PacketBuffer := do
  let l₁ ← Side.left.opens .holdForever
  let r ← nbSend netPacketFormat ackingConfig 1 [104] l₁
  firstOut r.2

/- Host 2 opens a connection, gets a byte and reads it. -/
theorem observed_sendsOne :
    ∃ e : Endpoint PacketBuffer,
      Run (Observed netPacketFormat ackingConfig 1)
        twoFresh.right.endpoint
        [.opens, .arrives 1011 [104], .reads 10 [104]] e := by
  have hTable : (do
      let x ← sendsOne
      let payload ← netPacketFormat.readPayload 1 x
      let r₁ ← Side.right.opens .holdForever
      let r₂ ← ingress netPacketFormat ackingConfig x 0 r₁
      let r ← nbRead netPacketFormat 1 10 r₂
      return ((netPacketFormat.getWord .sequenceNumber x,
          netPacketFormat.getWord .totalLen x, payload),
        dataReceiver netPacketFormat ackingConfig
          r₁.nextPacket (r₁.polled x),
        (r₂.inputQueue 1).length, r.1)) =
      .ok ((1011, BitVec.ofNat 32
        (netPacketFormat.headerLen + 1), [104]),
        some 1, 1, [104]) := by
    decide +kernel
  rcases bind_eq_ok_iff.mp hTable with ⟨x, -, h₁⟩
  rcases bind_eq_ok_iff.mp h₁ with ⟨payload, hPayload, h₂⟩
  rcases bind_eq_ok_iff.mp h₂ with ⟨r₁, hOpens, h₃⟩
  rcases bind_eq_ok_iff.mp h₃ with ⟨r₂, hIngress, h₄⟩
  rcases bind_eq_ok_iff.mp h₄ with ⟨⟨bytes, r₃⟩, hRead, hEnd⟩
  simp only [pure_eq_ok, Except.ok.injEq, Prod.mk.injEq]
    at hEnd
  rcases hEnd with ⟨⟨hNumber, hLen, hBytes⟩, hReceiver,
    hQueue, hRest⟩
  rw [hBytes] at hPayload
  rw [hRest] at hRead
  have hSome : r₂.inputQueue 1 ≠ [] := by
    apply List.ne_nil_of_length_pos
    rw [hQueue]
    decide
  have hCarries : netPacketFormat.Carries 1011 [104] x :=
    ⟨hNumber, hLen, by decide, fun _ => hPayload⟩
  exact ⟨r₃, .cons
    ⟨_, .call (.establish (by decide) rfl hOpens), .opens rfl⟩
    (.cons (observed_ingress hIngress hReceiver hCarries)
    (.cons ⟨_, .call (.read hRead), .reads rfl hRead hSome⟩
      (.nil _)))⟩

theorem refinesReceiver_of_run_one :
    ∃ (e : Endpoint PacketBuffer) (abs : Option (Receiver
        (BitVec 32) Slot Byte)),
      Run (Receiver.Steps sequenceNumbers .hold) none
        [.opens, .arrives 1011 [104], .reads 10 [104]] abs ∧
      Related netPacketFormat ackingConfig 1 e abs := by
  rcases observed_sendsOne with ⟨e, hRun⟩
  rcases refinesReceiver_of_run netPacketFormat_readsPrefixes
      rfl hRun with ⟨abs, hSteps, hRelated⟩
  exact ⟨e, abs, hSteps, hRelated⟩

end NetBlocks
