import NetBlocks.Core.ChannelRuns
import NetBlocks.Correctness.AckNumbers
import NetBlocks.Correctness.DrainLoop

/-
  With `hold_forever`, the payloads that were put into the
  input queue are those sent from the packet on that arrived
  first, none skipped, repeated or out of order, as long as
  the drain loop finds in each slot the packet of its number.

  Main declarations:
    * `DrainsOwn`
    * `InOrder` and `InOrder.step`
    * `insertsFromFirst_of_run`
-/

namespace NetBlocks

open Except TransitionSystem

variable {P : Type}

------------------------------------------------------------
-- Accepted Packets
------------------------------------------------------------

/- The inorder module delivers a packet of a number at once. -/
def IsAccepted
    (strategy : InorderStrategy)
    (number : BitVec 32)
    (conn : Connection) : Prop :=
  match strategy with
  | .dropOutOfOrder => conn.lastRecvSequence < number
  | .holdForever =>
      conn.lastRecvSequence = 0 ∨
        number = conn.lastRecvSequence + 1
  | .noInorder => True

/-
  When the data packet that is processed is accepted, the
  packets shelved right behind it, up to the first gap, have
  the numbers of their places. A late packet is shelved too,
  and numbers 32 apart share a slot, so this may fail.
-/
def DrainsOwn
    (fmt : PacketFormat P)
    (cfg : Config)
    (c : ConnPtr)
    (ch : Channel P) : ChannelMove P → Prop
| .sender _ => True
| .receiver move => ∀ p e conn run,
    move.processes ch.receiver = some (p, e) →
    dataReceiver fmt cfg p e = some c →
    ch.receiver.conns c = some conn →
    (conn.lastRecvSequence = 0 ∨
      fmt.getWord .sequenceNumber (e.packets p) =
        conn.lastRecvSequence + 1) →
    MaximalRun conn.inorderBuffer conn.maxOooSequence
      (fmt.getWord .sequenceNumber (e.packets p)) run →
    ∀ (j : Nat) (q : PacketPtr), run[j]? = some q →
      fmt.getWord .sequenceNumber (e.packets q) =
        follower (fmt.getWord .sequenceNumber
          (e.packets p)) j

/-
  The payloads that were queued are the first of those that
  were sent, from the packet on that arrived first.
-/
def InsertsFromFirst
    (ch : Channel P) : Prop :=
  ∃ first, (∀ n, ch.acked.head? = some n →
      n = numberAt first) ∧
    ch.inserted.map Prod.snd <+:
      SentLog.payloads (ch.log.drop first)

/-
  Nothing arrived yet, or the packets from `first` to `last`
  were delivered, and the one behind them is expected.
-/
inductive InOrder
    (c : ConnPtr)
    (ch : Channel P) : Prop
| fresh {conn : Connection} :
    ch.receiver.conns c = some conn →
    conn.lastRecvSequence = 0 →
    ch.inserted = [] →
    ch.acked = [] →
    InOrder c ch
| delivered {conn : Connection} {first n : Nat} :
    ch.receiver.conns c = some conn →
    conn.lastRecvSequence = numberAt (first + n) →
    first + n < ch.log.length →
    ch.inserted =
      ch.log.insertionsAt (List.range' first (n + 1)) →
    ch.acked.head? = some (numberAt first) →
    InOrder c ch

section Accepted

variable
    {strategy : InorderStrategy}
    {number : BitVec 32}
    {p : PacketPtr}
    {conn : Connection}
    {w : InorderView}
    {status : HookStatus}
    {taken : List PacketPtr}

/- What is behind an accepted packet is drained. -/
theorem place_accepted
    (hStrategy : strategy ≠ .noInorder)
    (hAccepted : IsAccepted strategy number conn)
    (hPlace : place strategy number p conn.inorderView =
      (status, w, taken)) :
    status = .hookContinue ∧
      (strategy = .dropOutOfOrder ∧
          w.lastRecvSequence = number ∨
        strategy = .holdForever ∧
          Drained number { conn.inorderView with
            lastRecvSequence := number } taken w) := by
  cases strategy with
  | dropOutOfOrder =>
      rw [place, if_pos (show
        conn.inorderView.lastRecvSequence < number from
          hAccepted)] at hPlace
      cases hPlace
      exact ⟨rfl, Or.inl ⟨rfl, rfl⟩⟩
  | holdForever =>
      rw [place, if_pos (show
        conn.inorderView.lastRecvSequence = 0 ∨
          number = conn.inorderView.lastRecvSequence + 1 from
            hAccepted)] at hPlace
      cases hPlace
      exact ⟨rfl, Or.inr ⟨rfl, drainSteps_drained
        (s := number) (v := { conn.inorderView with
          lastRecvSequence := number }) rfl
        (filled_card_lt_drainFuel _)⟩⟩
  | noInorder => exact absurd rfl hStrategy

/- Any other packet is dropped, or shelved. -/
theorem place_not_accepted
    (hOther : ¬ IsAccepted strategy number conn)
    (hPlace : place strategy number p conn.inorderView =
      (status, w, taken)) :
    status = .hookDrop ∧ taken = [] ∧
      (strategy = .dropOutOfOrder ∧ w = conn.inorderView ∨
        strategy = .holdForever ∧
          w = shelve number p conn.inorderView) := by
  cases strategy with
  | dropOutOfOrder =>
      rw [place, if_neg (show
        ¬ conn.inorderView.lastRecvSequence < number from
          hOther)] at hPlace
      cases hPlace
      exact ⟨rfl, rfl, Or.inl ⟨rfl, rfl⟩⟩
  | holdForever =>
      rw [place, if_neg (show
        ¬ (conn.inorderView.lastRecvSequence = 0 ∨
          number = conn.inorderView.lastRecvSequence + 1) from
            hOther)] at hPlace
      cases hPlace
      exact ⟨rfl, rfl, Or.inr ⟨rfl, rfl⟩⟩
  | noInorder => exact absurd trivial hOther

end Accepted

section Numbers

theorem numberAt_inj
    {i j : Nat}
    (hi : 1011 + i < 2 ^ 32)
    (hj : 1011 + j < 2 ^ 32)
    (hEq : numberAt i = numberAt j) :
    i = j := by
  have hNat := congrArg BitVec.toNat hEq
  rw [numberAt_toNat hi, numberAt_toNat hj] at hNat
  omega

theorem numberAt_ne_zero
    {i : Nat}
    (hi : 1011 + i < 2 ^ 32) :
    numberAt i ≠ 0 := by
  intro hZero
  have hNat := congrArg BitVec.toNat hZero
  rw [numberAt_toNat hi] at hNat
  have hNone : (0 : BitVec 32).toNat = 0 := rfl
  omega

theorem follower_numberAt
    (i j : Nat) :
    follower (numberAt i) j = numberAt (i + 1 + j) := by
  rw [follower, numberAt, numberAt, ← BitVec.ofNat_add]
  congr 1
  omega

/- A number behind one that was sent does not wrap. -/
theorem position_of_follower
    {i j k n : Nat}
    (hi : i < n)
    (hk : k < n)
    (hWrap : n + 1011 < 2 ^ 32)
    (hj : j < 32)
    (hEq : numberAt k = follower (numberAt i) j) :
    k = i + 1 + j := by
  rw [follower_numberAt] at hEq
  have hNat := congrArg BitVec.toNat hEq
  rw [numberAt_toNat (by omega), numberAt,
    BitVec.toNat_ofNat] at hNat
  omega

/- The number tells the position of a packet. -/
theorem SentLog.IsAt.position_eq
    {fmt : PacketFormat P}
    {log : SentLog P}
    {x y : P}
    {bytes : List Byte}
    {i k : Nat}
    (hWrap : log.length + 1011 < 2 ^ 32)
    (hAt : log.IsAt fmt k x)
    (hSent : log[i]? = some (y, bytes))
    (hNumber : fmt.getWord .sequenceNumber x = numberAt i) :
    k = i := by
  have hk := hAt.lt
  have hi := (List.getElem?_eq_some_iff.mp hSent).1
  rcases hAt with ⟨_, _, -, hCarries⟩
  exact numberAt_inj (by omega) (by omega)
    (hCarries.number.symm.trans hNumber)

end Numbers

section Steps

variable
    {fmt : PacketFormat P}
    {cfg : Config}
    {d c : ConnPtr}
    {ch ch' : Channel P}
    {move : ChannelMove P}

/- The packets of a run that has its numbers are in a row. -/
theorem positions_eq
    {log : SentLog P}
    {packets : PacketPtr → P}
    {p : PacketPtr}
    {run : List PacketPtr}
    {i : Nat}
    {positions : List Nat}
    (hWrap : log.length + 1011 < 2 ^ 32)
    (hLength : run.length ≤ 32)
    (hOwn : log.IsAt fmt i (packets p))
    (hRun : ∀ j q, run[j]? = some q →
      fmt.getWord .sequenceNumber (packets q) =
        follower (numberAt i) j)
    (hAt : List.Forall₂ (fun q k => log.IsAt fmt k (packets q))
      (p :: run) positions) :
    positions = List.range' i (run.length + 1) := by
  have hLt := SentLog.positions_lt hAt
  have hSize := hAt.length_eq
  rw [List.forall₂_iff_get] at hAt
  apply List.ext_getElem
  · rw [← hSize, List.length_range', List.length_cons]
  · intro j hj hj'
    rw [List.getElem_range', Nat.one_mul]
    have hAtJ := hAt.2 j (hSize ▸ hj) hj
    rw [List.get_eq_getElem, List.get_eq_getElem] at hAtJ
    have hPosition := hLt _ (List.getElem_mem hj)
    have hi := hOwn.lt
    rcases hAtJ with ⟨y, bytes, -, hCarries⟩
    cases j with
    | zero =>
        rcases hOwn with ⟨_, _, -, hCarries'⟩
        rw [List.getElem_cons_zero] at hCarries
        exact numberAt_inj (by omega) (by omega)
          (hCarries.number.symm.trans hCarries'.number)
    | succ j =>
        rw [List.length_range'] at hj'
        have hShort : j < run.length := by omega
        rw [List.getElem_cons_succ] at hCarries
        have hNumber := hRun j _
          (List.getElem?_eq_getElem hShort)
        have hEq := position_of_follower hi hPosition hWrap
          (by omega) (hCarries.number.symm.trans hNumber)
        omega

/- What was queued is what is queued when more was sent. -/
theorem InOrder.grown
    (hOrder : InOrder c ch)
    (hLog : ∃ more, ch'.log = ch.log ++ more)
    {conn conn' : Connection}
    (hConn : ch.receiver.conns c = some conn)
    (hConn' : ch'.receiver.conns c = some conn')
    (hLast : conn'.lastRecvSequence = conn.lastRecvSequence)
    (hInserted : ch'.inserted = ch.inserted)
    (hAcked : ch.acked = [] ∧ ch'.acked = [] ∨
      ch.acked ≠ [] ∧ ch'.acked.head? = ch.acked.head?) :
    InOrder c ch' := by
  rcases hLog with ⟨more, hLog⟩
  cases hOrder with
  | fresh hConn₁ hZero hNone hNoAcks =>
      cases hConn.symm.trans hConn₁
      rcases hAcked with ⟨-, hStill⟩ | ⟨hSome, -⟩
      · exact .fresh hConn' (hLast.trans hZero)
          (hInserted.trans hNone) hStill
      · exact absurd hNoAcks hSome
  | @delivered _ first n hConn₁ hNumber hLt hQueued hHead =>
      cases hConn.symm.trans hConn₁
      rcases hAcked with ⟨hNone, -⟩ | ⟨-, hSame⟩
      · rw [hNone] at hHead
        cases hHead
      · refine .delivered hConn' (hLast.trans hNumber) ?_ ?_
          (hSame.trans hHead)
        · rw [hLog, List.length_append]
          omega
        · rw [hLog, SentLog.insertionsAt_log_append, hInserted,
            hQueued]
          intro i hi
          have hRange := (List.mem_range'_1.mp hi).2
          omega

/-
  An accepted packet delivers itself and those behind it, and
  the next number is expected.
-/
theorem InOrder.accepts
    {p : PacketPtr}
    {e : Endpoint P}
    {i : Nat}
    {conn conn' : Connection}
    {w : InorderView}
    {taken : List PacketPtr}
    {positions : List Nat}
    (hOrder : InOrder c ch)
    (hLog : ch'.log = ch.log)
    (hWrap : ch.log.length + 1011 < 2 ^ 32)
    (hPlaced : Placed fmt cfg c ch ch' i p e conn conn'
      .hookContinue w taken positions)
    (hAccepted : conn.lastRecvSequence = 0 ∨
      numberAt i = conn.lastRecvSequence + 1)
    (hDrained : Drained (numberAt i)
      { conn.inorderView with lastRecvSequence := numberAt i }
      taken w)
    (hRun : ∀ j q, taken[j]? = some q →
      fmt.getWord .sequenceNumber (e.packets q) =
        follower (numberAt i) j) :
    InOrder c ch' := by
  have hConn := hPlaced.before
  have hConn' := hPlaced.after
  have hOwn := hPlaced.own
  have hInserted := hPlaced.inserted
  have hAcked := hPlaced.acked
  have hPositions := positions_eq hWrap hDrained.length_le
    hOwn hRun hPlaced.arrived
  have hEnd := SentLog.positions_lt hPlaced.arrived
    (i + taken.length) (by
      rw [hPositions, List.mem_range'_1]
      omega)
  have hi := hOwn.lt
  have hLast : conn'.lastRecvSequence =
      numberAt (i + taken.length) := by
    have hSame := congrArg InorderView.lastRecvSequence
      hPlaced.view
    change conn'.lastRecvSequence = w.lastRecvSequence at hSame
    rw [hSame, hDrained.lastRecv, numberAt, numberAt,
      ← BitVec.ofNat_add, Nat.add_assoc]
  cases hOrder with
  | fresh _ _ hNone hNoAcks =>
      refine .delivered hConn' hLast (by rw [hLog]; exact hEnd)
        ?_ ?_
      · rw [hInserted, hNone, hLog, hPositions, List.nil_append]
      · rw [hAcked, hNoAcks]
        rfl
  | @delivered conn₁ first n hConn₁ hNumber hLt hQueued
      hHead =>
      cases hConn.symm.trans hConn₁
      have hNext : i = first + n + 1 := by
        rcases hAccepted with hZero | hNext
        · rw [hNumber] at hZero
          exact absurd hZero (numberAt_ne_zero (by omega))
        · rw [hNumber, numberAt_succ] at hNext
          exact numberAt_inj (by omega) (by omega) hNext
      subst hNext
      have hRange : List.range' first (n + 1) ++
          List.range' (first + n + 1) (taken.length + 1) =
            List.range' first (n + 1 + taken.length + 1) := by
        rw [show first + n + 1 = first + (n + 1) from rfl,
          List.range'_append_1]
        rfl
      have hNext : first + (n + 1 + taken.length) =
          first + n + 1 + taken.length := by
        omega
      refine InOrder.delivered (n := n + 1 + taken.length)
        hConn' (hLast.trans (congrArg numberAt hNext.symm)) ?_
        ?_ ?_
      · rw [hLog]
        omega
      · rw [hInserted, hQueued, hPositions,
          ← SentLog.insertionsAt_append, hRange, hLog]
      · rw [hAcked, List.head?_append, hHead]
        rfl

/- Every step keeps what was delivered in order. -/
theorem InOrder.step
    (hHold : cfg.inorderStrategy = .holdForever)
    (hReliable : cfg.reliableEnabled = true)
    (hInv : ChannelInvariant fmt cfg d c ch)
    (hOrder : InOrder c ch)
    (hWrap : ch.log.length + 1011 < 2 ^ 32)
    (hOwn : DrainsOwn fmt cfg c ch move)
    (hStep : ChannelSteps fmt cfg d c ch move ch') :
    InOrder c ch' := by
  have hLog := hStep.log_eq
  cases hStep.effect hReliable hInv with
  | @quiet _ conn conn' hConn hConn' hView hInserted hAcked =>
      have hLast := congrArg InorderView.lastRecvSequence hView
      refine hOrder.grown hLog hConn hConn' hLast hInserted ?_
      rw [hAcked]
      by_cases hNone : ch.acked = []
      · exact Or.inl ⟨hNone, hNone⟩
      · exact Or.inr ⟨hNone, rfl⟩
  | @data m p e i conn conn' w status taken positions
      hProcesses hReceiver hPlaced =>
      have hConn := hPlaced.before
      have hNumber : fmt.getWord .sequenceNumber
          (e.packets p) = numberAt i := by
        rcases hPlaced.own with ⟨_, _, -, hCarries⟩
        exact hCarries.number
      by_cases hAccepted :
          IsAccepted cfg.inorderStrategy (numberAt i) conn
      · rcases place_accepted (by simp [hHold]) hAccepted
            hPlaced.place with
          ⟨rfl, ⟨hDrop, -⟩ | ⟨-, hDrained⟩⟩
        · rw [hHold] at hDrop
          cases hDrop
        · rw [hHold] at hAccepted
          have hMaximal := hDrained.maximalRun
          have hRun := hOwn p e conn _ hProcesses hReceiver
            hConn (hNumber.symm ▸ hAccepted)
            (hNumber.symm ▸ hMaximal)
          rw [hNumber] at hRun
          have hSame : ch'.log = ch.log := by
            cases hStep
            exact Channel.received_log _ _
          exact hOrder.accepts hSame hWrap hPlaced hAccepted
            hDrained hRun
      · rcases place_not_accepted hAccepted hPlaced.place with
          ⟨rfl, rfl, ⟨hDrop, -⟩ | ⟨-, rfl⟩⟩
        · rw [hHold] at hDrop
          cases hDrop
        · rw [hHold] at hAccepted
          have hNone : positions = [] :=
            List.forall₂_nil_left_iff.mp hPlaced.arrived
          have hLast := congrArg InorderView.lastRecvSequence
            hPlaced.view
          refine hOrder.grown hLog hConn hPlaced.after hLast ?_
            ?_
          · rw [hPlaced.inserted, hNone]
            exact List.append_nil _
          · cases hOrder with
            | fresh hConn₁ hZero =>
                cases hConn.symm.trans hConn₁
                exact absurd (Or.inl hZero) hAccepted
            | delivered _ _ _ _ hHead =>
                refine Or.inr ⟨?_, ?_⟩
                · intro hNil
                  rw [hNil] at hHead
                  cases hHead
                · rw [hPlaced.acked, List.head?_append, hHead]
                  rfl

/- At the start nothing has arrived. -/
theorem JustStarted.inOrder
    (hStart : JustStarted fmt cfg d c ch) :
    InOrder c ch := by
  rcases hStart.receiver with
    ⟨r, -, fresh, h, a, sa, hCall⟩
  cases hCall with
  | establish _ _ hEstablish =>
      have hView := openedConn_inorderView cfg fresh
        (r.hostLocalId h) h a sa r.nextPacket
      exact .fresh (by rw [nbEstablish_conns hEstablish,
        Function.update_self])
        (congrArg InorderView.lastRecvSequence hView)
        hStart.inserted hStart.acked

/- What is queued for packets in a row. -/
theorem SentLog.insertionsAt_range
    {log : SentLog P}
    {first m : Nat}
    (hLt : first + m ≤ log.length) :
    (log.insertionsAt (List.range' first m)).map Prod.snd =
      SentLog.payloads ((log.drop first).take m) := by
  induction m generalizing first with
  | zero => rfl
  | succ m ih =>
      have hFirst : first < log.length := by omega
      have hRest := @ih (first + 1) (by omega)
      rw [List.drop_eq_getElem_cons hFirst, List.take_succ_cons,
        SentLog.payloads, List.flatMap_cons,
        ← SentLog.payloads, ← hRest, List.range'_succ,
        SentLog.insertionsAt, List.flatMap_cons,
        List.getElem?_eq_getElem hFirst, List.map_append]
      congr 1
      change ((payloadOf log[first].2).map _).map _ = _
      rw [List.map_map]
      exact List.map_id _

theorem InOrder.insertsFromFirst
    (hOrder : InOrder c ch) :
    InsertsFromFirst ch := by
  cases hOrder with
  | fresh _ _ hNone hNoAcks =>
      refine ⟨0, by simp [hNoAcks], ?_⟩
      rw [hNone]
      exact List.nil_prefix
  | @delivered _ first n _ _ hLt hQueued hHead =>
      refine ⟨first, ?_, ?_⟩
      · intro m hm
        rw [hHead] at hm
        exact (Option.some.inj hm).symm
      · rw [hQueued, SentLog.insertionsAt_range (by omega)]
        refine ⟨SentLog.payloads
          ((ch.log.drop first).drop (n + 1)), ?_⟩
        rw [SentLog.payloads, SentLog.payloads,
          ← List.flatMap_append, List.take_append_drop]
        rfl

/- So does every run. -/
theorem inOrder_of_run
    {start : Channel P}
    {moves : List (ChannelMove P)}
    (hHold : cfg.inorderStrategy = .holdForever)
    (hReliable : cfg.reliableEnabled = true)
    (hStart : JustStarted fmt cfg d c start)
    (hRun : Run (Guarded (DrainsOwn fmt cfg c)
      (ChannelSteps fmt cfg d c)) start moves ch)
    (hWrap : ch.log.length + 1011 < 2 ^ 32) :
    InOrder c ch := by
  let kept : Channel P → Prop := fun ch₁ =>
    ChannelInvariant fmt cfg d c ch₁ ∧
      (ch₁.log.length + 1011 < 2 ^ 32 → InOrder c ch₁)
  have hStep : ∀ ch₁ move ch₂, kept ch₁ →
      Guarded (DrainsOwn fmt cfg c)
        (ChannelSteps fmt cfg d c) ch₁ move ch₂ →
      kept ch₂ := by
    rintro ch₁ move ch₂ ⟨hInv, hOrder⟩ ⟨hOwn, hStep⟩
    refine ⟨hInv.step hReliable hStep, ?_⟩
    intro hLength
    rcases hStep.log_eq with ⟨more, hLog⟩
    rw [hLog, List.length_append] at hLength
    have hBefore : ch₁.log.length + 1011 < 2 ^ 32 := by omega
    exact (hOrder hBefore).step hHold hReliable hInv hBefore
      hOwn hStep
  have hBegin : kept start :=
    ⟨hStart.invariant hReliable, fun _ => hStart.inOrder⟩
  exact (hRun.invariant hStep hBegin).2 hWrap

/-
  Whatever is lost, repeated and reordered, what was queued
  is a prefix of what was sent from the packet on that
  arrived first.
-/
theorem insertsFromFirst_of_run
    {start : Channel P}
    {moves : List (ChannelMove P)}
    (hHold : cfg.inorderStrategy = .holdForever)
    (hReliable : cfg.reliableEnabled = true)
    (hStart : JustStarted fmt cfg d c start)
    (hRun : Run (Guarded (DrainsOwn fmt cfg c)
      (ChannelSteps fmt cfg d c)) start moves ch)
    (hWrap : ch.log.length + 1011 < 2 ^ 32) :
    InsertsFromFirst ch := by
  have hOrder := inOrder_of_run hHold hReliable hStart hRun
    hWrap
  exact hOrder.insertsFromFirst

end Steps

------------------------------------------------------------
-- A Channel That Starts
------------------------------------------------------------

/- Nothing was sent, and nothing arrived. -/
structure NothingSent
    (c : ConnPtr)
    (ch : Channel P) : Prop where
  log : ch.log = []
  inserted : ch.inserted = []
  acked : ch.acked = []
  conn : ∃ conn, ch.receiver.conns c = some conn ∧
    conn.inorderView = blankConnection.inorderView

/- A byte fits into a blank buffer. -/
theorem blankBuffer_writes
    (b : Byte) :
    ∃ y, netPacketFormat.writePayload [b]
      (lengthPacket netPacketFormat 1 blankBuffer) =
        .ok y := by
  have hRoom : payloadStart + 1 ≤
      (lengthPacket netPacketFormat 1 blankBuffer).size := by
    decide +kernel
  change ∃ y, (lengthPacket netPacketFormat 1 blankBuffer
    ).writePayload [b] = .ok y
  rw [PacketBuffer.writePayload, List.length_singleton,
    if_pos hRoom]
  exact ⟨_, rfl⟩

/- The two hosts open the connections to each other. -/
theorem exists_connected
    (strategy : InorderStrategy) :
    ∃ ch, JustStarted netPacketFormat (reliably strategy) 1 1
        ch ∧
      Connected netPacketFormat (reliably strategy)
        Side.left.ends 1 1 (List.finRange maxTimerAllocs) ch ∧
      NothingSent 1 ch := by
  rcases Side.left.opens_idle strategy with
    ⟨e₁, hOpens₁, conn₁, hIdle₁⟩
  rcases Side.right.opens_idle strategy with
    ⟨e₂, hOpens₂, conn₂, hIdle₂⟩
  have hFrame := Side.opens_frame hOpens₁
  have hJust : ∀ (i : Side) e, i.opens strategy = .ok e →
      JustOpened netPacketFormat (reliably strategy) 1
        (nbNetInit blankNetState i.endpoint) e := by
    intro i e hOpens
    exact ⟨⟨blankNetState, i.endpoint, [], fun _ => rfl,
      .nil _⟩, blankConnection, i.other.host, i.other.app,
      i.app, .establish (by decide) rfl hOpens⟩
  let ch : Channel PacketBuffer :=
    { sender := e₁, log := [], receiver := e₂,
      inserted := [], acked := [] }
  have hStart : JustStarted netPacketFormat
      (reliably strategy) 1 1 ch := by
    refine ⟨⟨_, hJust .left e₁ hOpens₁, ?_⟩,
      ⟨_, hJust .right e₂ hOpens₂⟩, rfl, rfl⟩
    rw [handedOut, hFrame.2.2]
    rfl
  refine ⟨ch, hStart, ⟨hStart.invariant rfl,
    ⟨conn₁, [], hIdle₁.isOpen, hIdle₁.pool⟩,
    ⟨conn₂, hIdle₂.isOpen⟩, ?_, ?_⟩, rfl, rfl, rfl, conn₂,
    hIdle₂.isOpen.live, ?_⟩
  · intro sent hSent
    cases hSent
  · intro p b _
    rw [hFrame.2.1]
    exact blankBuffer_writes b
  · have hConn := hIdle₂.isOpen.live
    rw [nbEstablish_conns hOpens₂, Function.update_self]
      at hConn
    cases hConn
    rw [openedConn_inorderView]
    cases strategy <;> rfl

/- The first packet that arrives is delivered. -/
theorem place_blank
    (strategy : InorderStrategy)
    (p : PacketPtr) :
    (place strategy (numberAt 1) p
      blankConnection.inorderView).1 = .hookContinue := by
  cases strategy <;> rfl

/- Two packets were sent, and the second arrives first. -/
theorem exists_lateArrival
    {guard : Channel PacketBuffer →
      ChannelMove PacketBuffer → Prop}
    (strategy : InorderStrategy)
    (hSends : ∀ ch m, guard ch (.sender m))
    (hArrives : ∀ ch m conn,
      ch.receiver.conns 1 = some conn →
      conn.inorderView = blankConnection.inorderView →
        guard ch (.receiver m)) :
    ∃ start moves ch,
      JustStarted netPacketFormat (reliably strategy) 1 1
        start ∧
      Run (Guarded guard (ChannelSteps netPacketFormat
        (reliably strategy) 1 1)) start moves ch ∧
      ch.log.length = 2 ∧ ch.acked = [numberAt 1] ∧
      ch.inserted.head? = some (numberAt 1, .ok [6]) := by
  rcases exists_connected strategy with
    ⟨start, hStart, hConnected, hNone⟩
  rcases hNone.conn with ⟨conn, hConn, hView⟩
  rcases hConnected.sendsMany rfl rfl hSends [5, 6]
      (by rw [List.length_finRange]; decide) with
    ⟨moves, e', sent, free, hRun, hSent, hBytes⟩
  have hLength : sent.length = 2 := by
    have hBoth := congrArg List.length hBytes
    rw [List.length_map] at hBoth
    exact hBoth
  have hLog : start.log ++ sent = sent := by
    rw [hNone.log, List.nil_append]
  rw [hLog] at hRun hSent
  have hSecond : sent[1].2 = [6] := by
    have hAt : (sent.map Prod.snd)[1]? = some [6] := by
      rw [hBytes]
      rfl
    rw [List.getElem?_map, List.getElem?_eq_getElem
      (by omega)] at hAt
    exact Option.some.inj hAt
  have hAt : sent[1]? = some (sent[1].1, [6]) := by
    rw [← hSecond]
    exact List.getElem?_eq_getElem _
  have hQueue : conn.inputQueue = [] :=
    congrArg InorderView.inputQueue hView
  rcases hSent.arrives rfl rfl hConn
      (by rw [hQueue]; decide) hAt with
    ⟨ch, conn', status, w, taken, positions, hStep, -, hLog',
      hPlaced, -⟩
  refine ⟨start, _, ch, hStart, hRun.append
    (.cons ⟨hArrives _ _ conn hConn hView, hStep⟩ (.nil ch)),
    ?_, ?_, ?_⟩
  · rw [hLog', hLength]
  · rw [hPlaced.acked, hNone.acked]
    rfl
  · have hStatus : status = .hookContinue := by
      have hPlace := hPlaced.place
      rw [hView] at hPlace
      exact (congrArg Prod.fst hPlace).symm.trans
        (place_blank strategy _)
    have hArrived := hPlaced.arrived
    subst hStatus
    change List.Forall₂ _ (_ :: taken) positions at hArrived
    rw [hPlaced.inserted, hNone.inserted, List.nil_append]
    cases hArrived with
    | @cons _ k _ positions hFirst _ =>
        rw [hFirst.position_eq (by rw [hLength]; decide) hAt (by
          rcases hPlaced.own with ⟨_, _, -, hCarries⟩
          exact hCarries.number), SentLog.insertionsAt,
          List.flatMap_cons, hAt]
        rfl

/- Where nothing is shelved, nothing is drained. -/
theorem drainsOwn_of_blank
    {fmt : PacketFormat P}
    {cfg : Config}
    {c : ConnPtr}
    {ch : Channel P}
    {m : StackMove P}
    {conn : Connection}
    (hConn : ch.receiver.conns c = some conn)
    (hView : conn.inorderView =
      blankConnection.inorderView) :
    DrainsOwn fmt cfg c ch (.receiver m) := by
  intro p e conn₁ run _ _ hConn₁ _ hMaximal j q hq
  cases hConn.symm.trans hConn₁
  have hBuffer : conn.inorderBuffer = fun _ => none :=
    congrArg InorderView.inorderBuffer hView
  have hHeld := (hMaximal.held j q hq).2
  rw [hBuffer] at hHeld
  cases hHeld

theorem insertsFromFirst_of_run_late :
    ∃ ch : Channel PacketBuffer, ch.log.length = 2 ∧
      ch.inserted.head? = some (numberAt 1, .ok [6]) ∧
      InsertsFromFirst ch := by
  rcases exists_lateArrival .holdForever
      (fun _ _ => trivial)
      (fun _ _ _ => drainsOwn_of_blank) with
    ⟨start, moves, ch, hStart, hRun, hLength, -, hInserted⟩
  have hInserts := insertsFromFirst_of_run rfl rfl hStart hRun
    (by rw [hLength]; decide)
  exact ⟨ch, hLength, hInserted, hInserts⟩

end NetBlocks
