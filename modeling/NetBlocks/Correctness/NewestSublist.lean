import NetBlocks.Correctness.EndToEnd

/-
  With `drop_out_of_order` what is read at one end is what was
  sent at the other with some payloads left out, in the order
  sent and none twice, whatever the network does.

  Main declarations:
    * `InsertsNewest` and `InsertsNewest.step`
    * `readsNewest_of_run`
-/

namespace NetBlocks

open TransitionSystem

variable {P : Type}

------------------------------------------------------------
-- What Was Queued
------------------------------------------------------------

/-
  The last packet that was accepted is the one before position
  `n`, and what was queued is of those up to it.
-/
structure InsertsNewest
    (c : ConnPtr)
    (ch : Channel P)
    (n : Nat) : Prop where
  last : ∃ conn, ch.receiver.conns c = some conn ∧
    (n = 0 ∧ conn.lastRecvSequence = 0 ∨
      ∃ i, n = i + 1 ∧ i < ch.log.length ∧
        conn.lastRecvSequence = numberAt i)
  queued : (ch.inserted.map Prod.snd).Sublist
    (SentLog.payloads (ch.log.take n))

theorem SentLog.payloads_take_sublist
    {log : SentLog P}
    {n m : Nat}
    (hLe : n ≤ m) :
    (SentLog.payloads (log.take n)).Sublist
      (SentLog.payloads (log.take m)) := by
  have hPrefix : log.take n <+: log.take m :=
    List.take_prefix_take_left hLe
  rcases hPrefix with ⟨rest, hRest⟩
  rw [← hRest, SentLog.payloads, SentLog.payloads,
    List.flatMap_append]
  exact List.sublist_append_left _ _

/- The payload of one more packet -/
theorem SentLog.payloads_take_add_one
    {log : SentLog P}
    {i : Nat}
    (hLt : i < log.length) :
    SentLog.payloads (log.take (i + 1)) =
      SentLog.payloads (log.take i) ++
        (log.insertionsAt [i]).map Prod.snd := by
  have hOne : (log.insertionsAt
      (List.range' i 1)).map Prod.snd =
      SentLog.payloads ((log.drop i).take 1) :=
    SentLog.insertionsAt_range hLt
  rw [List.range'_one] at hOne
  rw [hOne, SentLog.payloads, SentLog.payloads,
    SentLog.payloads, ← List.flatMap_append, List.take_add]

section Steps

variable
    {fmt : PacketFormat P}
    {cfg : Config}
    {d c : ConnPtr}
    {ch ch' : Channel P}
    {move : ChannelMove P}
    {n : Nat}

/- What was sent since does not matter. -/
theorem InsertsNewest.grown
    (hNewest : InsertsNewest c ch n)
    (hLog : ∃ more, ch'.log = ch.log ++ more)
    {conn conn' : Connection}
    (hConn : ch.receiver.conns c = some conn)
    (hConn' : ch'.receiver.conns c = some conn')
    (hLast : conn'.lastRecvSequence = conn.lastRecvSequence)
    (hInserted : ch'.inserted = ch.inserted) :
    InsertsNewest c ch' n := by
  rcases hLog with ⟨more, hLog⟩
  rcases hNewest.last with ⟨conn₁, hConn₁, hAt⟩
  cases hConn.symm.trans hConn₁
  refine ⟨⟨conn', hConn', ?_⟩, ?_⟩
  · rw [hLast, hLog, List.length_append]
    apply hAt.imp_right
    rintro ⟨i, hn, hLt, hNumber⟩
    exact ⟨i, hn, by omega, hNumber⟩
  · have hOld : n ≤ ch.log.length := by
      rcases hAt with ⟨hZero, -⟩ | ⟨i, hn, hLt, -⟩
      · omega
      · omega
    rw [hInserted, hLog, List.take_append_of_le_length hOld]
    exact hNewest.queued

/- A packet that is accepted was sent behind the last one. -/
theorem InsertsNewest.accepts
    {p : PacketPtr}
    {e : Endpoint P}
    {i : Nat}
    {conn conn' : Connection}
    {w : InorderView}
    {positions : List Nat}
    (hNewest : InsertsNewest c ch n)
    (hLog : ch'.log = ch.log)
    (hWrap : ch.log.length + 1011 < 2 ^ 32)
    (hPlaced : Placed fmt cfg c ch ch' i p e conn conn'
      .hookContinue w [] positions)
    (hNewer : conn.lastRecvSequence < numberAt i)
    (hView : w.lastRecvSequence = numberAt i) :
    InsertsNewest c ch' (i + 1) := by
  have hLt := hPlaced.own.lt
  have hShort : ([] : List PacketPtr).length ≤ 32 :=
    Nat.zero_le 32
  have hPositions : positions = [i] :=
    positions_eq hWrap hShort hPlaced.own
      (fun j q hq => by cases hq) hPlaced.arrived
  have hBehind : n ≤ i := by
    rcases hNewest.last with
      ⟨conn₁, hConn₁, ⟨hZero, -⟩ | ⟨k, hn, hk, hNumber⟩⟩
    · omega
    · cases hPlaced.before.symm.trans hConn₁
      rw [hNumber, BitVec.lt_def, numberAt_toNat (by omega),
        numberAt_toNat (by omega)] at hNewer
      omega
  have hLast : conn'.lastRecvSequence = numberAt i := by
    have hSame := congrArg InorderView.lastRecvSequence
      hPlaced.view
    exact hSame.trans hView
  refine ⟨⟨conn', hPlaced.after, Or.inr ⟨i, rfl, ?_, hLast⟩⟩,
    ?_⟩
  · rw [hLog]
    exact hLt
  · rw [hLog, hPlaced.inserted, hPositions, List.map_append,
      SentLog.payloads_take_add_one hLt]
    apply List.Sublist.append _ (List.Sublist.refl _)
    exact hNewest.queued.trans
      (SentLog.payloads_take_sublist hBehind)

theorem InsertsNewest.step
    (hDrop : cfg.inorderStrategy = .dropOutOfOrder)
    (hReliable : cfg.reliableEnabled = true)
    (hInv : ChannelInvariant fmt cfg d c ch)
    (hWrap : ch.log.length + 1011 < 2 ^ 32)
    (hNewest : InsertsNewest c ch n)
    (hStep : ChannelSteps fmt cfg d c ch move ch') :
    ∃ m, InsertsNewest c ch' m := by
  have hLog := hStep.log_eq
  cases hStep.effect hReliable hInv with
  | quiet hConn hConn' hView hInserted =>
      have hLast := congrArg InorderView.lastRecvSequence hView
      exact ⟨n, hNewest.grown hLog hConn hConn' hLast
        hInserted⟩
  | @data m p e i conn conn' w status taken positions _ _
      hPlaced =>
      have hPlace := hPlaced.place
      rw [hDrop, place] at hPlace
      split at hPlace
      · next hNewer =>
          cases hPlace
          have hSame : ch'.log = ch.log := by
            cases hStep
            exact Channel.received_log _ _
          exact ⟨i + 1, hNewest.accepts hSame hWrap hPlaced
            hNewer rfl⟩
      · cases hPlace
        have hNone : positions = [] :=
          List.forall₂_nil_left_iff.mp hPlaced.arrived
        have hLast := congrArg InorderView.lastRecvSequence
          hPlaced.view
        refine ⟨n, hNewest.grown hLog hPlaced.before
          hPlaced.after hLast ?_⟩
        rw [hPlaced.inserted, hNone]
        exact List.append_nil _

theorem JustStarted.insertsNewest
    (hStart : JustStarted fmt cfg d c ch) :
    InsertsNewest c ch 0 := by
  rcases hStart.receiver with
    ⟨r, -, fresh, h, a, sa, hCall⟩
  cases hCall with
  | establish _ _ hEstablish =>
      have hView := openedConn_inorderView cfg fresh
        (r.hostLocalId h) h a sa r.nextPacket
      refine ⟨⟨_, by rw [nbEstablish_conns hEstablish,
        Function.update_self], Or.inl ⟨rfl,
          congrArg InorderView.lastRecvSequence hView⟩⟩, ?_⟩
      rw [hStart.inserted]
      exact List.nil_sublist _

theorem insertsNewest_of_run
    {start : Channel P}
    {moves : List (ChannelMove P)}
    (hDrop : cfg.inorderStrategy = .dropOutOfOrder)
    (hReliable : cfg.reliableEnabled = true)
    (hStart : JustStarted fmt cfg d c start)
    (hRun : Run (ChannelSteps fmt cfg d c) start moves ch)
    (hWrap : ch.log.length + 1011 < 2 ^ 32) :
    ∃ n, InsertsNewest c ch n := by
  let kept : Channel P → Prop := fun ch₁ =>
    ChannelInvariant fmt cfg d c ch₁ ∧
      (ch₁.log.length + 1011 < 2 ^ 32 →
        ∃ n, InsertsNewest c ch₁ n)
  have hStep : ∀ ch₁ move ch₂, kept ch₁ →
      ChannelSteps fmt cfg d c ch₁ move ch₂ → kept ch₂ := by
    rintro ch₁ move ch₂ ⟨hInv, hNewest⟩ hStep
    refine ⟨hInv.step hReliable hStep, ?_⟩
    intro hLength
    rcases hStep.log_eq with ⟨more, hLog⟩
    rw [hLog, List.length_append] at hLength
    have hBefore : ch₁.log.length + 1011 < 2 ^ 32 := by omega
    rcases hNewest hBefore with ⟨n, hNewest⟩
    exact hNewest.step hDrop hReliable hInv hBefore hStep
  have hBegin : kept start :=
    ⟨hStart.invariant hReliable,
      fun _ => ⟨0, hStart.insertsNewest⟩⟩
  exact (hRun.invariant hStep hBegin).2 hWrap

------------------------------------------------------------
-- What Is Read
------------------------------------------------------------

/-
  What is read was sent, in this order, and no payload is read
  more often than it was sent.
-/
theorem readsNewest_of_run
    {start : Channel P}
    {moves : List (ChannelMove P)}
    {s : Session P}
    (hDrop : cfg.inorderStrategy = .dropOutOfOrder)
    (hReliable : cfg.reliableEnabled = true)
    (hStart : JustStarted fmt cfg d c start)
    (hRun : Run (Guarded
      (fun s : Session P => FitsBuffer c s.channel.receiver)
      (SessionSteps fmt cfg d c))
      { channel := start, returned := [] } moves s)
    (hWrap : s.channel.log.length + 1011 < 2 ^ 32) :
    (s.returned.map Except.ok).Sublist
      (SentLog.payloads s.channel.log) := by
  have hChannel : Run (ChannelSteps fmt cfg d c) start
      (moves.map id) s.channel :=
    hRun.map (f := Session.channel) (by
      rintro s₁ move s₂ ⟨-, hSession⟩
      cases hSession with
      | step hStep => exact hStep)
  rcases readsOn_of_run hReliable hStart hRun with
    ⟨rest, hAll, -⟩
  rcases insertsNewest_of_run hDrop hReliable hStart hChannel
      hWrap with ⟨n, hNewest⟩
  have hRead : (s.returned.map Except.ok).Sublist
      (s.channel.inserted.map Prod.snd) := by
    rw [hAll]
    exact List.sublist_append_left _ _
  apply (hRead.trans hNewest.queued).trans
  have hLe : n ≤ max n s.channel.log.length :=
    Nat.le_max_left _ _
  have hAllSent : (SentLog.payloads
      (s.channel.log.take n)).Sublist
      (SentLog.payloads (s.channel.log.take
        (max n s.channel.log.length))) :=
    SentLog.payloads_take_sublist hLe
  rw [List.take_of_length_le (Nat.le_max_right _ _)]
    at hAllSent
  exact hAllSent

end Steps

/- The second of two payloads overtook the first, and is read. -/
theorem readsNewest_of_run_late :
    ∃ s : Session PacketBuffer, s.channel.log.length = 2 ∧
      s.returned.head? = some [6] ∧
      (s.returned.map Except.ok).Sublist
        (SentLog.payloads s.channel.log) := by
  rcases @exists_lateRead (fun ch => FitsBuffer 1 ch.receiver)
      .dropOutOfOrder (fun _ _ => trivial)
      (fun _ _ _ => fitsBuffer_of_blank)
      (fun _ _ hFits => hFits) (fun _ _ hFits => hFits) with
    ⟨start, moves, s, hStart, hRun, hLength, hRead⟩
  have hNewest := readsNewest_of_run rfl rfl hStart hRun
    (by rw [hLength]; decide)
  exact ⟨s, hLength, hRead, hNewest⟩

end NetBlocks
