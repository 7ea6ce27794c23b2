import NetBlocks.Correctness.InorderPrefix

/-
  From one program to the other: what `nb__read` returns at
  one end is what `nb__send` was given at the other, from the
  packet on that arrived first, whatever the network does.

  Main declarations:
    * `Session` and `SessionSteps`
    * `FitsBuffer`
    * `ReadsOn` and `ReadsOn.step`
    * `readsFromFirst_of_run`
-/

namespace NetBlocks

open Except TransitionSystem

variable {P : Type}

------------------------------------------------------------
-- Sessions
------------------------------------------------------------

/-
  A channel, with the payloads that `nb__read` returned to the
  program at the receiver, in order.
-/
structure Session (P : Type) where
  channel : Channel P
  returned : List (List Byte)

/- What a step returns to the program that reads, if it does. -/
def ChannelMove.returns
    (fmt : PacketFormat P)
    (c : ConnPtr)
    (e : Endpoint P) :
    ChannelMove P → List (List Byte)
| .receiver (.call (.read d maxLen)) =>
    if d = c ∧ e.inputQueue c ≠ [] then
      match nbRead fmt c maxLen e with
      | .ok (bytes, _) => [bytes]
      | .error _ => []
    else
      []
| _ => []

/- The steps of a channel, with what they return. -/
inductive SessionSteps
    (fmt : PacketFormat P)
    (cfg : Config)
    (d c : ConnPtr)
    (s : Session P) : ChannelMove P → Session P → Prop
| step {move : ChannelMove P} {ch' : Channel P} :
    ChannelSteps fmt cfg d c s.channel move ch' →
    SessionSteps fmt cfg d c s move
      { channel := ch'
        returned := s.returned ++
          move.returns fmt c s.channel.receiver }

/- The buffer of a read has room for the payload in front. -/
def FitsBuffer
    (c : ConnPtr)
    (e : Endpoint P) : ChannelMove P → Prop
| .receiver (.call (.read d maxLen)) =>
    d = c → ∀ entry, (e.inputQueue c).head? = some entry →
      entry.2 ≤ maxLen
| _ => True

/-
  The payloads that were read are the first of those that
  were sent, from the packet on that arrived first.
-/
def ReadsFromFirst
    (s : Session P) : Prop :=
  ∃ first, (∀ n, s.channel.acked.head? = some n →
      n = numberAt first) ∧
    s.returned.map Except.ok <+:
      SentLog.payloads (s.channel.log.drop first)

/-
  What was read was sent, nothing that was queued is lost on
  the way, and what was acknowledged was sent.
-/
structure ReadsSent
    (c : ConnPtr)
    (s : Session P) : Prop where
  sent : ∀ bytes ∈ s.returned,
    bytes ≠ [] ∧ ∃ y, (y, bytes) ∈ s.channel.log
  queued : ∃ waiting,
    s.channel.inserted.map Prod.snd =
        s.returned.map Except.ok ++ waiting ∧
      waiting.length =
        (s.channel.receiver.inputQueue c).length
  acked : ∀ n ∈ s.channel.acked,
    ∃ i < s.channel.log.length, n = numberAt i

------------------------------------------------------------
-- What Waits in the Queue
------------------------------------------------------------

/- A queue entry of a payload that was queued. -/
def Waits
    (fmt : PacketFormat P)
    (e : Endpoint P)
    (entry : PacketPtr × Int)
    (queued : Insertion) : Prop :=
  ∃ bytes, queued.2 = .ok bytes ∧ bytes ≠ [] ∧
    entry.2 = bytes.length ∧ entry.1 < e.nextPacket ∧
    fmt.Carries queued.1 bytes (e.packets entry.1)

/- What was queued was read, or waits. -/
def ReadsOn
    (fmt : PacketFormat P)
    (c : ConnPtr)
    (s : Session P) : Prop :=
  ∃ rest : List Insertion,
    s.channel.inserted.map Prod.snd =
        s.returned.map Except.ok ++ rest.map Prod.snd ∧
      List.Forall₂ (Waits fmt s.channel.receiver)
        (s.channel.receiver.inputQueue c) rest

section Sessions

variable
    {fmt : PacketFormat P}
    {cfg : Config}
    {d c : ConnPtr}
    {s s' : Session P}
    {ch ch' : Channel P}
    {e : Endpoint P}
    {conn : Connection}
    {move : ChannelMove P}

/- A read that fits returns the payload in front. -/
theorem nbRead_whole
    {e' : Endpoint P}
    {maxLen : Int}
    {bytes payload : List Byte}
    {entry : PacketPtr × Int}
    {queue : DataQueue}
    {number : BitVec 32}
    (hConn : e.conns c = some conn)
    (hQueue : conn.inputQueue = entry :: queue)
    (hSize : entry.2 = payload.length)
    (hNe : payload ≠ [])
    (hCarries : fmt.Carries number payload
      (e.packets entry.1))
    (hFits : entry.2 ≤ maxLen)
    (hRead : nbRead fmt c maxLen e = .ok (bytes, e')) :
    bytes = payload ∧
      e' = e.setConn c { conn with inputQueue := queue } := by
  rcases entry with ⟨p, size⟩
  unfold nbRead at hRead
  rw [Endpoint.loadConn_eq_ok_iff.mpr hConn, ok_bind] at hRead
  rw [hQueue] at hRead
  dsimp only at hRead hSize hFits hCarries
  have hCopy : (if maxLen < size then maxLen else size) =
      size := if_neg (by omega)
  rw [hCopy, if_neg (by omega), hSize, Int.toNat_natCast,
    hCarries.payload hNe, ok_bind] at hRead
  cases hRead
  refine ⟨rfl, ?_⟩
  exact Endpoint.modifyConn_eq hConn _

/- What waits goes on waiting when packets are kept. -/
theorem Waits.mono
    {e' : Endpoint P}
    {entry : PacketPtr × Int}
    {queued : Insertion}
    (hKept : ∀ q number bytes, q < e.nextPacket →
      fmt.Carries number bytes (e.packets q) →
        q < e'.nextPacket ∧
          fmt.Carries number bytes (e'.packets q))
    (hWaits : Waits fmt e entry queued) :
    Waits fmt e' entry queued := by
  rcases hWaits with
    ⟨bytes, hOk, hNe, hSize, hOld, hCarries⟩
  rcases hKept _ _ _ hOld hCarries with ⟨hOld', hCarries'⟩
  exact ⟨bytes, hOk, hNe, hSize, hOld', hCarries'⟩

/- The payloads of packets that are delivered wait. -/
theorem waits_arrived
    {log : SentLog P}
    {arrived : List PacketPtr}
    {positions : List Nat}
    {lens : PacketPtr → Int}
    (hAt : List.Forall₂
      (fun q k => log.IsAt fmt k (e.packets q))
      arrived positions)
    (hOld : ∀ q ∈ arrived, q < e.nextPacket)
    (hLens : ∀ q number bytes, q < e.nextPacket →
      fmt.Carries number bytes (e.packets q) →
        lens q = bytes.length) :
    List.Forall₂ (Waits fmt e) (payloads lens arrived)
      (log.insertionsAt positions) := by
  induction hAt with
  | nil => exact .nil
  | @cons q k arrived positions hFirst _ ih =>
      have hRest := ih (fun r hr =>
        hOld r (List.mem_cons_of_mem q hr))
      rcases hFirst with ⟨y, bytes, hSent, hCarries⟩
      have hq := hOld q List.mem_cons_self
      have hLen := hLens q _ _ hq hCarries
      have hCons : log.insertionsAt (k :: positions) =
          insertionOf (numberAt k) bytes ++
            log.insertionsAt positions := by
        rw [SentLog.insertionsAt, List.flatMap_cons, hSent]
        rfl
      rw [payloads_cons, hCons]
      refine List.rel_append ?_ hRest
      by_cases hEmpty : bytes = []
      · rw [payloads_of_zero (by simp [hLen, hEmpty]),
          insertionOf, payloadOf, if_pos hEmpty]
        exact .nil
      · rw [payloads_of_ne (by simp [hLen, hEmpty]),
          insertionOf, payloadOf, if_neg hEmpty]
        exact .cons ⟨bytes, rfl, hEmpty, hLen, hq, hCarries⟩
          .nil

/- Only a read of the connection returns something. -/
theorem ChannelMove.returns_of_processes
    {m : StackMove P}
    {p : PacketPtr}
    {e₀ : Endpoint P}
    (hProcesses : m.processes e = some (p, e₀)) :
    (ChannelMove.receiver m).returns fmt c e = [] := by
  cases m with
  | call call =>
      cases call with
      | ingress => rfl
      | _ => cases hProcesses
  | accept => rfl

theorem ChannelMove.returns_of_ne
    (hOther : ∀ maxLen,
      move ≠ .receiver (.call (.read c maxLen))) :
    move.returns fmt c e = [] := by
  unfold ChannelMove.returns
  split
  · next d maxLen =>
      rw [if_neg]
      rintro ⟨rfl, -⟩
      exact hOther maxLen rfl
  · rfl

/- A read takes the payload in front, if there is one. -/
theorem ReadsOn.reads
    {maxLen : Int}
    {bytes : List Byte}
    {e' : Endpoint P}
    {rest : List Insertion}
    (hConn : e.conns c = some conn)
    (hWaits : List.Forall₂ (Waits fmt e) (e.inputQueue c)
      rest)
    (hFits : FitsBuffer c e
      (.receiver (.call (.read c maxLen))))
    (hRead : nbRead fmt c maxLen e = .ok (bytes, e')) :
    ∃ rest', rest.map Prod.snd =
        ((ChannelMove.receiver (.call (.read c maxLen))
          ).returns fmt c e).map Except.ok ++
            rest'.map Prod.snd ∧
      List.Forall₂ (Waits fmt e) (e'.inputQueue c) rest' := by
  have hBefore : e.inputQueue c = conn.inputQueue := by
    rw [Endpoint.inputQueue, hConn]
  cases hQueue : conn.inputQueue with
  | nil =>
      refine ⟨rest, ?_, ?_⟩
      · rw [ChannelMove.returns, if_neg (fun hBoth =>
          hBoth.2 (hBefore.trans hQueue))]
        rfl
      · unfold nbRead at hRead
        rw [Endpoint.loadConn_eq_ok_iff.mpr hConn, ok_bind,
          hQueue] at hRead
        cases hRead
        exact hWaits
  | cons entry queue =>
      rw [hBefore, hQueue] at hWaits
      cases hWaits with
      | @cons _ queued _ rest' hFirst hRest =>
          rcases hFirst with
            ⟨payload, hOk, hNe, hSize, hOld, hCarries⟩
          have hSmall := hFits rfl entry (by
            rw [hBefore, hQueue]
            rfl)
          rcases nbRead_whole hConn hQueue hSize hNe hCarries
              hSmall hRead with ⟨rfl, rfl⟩
          refine ⟨rest', ?_, ?_⟩
          · rw [ChannelMove.returns, if_pos ⟨rfl, by
              rw [hBefore, hQueue]
              exact List.cons_ne_nil _ _⟩, hRead,
              List.map_cons, hOk]
            rfl
          · rw [Endpoint.inputQueue,
              Endpoint.setConn_conns_self]
            exact hRest

/- What is queued and what is read add up. -/
theorem ReadsOn.step
    (hReliable : cfg.reliableEnabled = true)
    (hInv : ChannelInvariant fmt cfg d c s.channel)
    (hReads : ReadsOn fmt c s)
    (hFits : FitsBuffer c s.channel.receiver move)
    (hStep : SessionSteps fmt cfg d c s move s') :
    ReadsOn fmt c s' := by
  rcases hReads with ⟨rest, hAll, hWaits⟩
  cases hStep with
  | step hStep =>
      rename_i ch'
      have hKept : ∀ queue rest,
          List.Forall₂ (Waits fmt s.channel.receiver) queue
            rest →
          List.Forall₂ (Waits fmt ch'.receiver) queue rest :=
        fun _ _ hQueue => hQueue.imp (fun entry queued hOne =>
          hOne.mono (fun _ _ _ => hStep.kept))
      cases hStep.effect hReliable hInv with
      | @quiet _ conn conn' hConn hConn' hView hInserted _
          hQueue =>
          have hBefore : s.channel.receiver.inputQueue c =
              conn.inputQueue := by
            rw [Endpoint.inputQueue, hConn]
          have hAfter : ch'.receiver.inputQueue c =
              conn'.inputQueue := by
            rw [Endpoint.inputQueue, hConn']
          by_cases hRead : ∃ maxLen,
              move = .receiver (.call (.read c maxLen))
          · rcases hRead with ⟨maxLen, rfl⟩
            have hReads : ∃ bytes, nbRead fmt c maxLen
                s.channel.receiver = .ok (bytes,
                  ch'.receiver) := by
              cases hStep with
              | receiver hMoves =>
                  rw [Channel.received_receiver]
                  cases hMoves with
                  | call hCall =>
                      cases hCall with
                      | read hRead => exact ⟨_, hRead⟩
            rcases hReads with ⟨bytes, hRead⟩
            rcases ReadsOn.reads hConn hWaits hFits hRead with
              ⟨rest', hRest, hQueue'⟩
            refine ⟨rest', ?_, hKept _ _ hQueue'⟩
            rw [hInserted, hAll, hRest, List.map_append,
              List.append_assoc]
          · have hOther : ∀ maxLen,
                move ≠ .receiver (.call (.read c maxLen)) :=
              fun maxLen hEq => hRead ⟨maxLen, hEq⟩
            have hSame : conn'.inputQueue =
                conn.inputQueue := by
              rcases hQueue with hSame | ⟨maxLen, _, hEq, -⟩
              · exact hSame
              · exact absurd hEq (hOther maxLen)
            refine ⟨rest, ?_, ?_⟩
            · rw [hInserted, hAll,
                ChannelMove.returns_of_ne hOther,
                List.append_nil]
            · rw [hAfter, hSame, ← hBefore]
              exact hKept _ _ hWaits
      | @data m p e i conn conn' w status taken positions
          hProcesses hReceiver hPlaced =>
          rcases hPlaced.queue with ⟨lens, hQueue, hLens⟩
          have hBefore : s.channel.receiver.inputQueue c =
              conn.inputQueue := by
            rw [Endpoint.inputQueue, hPlaced.before]
          have hAfter : ch'.receiver.inputQueue c =
              conn'.inputQueue := by
            rw [Endpoint.inputQueue, hPlaced.after]
          have hNew := (waits_arrived hPlaced.arrived
            hPlaced.old hLens).imp
              (fun entry queued hOne => hOne.mono
                (fun _ _ _ => hStep.kept_processed hProcesses))
          refine ⟨rest ++ s.channel.log.insertionsAt positions,
            ?_, ?_⟩
          · rw [hPlaced.inserted, List.map_append, hAll,
              ChannelMove.returns_of_processes hProcesses,
              List.append_nil, List.map_append,
              List.append_assoc]
          · rw [hAfter, hQueue, ← hBefore]
            exact List.rel_append (hKept _ _ hWaits) hNew

/- Nothing waits on a connection that was just opened. -/
theorem JustStarted.readsOn
    (hStart : JustStarted fmt cfg d c ch) :
    ReadsOn fmt c { channel := ch, returned := [] } := by
  refine ⟨[], ?_, ?_⟩
  · change ch.inserted.map Prod.snd = _
    rw [hStart.inserted]
    rfl
  · rcases hStart.receiver with
      ⟨r, -, fresh, h, a, sa, hCall⟩
    cases hCall with
    | establish _ _ hEstablish =>
        have hView := openedConn_inorderView cfg fresh
          (r.hostLocalId h) h a sa r.nextPacket
        have hQueue : ch.receiver.inputQueue c = [] := by
          rw [Endpoint.inputQueue,
            nbEstablish_conns hEstablish, Function.update_self]
          exact congrArg InorderView.inputQueue hView
        change List.Forall₂ _ (ch.receiver.inputQueue c) []
        rw [hQueue]
        exact .nil

/- So they do over whole runs. -/
theorem readsOn_of_run
    {start : Channel P}
    {moves : List (ChannelMove P)}
    (hReliable : cfg.reliableEnabled = true)
    (hStart : JustStarted fmt cfg d c start)
    (hRun : Run (Guarded
      (fun s : Session P => FitsBuffer c s.channel.receiver)
      (SessionSteps fmt cfg d c))
      { channel := start, returned := [] } moves s) :
    ReadsOn fmt c s := by
  have hStep : ∀ (s₁ : Session P) move s₂,
      ChannelInvariant fmt cfg d c s₁.channel ∧
        ReadsOn fmt c s₁ →
      Guarded (fun s : Session P =>
        FitsBuffer c s.channel.receiver)
        (SessionSteps fmt cfg d c) s₁ move s₂ →
      ChannelInvariant fmt cfg d c s₂.channel ∧
        ReadsOn fmt c s₂ := by
    rintro s₁ move s₂ ⟨hInv, hReads⟩ ⟨hFits, hSession⟩
    have hReads' := hReads.step hReliable hInv hFits hSession
    cases hSession with
    | step hStep => exact ⟨hInv.step hReliable hStep, hReads'⟩
  exact (hRun.invariant hStep
    ⟨hStart.invariant hReliable, hStart.readsOn⟩).2

/-
  Whatever the network does and however order is kept, what
  is read is, byte for byte, what was sent.
-/
theorem readsSent_of_run
    {start : Channel P}
    {moves : List (ChannelMove P)}
    (hReliable : cfg.reliableEnabled = true)
    (hStart : JustStarted fmt cfg d c start)
    (hRun : Run (Guarded
      (fun s : Session P => FitsBuffer c s.channel.receiver)
      (SessionSteps fmt cfg d c))
      { channel := start, returned := [] } moves s) :
    ReadsSent c s := by
  have hChannel : Run (ChannelSteps fmt cfg d c) start
      (moves.map id) s.channel :=
    hRun.map (f := Session.channel) (by
      rintro s₁ move s₂ ⟨-, hSession⟩
      cases hSession with
      | step hStep => exact hStep)
  have hInv : ChannelInvariant fmt cfg d c s.channel :=
    hChannel.invariant (fun _ _ _ hInv hStep =>
      hInv.step hReliable hStep) (hStart.invariant hReliable)
  rcases readsOn_of_run hReliable hStart hRun with
    ⟨rest, hAll, hWaits⟩
  rcases hInv.inserted with ⟨positions, -, hInserted⟩
  refine ⟨?_, ⟨rest.map Prod.snd, hAll, ?_⟩, hInv.acked⟩
  · intro bytes hBytes
    have hMem : Except.ok bytes ∈
        s.channel.inserted.map Prod.snd := by
      rw [hAll]
      exact List.mem_append_left _
        (List.mem_map_of_mem hBytes)
    rcases List.mem_map.mp hMem with
      ⟨⟨number, payload⟩, hQueued, hEq⟩
    rw [hInserted] at hQueued
    rcases mem_insertionsAt_iff.mp hQueued with
      ⟨k, -, y, bytes', hSent, hNe, -, rfl⟩
    cases hEq
    exact ⟨hNe, y, List.mem_of_getElem? hSent⟩
  · rw [List.length_map]
    exact hWaits.length_eq.symm

/-
  Whatever is lost, repeated and reordered, what was read is
  a prefix of what was sent from the packet on that arrived
  first, if each read has room for a payload.
-/
theorem readsFromFirst_of_run
    {start : Channel P}
    {moves : List (ChannelMove P)}
    (hHold : cfg.inorderStrategy = .holdForever)
    (hReliable : cfg.reliableEnabled = true)
    (hStart : JustStarted fmt cfg d c start)
    (hRun : Run (Guarded
      (fun s move => DrainsOwn fmt cfg c s.channel move ∧
        FitsBuffer c s.channel.receiver move)
      (SessionSteps fmt cfg d c))
      { channel := start, returned := [] } moves s)
    (hWrap : s.channel.log.length + 1011 < 2 ^ 32) :
    ReadsFromFirst s := by
  have hFits : Run (Guarded
      (fun s : Session P => FitsBuffer c s.channel.receiver)
      (SessionSteps fmt cfg d c))
      { channel := start, returned := [] } moves s :=
    hRun.mono (fun _ _ _ hStep => ⟨hStep.1.2, hStep.2⟩)
  have hChannel : Run (Guarded (DrainsOwn fmt cfg c)
      (ChannelSteps fmt cfg d c)) start (moves.map id)
      s.channel :=
    hRun.map (f := Session.channel) (by
      rintro s₁ move s₂ ⟨⟨hOwn, -⟩, hSession⟩
      cases hSession with
      | step hStep => exact ⟨hOwn, hStep⟩)
  rcases readsOn_of_run hReliable hStart hFits with
    ⟨rest, hAll, -⟩
  have hOrder := inOrder_of_run hHold hReliable hStart hChannel
    hWrap
  rcases hOrder.insertsFromFirst with
    ⟨first, hFirst, hPrefix⟩
  refine ⟨first, hFirst, List.IsPrefix.trans ?_ hPrefix⟩
  rw [hAll]
  exact List.prefix_append _ _

/- A payload that waits can be read. -/
theorem Waits.read_ok
    {entry : PacketPtr × Int}
    {queue : DataQueue}
    {queued : Insertion}
    (hConn : e.conns c = some conn)
    (hQueue : conn.inputQueue = entry :: queue)
    (hWaits : Waits fmt e entry queued) :
    ∃ bytes e', nbRead fmt c entry.2 e = .ok (bytes, e') ∧
      queued.2 = .ok bytes := by
  rcases entry with ⟨p, size⟩
  rcases hWaits with ⟨bytes, hOk, hNe, hSize, -, hCarries⟩
  dsimp only at hSize hCarries
  subst hSize
  have hCopy : (if (bytes.length : Int) < bytes.length then
      (bytes.length : Int) else bytes.length) =
        bytes.length := if_neg (by omega)
  have hRead : ∃ e', nbRead fmt c (bytes.length : Int) e =
      .ok (bytes, e') := by
    unfold nbRead
    rw [Endpoint.loadConn_eq_ok_iff.mpr hConn, ok_bind,
      hQueue]
    dsimp only
    rw [hCopy, if_neg (by omega), Int.toNat_natCast,
      hCarries.payload hNe, ok_bind]
    exact ⟨_, rfl⟩
  rcases hRead with ⟨e', hRead⟩
  exact ⟨bytes, e', hRead, hOk⟩

end Sessions

------------------------------------------------------------
-- A Payload Is Read
------------------------------------------------------------

/- What is asked of a run can be asked of its session. -/
theorem exists_session
    {fmt : PacketFormat P}
    {cfg : Config}
    {d c : ConnPtr}
    {guard : Channel P → ChannelMove P → Prop}
    {ch ch' : Channel P}
    {moves : List (ChannelMove P)}
    (hRun : Run (Guarded guard (ChannelSteps fmt cfg d c)) ch
      moves ch')
    (returned : List (List Byte)) :
    ∃ returned', Run (Guarded
      (fun s : Session P => guard s.channel)
      (SessionSteps fmt cfg d c))
      { channel := ch, returned := returned } moves
      { channel := ch', returned := returned' } := by
  induction hRun generalizing returned with
  | nil ch => exact ⟨returned, .nil _⟩
  | @cons ch ch₁ _ move _ hStep _ ih =>
      rcases ih (returned ++ move.returns fmt c ch.receiver)
        with ⟨returned', hRest⟩
      exact ⟨returned', .cons ⟨hStep.1, .step hStep.2⟩ hRest⟩

/-
  A session of two packets, of which the second arrived first:
  its payload was read.
-/
theorem exists_lateRead
    {guard : Channel PacketBuffer →
      ChannelMove PacketBuffer → Prop}
    (strategy : InorderStrategy)
    (hSends : ∀ ch m, guard ch (.sender m))
    (hArrives : ∀ ch m conn,
      ch.receiver.conns 1 = some conn →
      conn.inorderView = blankConnection.inorderView →
        guard ch (.receiver m))
    (hReads : ∀ ch maxLen,
      FitsBuffer 1 ch.receiver
        (.receiver (.call (.read 1 maxLen))) →
      guard ch (.receiver (.call (.read 1 maxLen))))
    (hFits : ∀ ch m, guard ch m →
      FitsBuffer 1 ch.receiver m) :
    ∃ start moves s,
      JustStarted netPacketFormat (reliably strategy) 1 1
        start ∧
      Run (Guarded (fun s : Session PacketBuffer =>
        guard s.channel) (SessionSteps netPacketFormat
          (reliably strategy) 1 1))
        { channel := start, returned := [] } moves s ∧
      s.channel.log.length = 2 ∧
      s.returned.head? = some [6] := by
  rcases exists_lateArrival strategy hSends hArrives with
    ⟨start, moves, ch, hStart, hRun, hLength, -, hInserted⟩
  rcases exists_session hRun [] with ⟨returned, hSession⟩
  have hOn := readsOn_of_run rfl hStart
    (hSession.mono (fun _ _ _ hStep =>
      ⟨hFits _ _ hStep.1, hStep.2⟩))
  have hInv : ChannelInvariant netPacketFormat
      (reliably strategy) 1 1 ch :=
    hRun.invariant (fun _ _ _ hInv hStep =>
      hInv.step rfl hStep.2) (hStart.invariant rfl)
  have hHead : (ch.inserted.map Prod.snd).head? =
      some (.ok [6]) := by
    rw [List.head?_map, hInserted]
    rfl
  rcases hOn with ⟨rest, hAll, hQueue⟩
  dsimp only at hAll hQueue
  cases returned with
  | cons bytes returned =>
      rw [hAll] at hHead
      cases hHead
      exact ⟨start, moves, _, hStart, hSession, hLength, rfl⟩
  | nil =>
      rw [hAll] at hHead
      cases rest with
      | nil => cases hHead
      | cons queued rest =>
          have hSixth : queued.2 = .ok [6] :=
            Option.some.inj hHead
          rcases hInv.shelved with ⟨conn, hConn, -⟩
          have hBefore : ch.receiver.inputQueue 1 =
              conn.inputQueue := by
            rw [Endpoint.inputQueue, hConn]
          rw [hBefore] at hQueue
          cases hConnQueue : conn.inputQueue with
          | nil =>
              rw [hConnQueue] at hQueue
              cases hQueue
          | cons entry queue =>
              rw [hConnQueue] at hQueue
              cases hQueue with
              | cons hFirst _ =>
                  rcases hFirst.read_ok hConn hConnQueue with
                    ⟨bytes, e', hRead, hOk⟩
                  cases hSixth.symm.trans hOk
                  have hFront : FitsBuffer 1 ch.receiver
                      (.receiver (.call (.read 1 entry.2))) := by
                    intro _ first hFirst
                    rw [hBefore, hConnQueue] at hFirst
                    cases hFirst
                    exact Int.le_refl _
                  have hMoves : Moves netPacketFormat
                      (reliably strategy) ch.receiver
                      (.call (.read 1 entry.2)) e' :=
                    .call (.read hRead)
                  have hStep := ChannelSteps.receiver (d := 1)
                    (c := 1) hMoves (by simp) (by
                      intro p e hProcesses
                      cases hProcesses)
                  have hReturns : (ChannelMove.receiver
                      (.call (.read 1 entry.2))).returns
                        netPacketFormat 1 ch.receiver =
                          [[6]] := by
                    rw [ChannelMove.returns, if_pos ⟨rfl, by
                      rw [hBefore, hConnQueue]
                      exact List.cons_ne_nil _ _⟩, hRead]
                  refine ⟨start, _, _, hStart, hSession.append
                    (.cons ⟨hReads ch _ hFront, .step hStep⟩
                      (.nil _)), hLength, ?_⟩
                  dsimp only
                  rw [hReturns]
                  rfl

/- Nothing waits on a connection where nothing arrived. -/
theorem fitsBuffer_of_blank
    {ch : Channel P}
    {m : StackMove P}
    {c : ConnPtr}
    {conn : Connection}
    (hConn : ch.receiver.conns c = some conn)
    (hView : conn.inorderView =
      blankConnection.inorderView) :
    FitsBuffer c ch.receiver (.receiver m) := by
  have hQueue : ch.receiver.inputQueue c = [] := by
    rw [Endpoint.inputQueue, hConn]
    exact congrArg InorderView.inputQueue hView
  unfold FitsBuffer
  split
  · rintro rfl entry hEntry
    rw [hQueue] at hEntry
    cases hEntry
  · trivial

theorem readsSent_of_run_late :
    ∃ s : Session PacketBuffer, s.channel.log.length = 2 ∧
      s.returned.head? = some [6] ∧ ReadsSent 1 s := by
  rcases @exists_lateRead (fun ch => FitsBuffer 1 ch.receiver)
      .holdForever (fun _ _ => trivial)
      (fun _ _ _ => fitsBuffer_of_blank)
      (fun _ _ hFits => hFits) (fun _ _ hFits => hFits) with
    ⟨start, moves, s, hStart, hRun, hLength, hRead⟩
  have hSent := readsSent_of_run rfl hStart hRun
  exact ⟨s, hLength, hRead, hSent⟩

/- The payload of a packet that arrived late is read. -/
theorem readsFromFirst_of_run_late :
    ∃ s : Session PacketBuffer, s.channel.log.length = 2 ∧
      s.returned.head? = some [6] ∧ ReadsFromFirst s := by
  have hReading : ∀ (ch : Channel PacketBuffer) maxLen,
      DrainsOwn netPacketFormat (reliably .holdForever) 1 ch
        (.receiver (.call (.read 1 maxLen))) := by
    intro ch maxLen p e conn run hNone
    cases hNone
  rcases @exists_lateRead (fun ch move =>
      DrainsOwn netPacketFormat (reliably .holdForever) 1 ch
          move ∧
        FitsBuffer 1 ch.receiver move)
      .holdForever (fun _ _ => ⟨trivial, trivial⟩)
      (fun _ _ _ hConn hView => ⟨drainsOwn_of_blank hConn
        hView, fitsBuffer_of_blank hConn hView⟩)
      (fun ch maxLen hFits => ⟨hReading ch maxLen, hFits⟩)
      (fun _ _ hBoth => hBoth.2) with
    ⟨start, moves, s, hStart, hRun, hLength, hRead⟩
  have hReads := readsFromFirst_of_run rfl rfl hStart hRun
    (by rw [hLength]; decide)
  exact ⟨s, hLength, hRead, hReads⟩

end NetBlocks
