import NetBlocks.Correctness.HostSteps

/-
  A host that only receives packets of known origin only
  transmits such packets, and hands only such data to its
  connections.

  Main declarations:
    * `Traceable`, `DataFor` and `HoldsData`
    * `HostInvariant`
    * `HostInvariant.moves`
-/

namespace NetBlocks

open Except TransitionSystem

variable {P : Type}

------------------------------------------------------------
-- Packets of Known Origin
------------------------------------------------------------

/-
  Packets that say the same are of the same origin, and one
  of known origin is as long as its headers.
-/
structure Traceable
    (fmt : PacketFormat P)
    (known : P → Prop) : Prop where
  congr : ∀ x y, known x → fmt.SamePacket x y → known y
  whole : ∀ x, known x → fmt.Whole x

/- A data packet of known origin, for a connection. -/
structure DataFor
    (fmt : PacketFormat P)
    (cfg : Config)
    (known : P → Prop)
    (localHostId : BitVec 64)
    (x : TableEntry)
    (y : P) : Prop where
  known : known y
  isFor : fmt.IsFor cfg localHostId x y
  data : cfg.reliableEnabled = true →
    fmt.getWord .ackSequenceNumber y = 0

/-
  The buffer at `q` holds one, for the connection that `x`
  describes.
-/
structure HoldsData
    (fmt : PacketFormat P)
    (cfg : Config)
    (known : P → Prop)
    (e : Endpoint P)
    (x : TableEntry)
    (q : PacketPtr) : Prop where
  old : q < e.nextPacket
  data : DataFor fmt cfg known e.myLocalHostId x (e.packets q)

/-
  Every packet a host keeps is of known origin: those it may
  send again, from buffers of its own, those it parked, and
  those it holds for a connection, where a queue entry is as
  long as the payload. So is every packet it handed out, at
  the length in its header.
-/
structure HostInvariant
    (fmt : PacketFormat P)
    (cfg : Config)
    (known : P → Prop)
    (own : PacketPtr → Prop)
    (e : Endpoint P) : Prop where
  hosts : HostsKept e
  table : TableInvariant e
  agrees : Agrees cfg e
  timers : TimersFor fmt cfg own e
  buffers : ∀ p, own p → p < e.nextPacket ∧
    known (e.packets p) ∧
    fmt.restoreTotalLen (e.packets p) = e.packets p
  parked : QueuedIn (fun p => p < e.nextPacket ∧ ¬ own p ∧
    known (e.packets p)) e
  shelved : ∀ c conn k q, e.conns c = some conn →
    conn.inorderView.slots cfg.inorderStrategy k = some q →
      HoldsData fmt cfg known e (conn.tableEntry c) q
  queued : ∀ c conn entry, e.conns c = some conn →
    entry ∈ conn.inputQueue →
      HoldsData fmt cfg known e (conn.tableEntry c) entry.1 ∧
        entry.2 = fmt.sentLen (e.packets entry.1) ∧
        entry.2 ≠ 0
  out : ∀ x size, (x, size) ∈ e.out →
    known x ∧ size = fmt.getWord .totalLen x

section Known

variable
    {fmt : PacketFormat P}
    {cfg : Config}
    {known known' : P → Prop}
    {own : PacketPtr → Prop}
    {e e' e₀ : Endpoint P}
    {c : ConnPtr}
    {p q : PacketPtr}
    {x : TableEntry}
    {move : StackMove P}

theorem DataFor.mono
    {y : P}
    {host : BitVec 64}
    (hLarger : ∀ y, known y → known' y)
    (hData : DataFor fmt cfg known host x y) :
    DataFor fmt cfg known' host x y :=
  ⟨hLarger _ hData.known, hData.isFor, hData.data⟩

theorem HoldsData.mono
    (hLarger : ∀ y, known y → known' y)
    (hHolds : HoldsData fmt cfg known e x q) :
    HoldsData fmt cfg known' e x q :=
  ⟨hHolds.old, hHolds.data.mono hLarger⟩

/- Steps that keep what packets say keep the data. -/
theorem HoldsData.congr
    (hTraceable : Traceable fmt known)
    (hNext : e.nextPacket ≤ e'.nextPacket)
    (hHost : e'.myLocalHostId = e.myLocalHostId)
    (hSame : fmt.SamePacket (e.packets q) (e'.packets q))
    (hHolds : HoldsData fmt cfg known e x q) :
    HoldsData fmt cfg known e' x q where
  old := Nat.lt_of_lt_of_le hHolds.old hNext
  data := by
    rw [hHost]
    refine ⟨hTraceable.congr _ _ hHolds.data.known hSame,
      hHolds.data.isFor.congr hSame, ?_⟩
    intro hReliable
    rw [hSame.getWord rfl (by decide)]
    exact hHolds.data.data hReliable

theorem HoldsData.moves
    (hTraceable : Traceable fmt known)
    (hMoves : Moves fmt cfg e move e')
    (hHolds : HoldsData fmt cfg known e x q) :
    HoldsData fmt cfg known e' x q :=
  hHolds.congr hTraceable hMoves.nextPacket_le
    hMoves.myLocalHostId_eq
    (hMoves.samePacket hHolds.old
      (hTraceable.whole _ hHolds.data.known))

/- More may become known of old packets. -/
theorem HostInvariant.mono
    (hLarger : ∀ y, known y → known' y)
    (hInv : HostInvariant fmt cfg known own e) :
    HostInvariant fmt cfg known' own e where
  hosts := hInv.hosts
  table := hInv.table
  agrees := hInv.agrees
  timers := hInv.timers
  buffers p hp := by
    rcases hInv.buffers p hp with ⟨hOld, hKnown, hRestored⟩
    exact ⟨hOld, hLarger _ hKnown, hRestored⟩
  parked := hInv.parked.mono (by
    rintro p ⟨hOld, hNot, hKnown⟩
    exact ⟨hOld, hNot, hLarger _ hKnown⟩)
  shelved c conn k q hConn hq :=
    (hInv.shelved c conn k q hConn hq).mono hLarger
  queued c conn entry hConn hEntry := by
    rcases hInv.queued c conn entry hConn hEntry with
      ⟨hHolds, hSize⟩
    exact ⟨hHolds.mono hLarger, hSize⟩
  out y size hOut := by
    rcases hInv.out y size hOut with ⟨hKnown, hSize⟩
    exact ⟨hLarger _ hKnown, hSize⟩

/- The table finds the connection a packet is for. -/
theorem isFor_of_lookup
    {y : P}
    (hAgrees : Agrees cfg e)
    (hHost : fmt.getInteger .dstHostId y = e.myLocalHostId)
    (hLookup : lookup fmt cfg e y = c)
    (hNe : c ≠ 0) :
    ∃ x, e.describe c = some x ∧
      fmt.IsFor cfg e.myLocalHostId x y := by
  rw [lookup, NetState.retrieveConnection_eq] at hLookup
  cases hFind : e.netState.entries.find?
      (TableEntry.matchesFlow cfg.flowIdentifier
        (fmt.getWord .dstAppId y) (fmt.getWord .srcAppId y)
        (fmt.getInteger .srcHostId y)) with
  | none =>
      rw [hFind] at hLookup
      exact absurd hLookup.symm hNe
  | some z =>
      rw [hFind] at hLookup
      change z.conn = c at hLookup
      have hMatch := List.find?_some hFind
      rcases hAgrees z (List.mem_of_find?_eq_some hFind) with
        ⟨x, hDescribe, hLocal, hSame⟩
      rw [hLookup] at hDescribe
      refine ⟨x, hDescribe, hHost, ?_, ?_⟩
      · rw [← hLocal]
        cases hFlow : cfg.flowIdentifier with
        | srcDstIdentifier =>
            rw [hFlow] at hMatch
            exact (TableEntry.matchesFlow_srcDst_iff.mp
              hMatch).1.symm
        | dstIdentifiersOnly =>
            rw [hFlow] at hMatch
            exact (TableEntry.matchesFlow_dst_iff.mp
              hMatch).symm
      · intro hFlow
        cases hSame hFlow
        rw [hFlow] at hMatch
        rcases TableEntry.matchesFlow_srcDst_iff.mp hMatch with
          ⟨-, hApp, hSource⟩
        exact ⟨hApp.symm, hSource.symm⟩

/- What a check keeps, as the checked packet says it. -/
theorem isFor_of_checked
    {y z : P}
    {passes : Bool}
    {toHost : BitVec 64}
    (hWhole : fmt.Whole z)
    (hCheck : checkPacket fmt cfg z = .ok (y, passes))
    (hFor : fmt.IsFor cfg toHost x y) :
    fmt.IsFor cfg toHost x z := by
  have hSame := PacketFormat.SamePacket.checked hWhole hCheck
  refine ⟨?_, ?_, ?_⟩
  · rw [← hSame.get _ rfl (by decide)]
    exact hFor.dstHost
  · rw [← hSame.getWord rfl (by decide)]
    exact hFor.dstApp
  · rw [← hSame.getWord rfl (by decide),
      ← hSame.get _ rfl (by decide)]
    exact hFor.source

/- Data reaches the connection that it is for. -/
theorem dataFor_of_dataReceiver
    (hTraceable : Traceable fmt known)
    (hKnown : known (e.packets p))
    (hAgrees : Agrees cfg e)
    (hReceiver : dataReceiver fmt cfg p e = some c) :
    ∃ x, e.describe c = some x ∧
      DataFor fmt cfg known e.myLocalHostId x
        (e.packets p) := by
  have hWhole := hTraceable.whole _ hKnown
  rcases dataReceiver_eq_some_iff.mp hReceiver with
    ⟨y, hCheck, hHost, hLookup, hNe, hAck⟩
  rcases isFor_of_lookup hAgrees hHost hLookup hNe with
    ⟨x, hDescribe, hFor⟩
  refine ⟨x, hDescribe, hKnown,
    isFor_of_checked hWhole hCheck hFor, ?_⟩
  intro hReliable
  rw [← (PacketFormat.SamePacket.checked hWhole hCheck
    ).getWord rfl (by decide)]
  exact hAck hReliable

theorem ackReceiver_eq_some_iff :
    ackReceiver fmt cfg p e = some c ↔
      ∃ y, checkPacket fmt cfg (e.packets p) =
          .ok (y, true) ∧
        fmt.getInteger .dstHostId y = e.myLocalHostId ∧
        lookup fmt cfg e y = c ∧ c ≠ 0 ∧
        cfg.reliableEnabled = true ∧
        fmt.getWord .ackSequenceNumber y ≠ 0 := by
  unfold ackReceiver
  cases hCheck : checkPacket fmt cfg (e.packets p) with
  | error fault => simp
  | ok result =>
      rcases result with ⟨y, passes⟩
      cases passes with
      | false => simp
      | true =>
          dsimp only
          constructor
          · intro hReceiver
            split at hReceiver
            · next hAll =>
                cases hReceiver
                exact ⟨y, rfl, hAll.1, rfl, hAll.2.1,
                  hAll.2.2⟩
            · cases hReceiver
          · rintro ⟨z, hz, hHost, rfl, hNe, hAck⟩
            cases hz
            rw [if_pos ⟨hHost, hNe, hAck⟩]

/- So do acks. -/
theorem isFor_of_ackReceiver
    (hAgrees : Agrees cfg e)
    (hWhole : fmt.Whole (e.packets p))
    (hReceiver : ackReceiver fmt cfg p e = some c) :
    ∃ x, e.describe c = some x ∧
      fmt.IsFor cfg e.myLocalHostId x (e.packets p) ∧
      cfg.reliableEnabled = true ∧
      fmt.getWord .ackSequenceNumber (e.packets p) ≠ 0 := by
  rcases ackReceiver_eq_some_iff.mp hReceiver with
    ⟨y, hCheck, hHost, hLookup, hNe, hReliable, hAck⟩
  rcases isFor_of_lookup hAgrees hHost hLookup hNe with
    ⟨x, hDescribe, hFor⟩
  refine ⟨x, hDescribe, isFor_of_checked hWhole hCheck hFor,
    hReliable, ?_⟩
  rw [← (PacketFormat.SamePacket.checked hWhole hCheck
    ).getWord rfl (by decide)]
  exact hAck

end Known

------------------------------------------------------------
-- What a Connection Holds After a Step
------------------------------------------------------------

/-
  The packet at `q` is one a step may deliver to the
  connection at `c`: it is shelved there, or is the one that
  is processed, and data for it.
-/
def Comes
    (fmt : PacketFormat P)
    (cfg : Config)
    (e : Endpoint P)
    (move : StackMove P)
    (c : ConnPtr)
    (conn : Connection)
    (q : PacketPtr) : Prop :=
  (∃ k, conn.inorderView.slots cfg.inorderStrategy k =
      some q) ∨
    ∃ e₀, move.processes e = some (q, e₀) ∧
      dataReceiver fmt cfg q e₀ = some c

/- What is shelved and queued then was there, or comes. -/
structure HeldAfter
    (fmt : PacketFormat P)
    (cfg : Config)
    (e e' : Endpoint P)
    (move : StackMove P)
    (c : ConnPtr)
    (conn conn' : Connection) : Prop where
  shelved : ∀ k q,
    conn'.inorderView.slots cfg.inorderStrategy k = some q →
      Comes fmt cfg e move c conn q
  queued : ∀ entry ∈ conn'.inputQueue,
    entry ∈ conn.inputQueue ∨
      Comes fmt cfg e move c conn entry.1 ∧
        entry.2 = fmt.sentLen (e'.packets entry.1) ∧
        entry.2 ≠ 0

section Held

variable
    {fmt : PacketFormat P}
    {cfg : Config}
    {known : P → Prop}
    {own : PacketPtr → Prop}
    {e e' e₀ : Endpoint P}
    {c : ConnPtr}
    {p q : PacketPtr}
    {conn conn' : Connection}
    {move : StackMove P}

/- A step that places nothing at most takes from the queue. -/
theorem HeldAfter.of_view
    (hView : conn'.inorderView = { conn.inorderView with
      inputQueue := conn'.inputQueue })
    (hQueue : ∀ entry ∈ conn'.inputQueue,
      entry ∈ conn.inputQueue) :
    HeldAfter fmt cfg e e' move c conn conn' where
  shelved k q hq := by
    rw [hView, slots_withQueue] at hq
    exact Or.inl ⟨k, hq⟩
  queued entry hEntry := Or.inl (hQueue entry hEntry)

/- A packet that is processed is placed, if it is data. -/
theorem IngressResult.heldAfter
    (hIngress : IngressResult fmt cfg p e₀ e')
    (hProcesses : move.processes e = some (p, e₀))
    (hOld : p < e₀.nextPacket)
    (hWhole : fmt.Whole (e₀.packets p))
    (hConn : e₀.conns c = some conn)
    (hConn' : e'.conns c = some conn') :
    HeldAfter fmt cfg e e' move c conn conn' := by
  by_cases hReceiver : dataReceiver fmt cfg p e₀ = some c
  · rcases hIngress.places hOld hWhole hReceiver with
      ⟨conn₁, conn₂, status, w, taken, hConn₁, hConn₂, hPlace,
        hView, hQueue⟩
    cases hConn.symm.trans hConn₁
    cases hConn'.symm.trans hConn₂
    have hComes : ∀ q ∈ arrivedPackets status p taken,
        Comes fmt cfg e move c conn q := by
      intro q hq
      rcases mem_arrivedPackets hPlace hq with rfl | hSlot
      · exact Or.inr ⟨e₀, hProcesses, hReceiver⟩
      · exact Or.inl hSlot
    refine ⟨?_, ?_⟩
    · intro k q hq
      rw [hView, slots_withQueue] at hq
      rcases (place_slots hPlace).1 k q hq with rfl | hSlot
      · exact Or.inr ⟨e₀, hProcesses, hReceiver⟩
      · exact Or.inl ⟨k, hSlot⟩
    · intro entry hEntry
      rw [hQueue] at hEntry
      rcases List.mem_append.mp hEntry with hBefore | hNew
      · exact Or.inl hBefore
      · rcases mem_payloads_iff.mp hNew with ⟨hMem, hSize⟩
        exact Or.inr ⟨hComes _ hMem, hSize⟩
  · rcases hIngress.notData hReceiver hConn with
      ⟨conn₁, hConn₁, hView⟩
    cases hConn'.symm.trans hConn₁
    have hQueue : conn'.inputQueue = conn.inputQueue :=
      congrArg InorderView.inputQueue hView
    apply HeldAfter.of_view
    · rw [hView, hQueue]
      rfl
    · rw [hQueue]
      exact fun _ hEntry => hEntry

/- What any step leaves with a connection that was open -/
theorem Moves.heldAfter
    (hMoves : Moves fmt cfg e move e')
    (hWhole : ∀ p e₀, move.processes e = some (p, e₀) →
      fmt.Whole (e₀.packets p))
    (hOpen : move ≠ .call (.destablish c))
    (hConn : e.conns c = some conn)
    (hConn' : e'.conns c = some conn') :
    HeldAfter fmt cfg e e' move c conn conn' := by
  cases hProcesses : move.processes e with
  | some processed =>
      rcases processed with ⟨p, e₀⟩
      rcases hMoves.processed hProcesses with
        ⟨hOld, hIngress, -, hConns, -, -⟩
      rw [← hConns] at hConn
      exact hIngress.heldAfter hProcesses hOld
        (hWhole p e₀ hProcesses) hConn hConn'
  | none =>
      rcases hMoves.notProcessing hProcesses hOpen hConn with
        ⟨conn₁, hConn₁, hView, hQueue⟩
      cases hConn'.symm.trans hConn₁
      apply HeldAfter.of_view hView
      intro entry hEntry
      rcases hQueue with hSame | ⟨maxLen, bytes, -, hRead⟩
      · rw [← hSame]
        exact hEntry
      · rcases nbRead_queue hConn hConn' hRead with
          ⟨-, -, hNone⟩ | ⟨p, size, hQueue, -⟩
        · rw [hNone] at hEntry
          cases hEntry
        · rw [hQueue]
          exact List.mem_cons_of_mem _ hEntry

------------------------------------------------------------
-- Keeping the Invariant
------------------------------------------------------------

/- What comes to a connection is data of known origin. -/
theorem HostInvariant.comes
    (hTraceable : Traceable fmt known)
    (hInv : HostInvariant fmt cfg known own e)
    (hReceives : ∀ p e₀, move.processes e = some (p, e₀) →
      known (e₀.packets p) ∧ ¬ own p)
    (hMoves : Moves fmt cfg e move e')
    (hConn : e.conns c = some conn)
    (hComes : Comes fmt cfg e move c conn q) :
    HoldsData fmt cfg known e' (conn.tableEntry c) q := by
  rcases hComes with ⟨k, hSlot⟩ | ⟨e₀, hProcesses, hReceiver⟩
  · exact (hInv.shelved c conn k q hConn hSlot).moves
      hTraceable hMoves
  · rcases hMoves.processed hProcesses with
      ⟨hOld, hIngress, -, hConns, hTable, -⟩
    have hKnown := (hReceives q e₀ hProcesses).1
    rcases dataFor_of_dataReceiver hTraceable hKnown
        (hTable.agrees hInv.agrees) hReceiver with
      ⟨x, hDescribe, hData⟩
    rw [Endpoint.describe, hConns, hConn] at hDescribe
    cases hDescribe
    have hHolds : HoldsData fmt cfg known e₀
        (conn.tableEntry c) q := ⟨hOld, hData⟩
    exact hHolds.congr hTraceable hIngress.nextPacket_le
      hIngress.sameHosts.localHost
      (hIngress.samePacket hOld (hTraceable.whole _ hKnown))

/- Packets that timers fire for are the host's own. -/
theorem own_of_fired
    (hTimers : TimersFor fmt cfg own e)
    (hFired : p ∈ firedPackets e) :
    own p := by
  cases hOn : cfg.reliableEnabled with
  | false =>
      rw [firedPackets, checkCalls, hTimers.off hOn] at hFired
      cases hFired
  | true =>
      rcases hTimers.timed hOn with
        ⟨active, free, hSlots, hArmed⟩
      rcases startedFor_active hSlots.pool hFired with
        ⟨t, hT, rfl⟩
      exact hArmed t hT

/- The host's own buffers stay as they were filled. -/
theorem HostInvariant.buffers_eq
    (hInv : HostInvariant fmt cfg known own e)
    (hReceives : ∀ p e₀, move.processes e = some (p, e₀) →
      known (e₀.packets p) ∧ ¬ own p)
    (hMoves : Moves fmt cfg e move e')
    (hOwn : own p) :
    e'.packets p = e.packets p := by
  rcases hInv.buffers p hOwn with ⟨hOld, -, hRestored⟩
  cases hProcesses : move.processes e with
  | none => exact hMoves.packets_eq hProcesses hOld
  | some processed =>
      rcases processed with ⟨p₀, e₀⟩
      rcases hMoves.processed hProcesses with
        ⟨-, hIngress, hNext, -, -, hPackets⟩
      have hNe : p ≠ p₀ := by
        rintro rfl
        exact (hReceives p e₀ hProcesses).2 hOwn
      rw [← hPackets p hOld] at hRestored ⊢
      exact hIngress.packets_eq_of_restored hNe
        (Nat.lt_of_lt_of_le hOld hNext) hRestored

/-
  A step keeps the invariant, if the packets it sends are of
  known origin by then.
-/
theorem HostInvariant.moves
    (hTraceable : Traceable fmt known)
    (hInv : HostInvariant fmt cfg known own e)
    (hKeeps : KeepsEntries cfg e move)
    (hReceives : ∀ p e₀, move.processes e = some (p, e₀) →
      known (e₀.packets p) ∧ ¬ own p)
    (hPosts : ∀ c bytes conn y, move.posts = some (c, bytes) →
      e'.conns c = some conn → y ∈ handedOut e e' →
      fmt.IsPost cfg e.myLocalHostId
        ⟨conn.tableEntry c, conn.lastSentSequence, bytes⟩ y →
        known y)
    (hAcks : ∀ p e₀ c conn y,
      move.processes e = some (p, e₀) →
      dataReceiver fmt cfg p e₀ = some c →
      e₀.conns c = some conn →
      fmt.IsAck cfg e.myLocalHostId ⟨conn.tableEntry c,
        fmt.getWord .sequenceNumber (e₀.packets p)⟩ y →
        known y)
    (hMoves : Moves fmt cfg e move e') :
    HostInvariant fmt cfg known (ownAfter own e e' move)
      e' := by
  have hWhole : ∀ p e₀, move.processes e = some (p, e₀) →
      fmt.Whole (e₀.packets p) := by
    intro p e₀ hProcesses
    exact hTraceable.whole _ (hReceives p e₀ hProcesses).1
  have hTransmits := hMoves.transmits hInv.hosts hWhole
  have hNext := hMoves.nextPacket_le
  refine ⟨hMoves.hostsKept hInv.hosts,
    hMoves.tableInvariant hInv.table hKeeps,
    hMoves.agrees hInv.table hInv.agrees hKeeps,
    hMoves.timersFor hInv.hosts hInv.timers
      (fun p e₀ hProcesses => (hReceives p e₀ hProcesses).2),
    ?_, ?_, ?_, ?_, ?_⟩
  -- own buffers
  · rintro p (hOwn | ⟨hNone, hGe, hLt⟩)
    · rw [hInv.buffers_eq hReceives hMoves hOwn]
      rcases hInv.buffers p hOwn with ⟨hOld, hRest⟩
      exact ⟨Nat.lt_of_lt_of_le hOld hNext, hRest⟩
    · cases hTransmits with
      | nothing _ hSame =>
          rw [hSame hNone] at hLt
          exact absurd hLt (Nat.not_lt.mpr hGe)
      | @post _ _ c bytes conn y hPost _ hConn' hIsPost
          hRestored hOut hPacket hSucc =>
          rw [hSucc] at hLt ⊢
          have hEq : p = e.nextPacket :=
            Nat.le_antisymm (Nat.le_of_lt_succ hLt) hGe
          have hMem : y ∈ handedOut e e' := by
            rw [handedOut_of_append hOut]
            exact List.mem_singleton_self y
          rw [hEq, hPacket]
          exact ⟨Nat.lt_succ_self e.nextPacket,
            hPosts c bytes conn y hPost hConn' hMem hIsPost,
            hRestored⟩
      | ack hProcesses => cases hNone.symm.trans hProcesses
      | fires _ hSame =>
          rw [hSame] at hLt
          exact absurd hLt (Nat.not_lt.mpr hGe)
  -- parked packets
  · have hKept : QueuedIn (fun p => p < e'.nextPacket ∧
        ¬ ownAfter own e e' move p ∧ known (e'.packets p))
        e := by
      refine hInv.parked.mono ?_
      rintro p ⟨hOld, hNot, hKnown⟩
      refine ⟨Nat.lt_of_lt_of_le hOld hNext, ?_, ?_⟩
      · rintro (hOwn | ⟨-, hGe, -⟩)
        · exact hNot hOwn
        · exact absurd hOld (Nat.not_lt.mpr hGe)
      · exact hTraceable.congr _ _ hKnown
          (hMoves.samePacket hOld (hTraceable.whole _ hKnown))
    apply hMoves.queuedIn hKept
    intro p e₀ hProcesses
    rcases hMoves.processed hProcesses with
      ⟨hOld, hIngress, -, -, -, -⟩
    rcases hReceives p e₀ hProcesses with ⟨hKnown, hNot⟩
    refine ⟨Nat.lt_of_lt_of_le hOld hIngress.nextPacket_le,
      ?_, ?_⟩
    · rintro (hOwn | ⟨hNone, -⟩)
      · exact hNot hOwn
      · cases hNone.symm.trans hProcesses
    · exact hTraceable.congr _ _ hKnown (hIngress.samePacket
        hOld (hTraceable.whole _ hKnown))
  -- shelved packets
  · intro c conn' k q hConn' hq
    rcases hMoves.conn_cases hConn' with
      ⟨conn, hConn, hOpen, hEntry⟩ | ⟨hNone, -⟩
    · rw [hEntry]
      exact hInv.comes hTraceable hReceives hMoves hConn
        ((hMoves.heldAfter hWhole hOpen hConn hConn').shelved
          k q hq)
    · rw [hNone k] at hq
      cases hq
  -- queued payloads
  · intro c conn' entry hConn' hMem
    rcases hMoves.conn_cases hConn' with
      ⟨conn, hConn, hOpen, hEntry⟩ | ⟨-, hNone⟩
    · rw [hEntry]
      rcases (hMoves.heldAfter hWhole hOpen hConn hConn'
          ).queued entry hMem with hBefore | ⟨hComes, hSize⟩
      · rcases hInv.queued c conn entry hConn hBefore with
          ⟨hHolds, hLen, hNe⟩
        have hSame := hMoves.samePacket hHolds.old
          (hTraceable.whole _ hHolds.data.known)
        rw [← hSame.sentLen] at hLen
        exact ⟨hHolds.moves hTraceable hMoves, hLen, hNe⟩
      · exact ⟨hInv.comes hTraceable hReceives hMoves hConn
          hComes, hSize⟩
    · rw [hNone] at hMem
      cases hMem
  -- packets that were handed out
  · have hAdded : ∀ sent, e'.out = e.out ++ sent →
        (∀ x size, (x, size) ∈ sent →
          known x ∧ size = fmt.getWord .totalLen x) →
        ∀ x size, (x, size) ∈ e'.out →
          known x ∧ size = fmt.getWord .totalLen x := by
      intro sent hOut hSent x size hMem
      rw [hOut] at hMem
      rcases List.mem_append.mp hMem with hMem | hMem
      · exact hInv.out x size hMem
      · exact hSent x size hMem
    cases hTransmits with
    | nothing hOut _ =>
        rw [hOut]
        exact hInv.out
    | @post _ _ c bytes conn y hPost _ hConn' hIsPost _ hOut =>
        have hMem : y ∈ handedOut e e' := by
          rw [handedOut_of_append hOut]
          exact List.mem_singleton_self y
        apply hAdded _ hOut
        intro z size hz
        cases List.mem_singleton.mp hz
        exact ⟨hPosts c bytes conn y hPost hConn' hMem hIsPost,
          rfl⟩
    | @ack _ _ e₀ p c conn y hProcesses hReceiver hConn hIsAck
        hOut =>
        apply hAdded _ hOut
        intro z size hz
        cases List.mem_singleton.mp hz
        exact ⟨hAcks p e₀ c conn y hProcesses hReceiver hConn
          hIsAck, rfl⟩
    | fires hOut _ =>
        apply hAdded _ hOut
        intro x size hx
        rcases List.mem_map.mp hx with ⟨p, hFired, hEq⟩
        rcases hInv.buffers p (own_of_fired hInv.timers hFired)
          with ⟨-, hKnown, hRestored⟩
        cases hEq
        refine ⟨hKnown, ?_⟩
        rw [← PacketFormat.getWord_restoreTotalLen, hRestored]

end Held

end NetBlocks
