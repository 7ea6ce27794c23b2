import NetBlocks.Core.Replay
import NetBlocks.Correctness.AcceptQueues
import NetBlocks.Correctness.Listener
import NetBlocks.Correctness.Stores

/-
  `nb__accept` and the packets of the accepted peer: which of
  them are processed again, for which connection, and which
  entries stay in the queue.

  Main declarations:
    * `nbAcceptLogged`
    * `acceptLoopLogged_iff`
    * `QueuesApart`
    * `Accounts` and `Acceptable`
    * `accounts_iff_of_run`
-/

namespace NetBlocks

open Except TransitionSystem SwapRemoval

variable {P : Type}

------------------------------------------------------------
-- A Log of Replays
------------------------------------------------------------

/-
  The packets run through the ingress path again, in order,
  with the connections they were handed to.
-/
abbrev ReplayLog := List (PacketPtr × Option ConnPtr)

/- The entry of a peer. -/
def AcceptEntry.isOf
    (srcAppId : BitVec 32)
    (srcHostId : BitVec 64)
    (entry : AcceptEntry) : Bool :=
  entry.srcAppId = srcAppId ∧ entry.srcHostId = srcHostId

/- `acceptLoop`, with a log. -/
def acceptLoopLogged
    (fmt : PacketFormat P)
    (cfg : Config)
    (c : ConnPtr)
    (srcAppId : BitVec 32)
    (srcHostId : BitVec 64) :
    Nat → Nat → Endpoint P →
      Except Fault (ReplayLog × Endpoint P)
| 0, _, _ => .error .diverges
| fuel + 1, i, e => do
    let conn ← e.loadConn c
    match conn.acceptQueue[i]? with
    | none => return ([], e)
    | some entry =>
        if entry.isOf srcAppId srcHostId then
          let handed := receiver fmt cfg entry.packet e
          let e ← nbRunIngressStep fmt cfg entry.packet 0 e
          let conn ← e.loadConn c
          let (log, e) ← acceptLoopLogged fmt cfg c srcAppId
            srcHostId fuel i (dequeueAt c i conn e)
          return ((entry.packet, handed) :: log, e)
        else
          acceptLoopLogged fmt cfg c srcAppId srcHostId fuel
            (i + 1) e

/- `nbAccept`, with a log. -/
def nbAcceptLogged
    (fmt : PacketFormat P)
    (cfg : Config)
    (c : ConnPtr)
    (s : ConnPtr)
    (fresh : Connection)
    (fuel : Nat)
    (e : Endpoint P) :
    Except Fault (ConnPtr × ReplayLog × Endpoint P) := do
  let conn ← e.loadConn c
  match conn.acceptQueue.getLast? with
  | none => return (0, [], e)
  | some entry =>
      let e := e.modifyConn c (fun conn =>
        { conn with acceptQueue := conn.acceptQueue.dropLast })
      let e ← nbEstablish fmt cfg s fresh
        (entry.srcHostId.setWidth 32) entry.srcAppId
        conn.localAppId e
      let e := e.modifyConn s (fun conn =>
        { conn with signalingState := .signaled })
      let handed := receiver fmt cfg entry.packet e
      let e ← nbRunIngressStep fmt cfg entry.packet 0 e
      let (log, e) ← acceptLoopLogged fmt cfg c
        entry.srcAppId entry.srcHostId fuel 0 e
      return (s, (entry.packet, handed) :: log, e)

section Erasure

variable
    {fmt : PacketFormat P}
    {cfg : Config}
    {c s : ConnPtr}
    {fresh : Connection}
    {fuel : Nat}

/- The log is only written. -/
theorem acceptLoopLogged_erase
    (srcAppId : BitVec 32)
    (srcHostId : BitVec 64)
    (i : Nat)
    (e : Endpoint P) :
    (acceptLoopLogged fmt cfg c srcAppId srcHostId fuel i
      e).map Prod.snd =
        acceptLoop fmt cfg c srcAppId srcHostId fuel i e := by
  induction fuel generalizing i e with
  | zero => rfl
  | succ fuel ih =>
      rw [acceptLoopLogged, acceptLoop]
      cases e.loadConn c with
      | error fault => rfl
      | ok conn =>
          simp only [ok_bind]
          cases conn.acceptQueue[i]? with
          | none => rfl
          | some entry =>
              dsimp only
              by_cases hPeer : entry.srcAppId = srcAppId ∧
                  entry.srcHostId = srcHostId
              · rw [if_pos (by
                  simpa [AcceptEntry.isOf] using hPeer),
                  if_pos hPeer]
                cases nbRunIngressStep fmt cfg entry.packet 0
                  e with
                | error fault => rfl
                | ok e₁ =>
                    simp only [ok_bind]
                    cases hLoad : e₁.loadConn c with
                    | error fault => rfl
                    | ok conn₁ =>
                        simp only [ok_bind]
                        refine Eq.trans ?_
                          (ih i (dequeueAt c i conn₁ e₁))
                        cases acceptLoopLogged fmt cfg c
                          srcAppId srcHostId fuel i
                          (dequeueAt c i conn₁ e₁) <;> rfl
              · rw [if_neg (by
                  simpa [AcceptEntry.isOf] using hPeer),
                  if_neg hPeer]
                exact ih (i + 1) e

theorem nbAcceptLogged_erase
    (e : Endpoint P) :
    (nbAcceptLogged fmt cfg c s fresh fuel e).map
        (fun (s, _, e) => (s, e)) =
      nbAccept fmt cfg c s fresh fuel e := by
  unfold nbAcceptLogged nbAccept
  cases e.loadConn c with
  | error fault => rfl
  | ok conn =>
      simp only [ok_bind]
      cases conn.acceptQueue.getLast? with
      | none => rfl
      | some entry =>
          dsimp only
          cases nbEstablish fmt cfg s fresh
            (entry.srcHostId.setWidth 32) entry.srcAppId
            conn.localAppId _ with
          | error fault => rfl
          | ok e₁ =>
              simp only [ok_bind]
              cases nbRunIngressStep fmt cfg entry.packet 0 _
                with
              | error fault => rfl
              | ok e₂ =>
                  simp only [ok_bind]
                  rw [← acceptLoopLogged_erase]
                  cases acceptLoopLogged fmt cfg c
                    entry.srcAppId entry.srcHostId fuel 0 e₂
                    <;> rfl

end Erasure

------------------------------------------------------------
-- The Loop as a Sweep
------------------------------------------------------------

/- The log when all packets are handed to one connection. -/
def handedAll
    (s : ConnPtr)
    (entries : List AcceptEntry) : ReplayLog :=
  entries.map (fun entry => (entry.packet, some s))

section Loop

variable
    {fmt : PacketFormat P}
    {cfg : Config}
    {c s : ConnPtr}
    {conn : Connection}
    {srcAppId : BitVec 32}
    {srcHostId : BitVec 64}
    {fuel i : Nat}
    {e e' : Endpoint P}
    {log : ReplayLog}

theorem Replays.conns_of_ne
    {p : PacketPtr}
    (hNe : s ≠ c)
    (hReplays : Replays fmt cfg s e p e') :
    e'.conns c = e.conns c := by
  rcases hReplays.delivers with ⟨conn₁, conn₂, hDelivers⟩
  rw [hDelivers.conns]
  exact Function.update_of_ne (Ne.symm hNe) _ _

theorem Replays.nextPacket_le
    {p : PacketPtr}
    (hReplays : Replays fmt cfg s e p e') :
    e.nextPacket ≤ e'.nextPacket := by
  rcases hReplays.delivers with ⟨conn₁, conn₂, hDelivers⟩
  exact hDelivers.next

/-
  If all packets go to the connection at `s`, the loop hands
  it those of the peer, in the order of a sweep, and takes
  their entries out of the queue.
-/
theorem acceptLoopLogged_sweep
    (hNe : s ≠ c)
    (hConn : e.conns c = some conn)
    (hOld : ∀ x ∈ conn.acceptQueue, x.packet < e.nextPacket)
    (hLoop : acceptLoopLogged fmt cfg c srcAppId srcHostId
      fuel i e = .ok (log, e'))
    (hAll : ∀ entry ∈ log, entry.2 = some s) :
    conn.acceptQueue.length < fuel + i ∧
      ∃ e₁, Run (Replays fmt cfg s) e
          ((sweep (AcceptEntry.isOf srcAppId srcHostId) fuel i
            conn.acceptQueue).1.map AcceptEntry.packet) e₁ ∧
        log = handedAll s (sweep (AcceptEntry.isOf srcAppId
          srcHostId) fuel i conn.acceptQueue).1 ∧
        e' = e₁.setConn c (conn.withAcceptQueue
          (sweep (AcceptEntry.isOf srcAppId srcHostId) fuel i
            conn.acceptQueue).2) := by
  induction fuel generalizing i e conn log with
  | zero => cases hLoop
  | succ fuel ih =>
      rw [acceptLoopLogged, Endpoint.loadConn_of_some hConn,
        ok_bind] at hLoop
      cases hEntry : conn.acceptQueue[i]? with
      | none =>
          rw [hEntry] at hLoop
          cases hLoop
          have hEnd := List.getElem?_eq_none_iff.mp hEntry
          rw [sweep_none hEntry]
          refine ⟨by omega, e', .nil _, rfl, ?_⟩
          exact (Endpoint.setConn_self hConn).symm
      | some entry =>
          rw [hEntry] at hLoop
          dsimp only at hLoop
          have hLt : i < conn.acceptQueue.length :=
            (List.getElem?_eq_some_iff.mp hEntry).1
          cases hPeer : entry.isOf srcAppId srcHostId with
          | true =>
              rw [if_pos hPeer] at hLoop
              rcases bind_eq_ok_iff.mp hLoop with
                ⟨e₁, hIngress, hLoop⟩
              rcases bind_eq_ok_iff.mp hLoop with
                ⟨conn₁, hLoad₁, hLoop⟩
              rcases bind_eq_ok_iff.mp hLoop with
                ⟨⟨log₁, e₂⟩, hRest, hEnd⟩
              cases hEnd
              have hReplays : Replays fmt cfg s e
                  entry.packet e₁ :=
                ⟨hOld entry (List.mem_of_getElem? hEntry),
                  hAll _ List.mem_cons_self, hIngress⟩
              have hConn₁ : e₁.conns c = some conn := by
                rw [hReplays.conns_of_ne hNe, hConn]
              cases (Endpoint.loadConn_eq_ok_iff.mp
                hLoad₁).symm.trans hConn₁
              rw [dequeueAt_eq hConn₁] at hRest
              let removed := conn.withAcceptQueue
                (removeAt conn.acceptQueue i)
              have hPerm := removeAt_perm hEntry
              have hOld₁ : ∀ x ∈ removed.acceptQueue,
                  x.packet < e₁.nextPacket := by
                intro x hx
                have hMem := hPerm.subset
                  (List.mem_cons_of_mem entry hx)
                exact Nat.lt_of_lt_of_le (hOld x hMem)
                  hReplays.nextPacket_le
              rcases ih (Endpoint.setConn_conns_self e₁ c
                removed) hOld₁ hRest (fun x hx => hAll x
                  (List.mem_cons_of_mem _ hx)) with
                ⟨hFuel, e₃, hRun, hLog, hEnd⟩
              have hLength := length_removeAt hLt
              -- undo the removal, which no packet looks at
              have hUndone := setConn_of_replays hNe conn hRun
              rw [Endpoint.setConn_setConn,
                Endpoint.setConn_self hConn₁] at hUndone
              rw [sweep_takes hEntry hPeer]
              refine ⟨?_, e₃.setConn c conn,
                .cons hReplays hUndone, ?_, ?_⟩
              · change (removeAt conn.acceptQueue i).length <
                  _ at hFuel
                omega
              · rw [hLog]
                exact congrArg₂ List.cons
                  (Prod.ext rfl hReplays.receiver) rfl
              · rw [hEnd, Endpoint.setConn_setConn]
                rfl
          | false =>
              rw [if_neg (by simp [hPeer])] at hLoop
              rcases ih hConn hOld hLoop hAll with
                ⟨hFuel, hRest⟩
              rw [sweep_leaves hEntry hPeer]
              exact ⟨by omega, hRest⟩

/- And it ends, if these packets can be processed. -/
theorem acceptLoopLogged_of_replays
    (hNe : s ≠ c)
    (hConn : e.conns c = some conn)
    (hIndex : i ≤ conn.acceptQueue.length)
    (hFuel : conn.acceptQueue.length < fuel + i)
    (hRun : Run (Replays fmt cfg s) e
      ((sweep (AcceptEntry.isOf srcAppId srcHostId) fuel i
        conn.acceptQueue).1.map AcceptEntry.packet) e') :
    acceptLoopLogged fmt cfg c srcAppId srcHostId fuel i e =
      .ok (handedAll s (sweep (AcceptEntry.isOf srcAppId
          srcHostId) fuel i conn.acceptQueue).1,
        e'.setConn c (conn.withAcceptQueue
          (sweep (AcceptEntry.isOf srcAppId srcHostId) fuel i
            conn.acceptQueue).2)) := by
  induction fuel generalizing i e e' conn with
  | zero => omega
  | succ fuel ih =>
      rw [acceptLoopLogged, Endpoint.loadConn_of_some hConn,
        ok_bind]
      cases hEntry : conn.acceptQueue[i]? with
      | none =>
          rw [sweep_none hEntry] at hRun ⊢
          cases hRun
          dsimp only
          rw [Connection.withAcceptQueue,
            Endpoint.setConn_self hConn]
          rfl
      | some entry =>
          dsimp only
          have hLt : i < conn.acceptQueue.length :=
            (List.getElem?_eq_some_iff.mp hEntry).1
          cases hPeer : entry.isOf srcAppId srcHostId with
          | true =>
              rw [sweep_takes hEntry hPeer] at hRun ⊢
              rcases hRun with _ | ⟨hReplays, hRun⟩
              rename_i e₁
              have hConn₁ : e₁.conns c = some conn := by
                rw [hReplays.conns_of_ne hNe, hConn]
              let removed := conn.withAcceptQueue
                (removeAt conn.acceptQueue i)
              have hLength := length_removeAt hLt
              have hRest := ih
                (Endpoint.setConn_conns_self e₁ c removed)
                (by change i ≤ (removeAt _ i).length; omega)
                (by change (removeAt _ i).length < _; omega)
                (setConn_of_replays hNe removed hRun)
              have hIngress : nbRunIngressStep fmt cfg
                  entry.packet 0 e = .ok e₁ :=
                hReplays.ingress
              rw [if_pos rfl, hIngress, ok_bind,
                Endpoint.loadConn_of_some hConn₁, ok_bind,
                dequeueAt_eq hConn₁, hRest, ok_bind,
                hReplays.receiver, Endpoint.setConn_setConn]
              rfl
          | false =>
              rw [sweep_leaves hEntry hPeer] at hRun ⊢
              rw [if_neg (by simp)]
              exact ih hConn (by omega) (by omega) hRun

end Loop

------------------------------------------------------------
-- Runs of Replays
------------------------------------------------------------

/-
  What processing a list of packets for one connection leaves
  of the endpoint it began in: only that connection and these
  packets are worked on, and it holds no other ones.
-/
structure Replayed
    (cfg : Config)
    (s : ConnPtr)
    (e : Endpoint P)
    (seen : List PacketPtr)
    (e' : Endpoint P) : Prop where
  netState : e'.netState = e.netState
  host : e'.myLocalHostId = e.myLocalHostId
  events : e'.events = e.events
  next : e.nextPacket ≤ e'.nextPacket
  others : ∀ d, d ≠ s → e'.conns d = e.conns d
  packets : ∀ q, q < e.nextPacket → q ∉ seen →
    e'.packets q = e.packets q
  old : ∀ q ∈ seen, q < e.nextPacket
  opened : ∃ conn, e'.conns s = some conn ∧
    (∀ k q, conn.inorderView.slots cfg.inorderStrategy k =
      some q → q ∈ seen) ∧
    conn.held cfg.inorderStrategy ≤ seen.length ∧
    conn.acceptQueue = []

section Replayed

variable
    {fmt : PacketFormat P}
    {cfg : Config}
    {s : ConnPtr}
    {p : PacketPtr}
    {seen ps : List PacketPtr}
    {e e₁ e' : Endpoint P}

/- Other packets are still for the same connection. -/
theorem Replayed.receiver
    (hReplayed : Replayed cfg s e seen e')
    (hOld : p < e.nextPacket)
    (hNew : p ∉ seen) :
    receiver fmt cfg p e' = receiver fmt cfg p e := by
  have hLookup : ∀ y, lookup fmt cfg e' y =
      lookup fmt cfg e y := by
    intro y
    rw [lookup, hReplayed.netState]
    rfl
  unfold NetBlocks.receiver
  simp only [hReplayed.packets p hOld hNew, hReplayed.host,
    hLookup]

/- One more packet is processed. -/
theorem Replayed.replays
    (hReplayed : Replayed cfg s e seen e₁)
    (hOld : p < e.nextPacket)
    (hReplays : Replays fmt cfg s e₁ p e') :
    Replayed cfg s e (p :: seen) e' := by
  rcases hReplays.delivers with ⟨conn, conn', hDelivers⟩
  rcases hReplayed.opened with
    ⟨connS, hConn, hShelved, hHeld, hQueue⟩
  cases hDelivers.found.symm.trans hConn
  refine ⟨hDelivers.netState.trans hReplayed.netState,
    hDelivers.host.trans hReplayed.host,
    hDelivers.events.trans hReplayed.events,
    Nat.le_trans hReplayed.next hDelivers.next, ?_, ?_, ?_,
    conn', ?_, ?_, ?_, ?_⟩
  · intro d hd
    rw [hDelivers.conns, Function.update_of_ne hd,
      hReplayed.others d hd]
  · intro q hq hNot
    rw [List.mem_cons, not_or] at hNot
    rw [hDelivers.packets q hNot.1
      (fun k hk => hNot.2 (hShelved k q hk))
      (Or.inl (Nat.lt_of_lt_of_le hq hReplayed.next)),
      hReplayed.packets q hq hNot.2]
  · intro q hq
    rcases List.mem_cons.mp hq with rfl | hq
    · exact hOld
    · exact hReplayed.old q hq
  · rw [hDelivers.conns, Function.update_self]
  · intro k q hq
    rcases hDelivers.slots k q hq with rfl | ⟨k', hk'⟩
    · exact List.mem_cons_self
    · exact List.mem_cons_of_mem _ (hShelved k' q hk')
  · rw [List.length_cons]
    exact Nat.le_trans hDelivers.count
      (Nat.succ_le_succ hHeld)
  · rw [hDelivers.acceptQueue, hQueue]

/-
  Packets that were processed for a connection are ones that
  were for it when the first was processed.
-/
theorem Replayed.of_run
    (hRun : Run (Replays fmt cfg s) e₁ ps e')
    (hReplayed : Replayed cfg s e seen e₁)
    (hNodup : ps.Nodup)
    (hNew : ∀ p ∈ ps, p ∉ seen)
    (hOld : ∀ p ∈ ps, p < e.nextPacket) :
    (∀ p ∈ ps, NetBlocks.receiver fmt cfg p e = some s) ∧
      Replayed cfg s e (ps.reverse ++ seen) e' := by
  induction hRun generalizing seen with
  | nil e₁ =>
      refine ⟨fun p hp => absurd hp List.not_mem_nil, ?_⟩
      exact hReplayed
  | @cons e₁ e₂ e' p ps hReplays _ ih =>
      have hNodup' := List.nodup_cons.mp hNodup
      have hp : p ∈ p :: ps := List.mem_cons_self
      have hReceiver := hReplays.receiver
      rw [hReplayed.receiver (hOld p hp) (hNew p hp)]
        at hReceiver
      have hNew' : ∀ q ∈ ps, q ∉ p :: seen := by
        intro q hq hMem
        rcases List.mem_cons.mp hMem with rfl | hMem
        · exact hNodup'.1 hq
        · exact hNew q (List.mem_cons_of_mem _ hq) hMem
      rcases ih (hReplayed.replays (hOld p hp) hReplays)
        hNodup'.2 hNew' (fun q hq =>
          hOld q (List.mem_cons_of_mem _ hq)) with
        ⟨hAll, hEnd⟩
      refine ⟨?_, ?_⟩
      · intro q hq
        rcases List.mem_cons.mp hq with rfl | hq
        · exact hReceiver
        · exact hAll q hq
      · rw [List.reverse_cons, List.append_assoc]
        exact hEnd

/- Accept queues and the redelivery buffers are apart. -/
theorem TimersApart.slotsHaveTimers
    {queued : PacketPtr → Prop}
    {conn : Connection}
    (hApart : TimersApart fmt cfg queued e)
    (hConn : e.conns s = some conn)
    (hOn : cfg.reliableEnabled = true) :
    SlotsHaveTimers fmt e conn ∧
      ∀ p, queued p → ∀ k, conn.redeliveryBuffer k ≠
        some p := by
  rcases hApart.timers with ⟨armed, -, hNot, hTimers⟩
  rcases hTimers.timed hOn with
    ⟨active, free, hSlots, hArmed⟩
  have hBuffer : e.buffers s = some conn.redeliveryBuffer := by
    rw [Endpoint.buffers, hConn]
    rfl
  refine ⟨?_, ?_⟩
  · intro k q hq
    rcases hSlots.timed s _ k q hBuffer hq with
      ⟨t, -, hTimer, -⟩
    rw [Endpoint.timerOf] at hTimer
    rw [hTimer]
    exact Option.some_ne_none t
  · intro p hp k hk
    rcases hSlots.timed s _ k p hBuffer hk with
      ⟨t, hActive, -, hArgument⟩
    exact hNot p hp (hArgument ▸ hArmed t hActive)

/-
  Packets that are for a connection which holds no others can
  all be processed, unless they are more than its queue holds.
-/
theorem replays_of_receivers
    {queued : PacketPtr → Prop}
    (hApart : TimersApart fmt cfg queued e₁)
    (hHolds : HoldsAcks fmt cfg e₁)
    (hReplayed : Replayed cfg s e seen e₁)
    (hNodup : ps.Nodup)
    (hNew : ∀ p ∈ ps, p ∉ seen)
    (hQueued : ∀ p ∈ ps, queued p ∧ p < e.nextPacket)
    (hReceivers : ∀ p ∈ ps,
      NetBlocks.receiver fmt cfg p e = some s)
    (hFew : seen.length + ps.length ≤ maxDataQueueElems) :
    ∃ e', Run (Replays fmt cfg s) e₁ ps e' := by
  induction ps generalizing seen e₁ with
  | nil => exact ⟨e₁, .nil e₁⟩
  | cons p ps ih =>
      have hNodup' := List.nodup_cons.mp hNodup
      have hp : p ∈ p :: ps := List.mem_cons_self
      rcases hQueued p hp with ⟨hIn, hOld⟩
      have hOld₁ := Nat.lt_of_lt_of_le hOld hReplayed.next
      rcases hReplayed.opened with
        ⟨conn, hConn, hShelved, hHeld, -⟩
      rw [List.length_cons] at hFew
      have hReceiver := hReceivers p hp
      rw [← hReplayed.receiver hOld (hNew p hp)] at hReceiver
      have hStep : ∃ e₂, Replays fmt cfg s e₁ p e₂ :=
        replays_of_receiver hOld₁ hReceiver hConn hHolds
          (fun hOn => (hApart.slotsHaveTimers hConn hOn).1)
          (fun hOn =>
            (hApart.slotsHaveTimers hConn hOn).2 p hIn)
          (by omega)
      rcases hStep with ⟨e₂, hReplays⟩
      have hMove : AcceptStep fmt cfg queued e₁ (.replays p)
          e₂ :=
        .replays hIn hOld₁ hReplays.ingress
      rcases hReplays.delivers with ⟨conn₁, conn₂, hDelivers⟩
      cases hDelivers.found.symm.trans hConn
      have hHolds₂ : HoldsAcks fmt cfg e₂ :=
        hHolds.delivers hOld₁ (fun k q hq =>
          Nat.lt_of_lt_of_le (hReplayed.old q
            (hShelved k q hq)) hReplayed.next) hDelivers
      have hNew' : ∀ q ∈ ps, q ∉ p :: seen := by
        intro q hq hMem
        rcases List.mem_cons.mp hMem with rfl | hMem
        · exact hNodup'.1 hq
        · exact hNew q (List.mem_cons_of_mem _ hq) hMem
      rcases ih (hApart.move hMove) hHolds₂
        (hReplayed.replays hOld hReplays) hNodup'.2 hNew'
        (fun q hq => hQueued q (List.mem_cons_of_mem _ hq))
        (fun q hq => hReceivers q (List.mem_cons_of_mem _ hq))
        (by rw [List.length_cons]; omega) with ⟨e', hRun⟩
      exact ⟨e', .cons hReplays hRun⟩

end Replayed

------------------------------------------------------------
-- The New Connection
------------------------------------------------------------

/-
  The buffers that the transport hands out next hold a packet
  without payload: the signal of a new connection, and the
  acknowledgements.
-/
structure SendBuffers
    (fmt : PacketFormat P)
    (cfg : Config)
    (e : Endpoint P) : Prop where
  signal : ∀ conn t, ∃ x, completePacket fmt cfg conn
    e.myLocalHostId e.myHostId (armPacket fmt cfg t
      (sequencePacket fmt cfg conn
        (lengthPacket fmt 0 (e.packets e.nextPacket)))) =
      .ok x
  acks : HoldsAcks fmt cfg e

section Opens

variable
    {fmt : PacketFormat P}
    {cfg : Config}
    {s : ConnPtr}
    {p : PacketPtr}
    {fresh : Connection}
    {h a sa : BitVec 32}
    {e e' : Endpoint P}

theorem startTimer_of_hasTimer
    (hPool : PoolKept cfg e)
    (hTimer : HasTimer cfg e)
    (now : BitVec 64)
    (p : PacketPtr) :
    ∃ t timers, startTimer cfg now p e.timers =
      .ok (t, timers) := by
  cases hOn : cfg.reliableEnabled with
  | false =>
      exact ⟨none, e.timers, by simp [startTimer, hOn]⟩
  | true =>
      have hAlloc := (allocTimer_ne_none_iff (hPool hOn)).mpr
        (hTimer hOn)
      rcases hPool hOn with ⟨active, free, hPool, -⟩
      cases free with
      | nil =>
          rw [TimerPool.allocTimer_nil hPool] at hAlloc
          exact absurd rfl hAlloc
      | cons t free =>
          rcases TimerPool.allocTimer_cons hPool with
            ⟨pool, hTake, hTaken, hOff, -⟩
          rcases TimerPool.insertTimer_represents
            (now + ReliableModule.redeliveryTimeoutMs)
            .reliableRedeliveryTimerCb p hTaken hOff with
            ⟨timers, hInsert, -⟩
          refine ⟨some t, timers, ?_⟩
          rw [startTimer, if_pos hOn, hTake]
          simp only [hInsert, ok_bind, pure_eq_ok]

/- A connection is established if the stores have room. -/
theorem nbEstablish_of_fits
    (hPool : PoolKept cfg e)
    (hBuffers : SendBuffers fmt cfg e)
    (hFits : CallFits fmt cfg e
      (.establish s fresh h a sa)) :
    ∃ e', nbEstablish fmt cfg s fresh h a sa e = .ok e' := by
  rcases hFits with ⟨hRoom, hTimer⟩
  rw [NetState.length_entries] at hRoom
  have hAdd : ∃ netState, e.netState.addConnection s sa a
      (routingTableLookupFromGlobal h
        e.netState.routingTable) = .ok netState := by
    unfold NetState.addConnection
    exact ⟨_, if_pos hRoom⟩
  rcases hAdd with ⟨netState, hAdd⟩
  have hSignal : ∃ conn' e₁, SignalResult fmt cfg s
      (establishedConn cfg fresh
        (routingTableLookupFromGlobal h
          e.netState.routingTable) a sa) h a
      (e.registered s (establishedConn cfg fresh
        (routingTableLookupFromGlobal h
          e.netState.routingTable) a sa) netState)
      conn' e₁ := by
    by_cases hWildcard : IsWildcard h a
    · exact ⟨_, _, .wildcard hWildcard rfl⟩
    · cases hOn : cfg.signalingEnabled with
      | false => exact ⟨_, _, .unsignaled hWildcard hOn rfl⟩
      | true =>
          rcases startTimer_of_hasTimer hPool
            (hTimer ⟨hWildcard, hOn⟩) e.timeNow e.nextPacket
            with ⟨t, timers, hStart⟩
          rcases hBuffers.signal
            { establishedConn cfg fresh
                (routingTableLookupFromGlobal h
                  e.netState.routingTable) a sa with
              signalingState := .waitingForSignal } t with
            ⟨x, hComplete⟩
          exact ⟨_, _, .signals hWildcard hOn rfl
            ⟨hStart, hComplete⟩⟩
  rcases hSignal with ⟨conn', e₁, hSignal⟩
  exact ⟨_, nbEstablish_ok_iff.mpr
    ⟨netState, conn', e₁, hAdd, hSignal, rfl⟩⟩

/- Establishing takes a buffer and an entry of the table. -/
theorem nbEstablish_frame
    (hEstablish : nbEstablish fmt cfg s fresh h a sa e =
      .ok e') :
    e.netState.addConnection s sa a (e.hostLocalId h) =
        .ok e'.netState ∧
      e'.myLocalHostId = e.myLocalHostId ∧
      e'.myHostId = e.myHostId ∧
      e'.events = e.events ∧
      e.nextPacket ≤ e'.nextPacket ∧
      ∀ q, q < e.nextPacket ∨ e'.nextPacket ≤ q →
        e'.packets q = e.packets q := by
  rcases nbEstablish_ok_iff.mp hEstablish with
    ⟨netState, conn', e₁, hAdd, hSignal, rfl⟩
  cases hSignal with
  | wildcard =>
      exact ⟨hAdd, rfl, rfl, rfl, Nat.le_refl _,
        fun _ _ => rfl⟩
  | unsignaled =>
      exact ⟨hAdd, rfl, rfl, rfl, Nat.le_refl _,
        fun _ _ => rfl⟩
  | signals =>
      refine ⟨hAdd, rfl, rfl, rfl, Nat.le_succ _, ?_⟩
      intro q hq
      apply Endpoint.setPacket_packets_of_ne
      rcases hq with hq | hq
      · exact Nat.ne_of_lt hq
      · exact Nat.ne_of_gt hq

/- No entry of the table is null. -/
def NoNullEntry
    (e : Endpoint P) : Prop :=
  ∀ x ∈ e.netState.entries, x.conn ≠ 0

/-
  With a new entry in the table, a packet is for the new
  connection if no entry before it matches, and it does.
-/
theorem lookup_added_iff
    {x : TableEntry}
    {y : P}
    (hNull : NoNullEntry e)
    (hEntries : e'.netState.entries =
      e.netState.entries ++ [x]) :
    lookup fmt cfg e' y = x.conn ↔
      lookup fmt cfg e y = x.conn ∨
        lookup fmt cfg e y = 0 ∧
          x.matchesFlow cfg.flowIdentifier
            (fmt.getWord .dstAppId y)
            (fmt.getWord .srcAppId y)
            (fmt.getInteger .srcHostId y) = true := by
  rw [lookup, lookup, NetState.retrieveConnection_eq,
    NetState.retrieveConnection_eq, hEntries,
    List.find?_append]
  generalize hFound : TableEntry.matchesFlow
    cfg.flowIdentifier (fmt.getWord .dstAppId y)
      (fmt.getWord .srcAppId y)
      (fmt.getInteger .srcHostId y) = found
  cases hFind : e.netState.entries.find? found with
  | some z =>
      have hZ := hNull z (List.mem_of_find?_eq_some hFind)
      simp only [Option.some_or, Option.map_some,
        Option.getD_some]
      exact (or_iff_left (fun hBoth => hZ hBoth.1)).symm
  | none =>
      cases hMatch : found x <;> simp [hMatch]

end Opens

------------------------------------------------------------
-- Accounting for Entries
------------------------------------------------------------

/- The entries of the peer that is accepted, the last one's. -/
def ofPeer
    (q : AcceptQueue) : List AcceptEntry :=
  match q.getLast? with
  | none => []
  | some entry =>
      q.filter (AcceptEntry.isOf entry.srcAppId
        entry.srcHostId)

/- The entries of all other peers. -/
def ofOthers
    (q : AcceptQueue) : List AcceptEntry :=
  match q.getLast? with
  | none => []
  | some entry =>
      q.filter (fun x => !x.isOf entry.srcAppId
        entry.srcHostId)

/-
  `nb__accept` returns, it processed the packets of the
  accepted peer, each once and as a packet of the connection
  at `s`, and the entries of all other peers remain.
-/
def Accounts
    (fmt : PacketFormat P)
    (cfg : Config)
    (c s : ConnPtr)
    (fresh : Connection)
    (q : AcceptQueue)
    (e : Endpoint P) : Prop :=
  ∃ fuel result log e' conn',
    nbAcceptLogged fmt cfg c s fresh fuel e =
        .ok (result, log, e') ∧
      e'.conns c = some conn' ∧
      log.Perm (handedAll s (ofPeer q)) ∧
      conn'.acceptQueue.Perm (ofOthers q)

/- The entry of the table that `nb__accept` adds. -/
def acceptedEntry
    (e : Endpoint P)
    (s : ConnPtr)
    (conn : Connection)
    (entry : AcceptEntry) : TableEntry where
  conn := s
  localAppId := conn.localAppId
  remoteAppId := entry.srcAppId
  -- `nb__establish` takes an `unsigned int`
  remoteHostId := e.hostLocalId (entry.srcHostId.setWidth 32)

/-
  A packet is intact and for this host, and with the accepted
  connection in the table it is one for it.
-/
def IsForAccepted
    (fmt : PacketFormat P)
    (cfg : Config)
    (e : Endpoint P)
    (x : TableEntry)
    (p : PacketPtr) : Prop :=
  ∃ y, checkPacket fmt cfg (e.packets p) = .ok (y, true) ∧
    fmt.getInteger .dstHostId y = e.myLocalHostId ∧
    (lookup fmt cfg e y = x.conn ∨
      lookup fmt cfg e y = 0 ∧
        x.matchesFlow cfg.flowIdentifier
          (fmt.getWord .dstAppId y) (fmt.getWord .srcAppId y)
          (fmt.getInteger .srcHostId y) = true)

/-
  There is room for a connection, and every packet that is
  queued for the accepted peer is one for it.
-/
def Acceptable
    (fmt : PacketFormat P)
    (cfg : Config)
    (s : ConnPtr)
    (fresh : Connection)
    (conn : Connection)
    (e : Endpoint P) : Prop :=
  ∀ entry, conn.acceptQueue.getLast? = some entry →
    CallFits fmt cfg e (.establish s fresh
        (entry.srcHostId.setWidth 32) entry.srcAppId
        conn.localAppId) ∧
      ∀ x ∈ ofPeer conn.acceptQueue,
        IsForAccepted fmt cfg e
          (acceptedEntry e s conn entry) x.packet

section Accounts

variable
    {fmt : PacketFormat P}
    {cfg : Config}
    {c s : ConnPtr}
    {conn fresh : Connection}
    {entry : AcceptEntry}
    {e e₂ e' : Endpoint P}

/- The listener once its last entry is taken out. -/
def Connection.popped
    (conn : Connection) : Connection :=
  conn.withAcceptQueue conn.acceptQueue.dropLast

/- The new connection, which counts as signaled. -/
def acceptedConn
    (cfg : Config)
    (fresh conn : Connection)
    (entry : AcceptEntry)
    (e : Endpoint P) : Connection :=
  { openedConn cfg fresh
      (e.hostLocalId (entry.srcHostId.setWidth 32))
      (entry.srcHostId.setWidth 32) entry.srcAppId
      conn.localAppId e.nextPacket with
    signalingState := .signaled }

/- The call of `nb__establish` in `nb__accept`. -/
def acceptEstablish
    (fmt : PacketFormat P)
    (cfg : Config)
    (c s : ConnPtr)
    (fresh conn : Connection)
    (entry : AcceptEntry)
    (e : Endpoint P) : Except Fault (Endpoint P) :=
  nbEstablish fmt cfg s fresh (entry.srcHostId.setWidth 32)
    entry.srcAppId conn.localAppId (e.setConn c conn.popped)

/- What `nb__accept` does with an entry. -/
theorem nbAcceptLogged_ok_iff
    {fuel : Nat}
    {result : ConnPtr}
    {log : ReplayLog}
    (hConn : e.conns c = some conn)
    (hLast : conn.acceptQueue.getLast? = some entry) :
    nbAcceptLogged fmt cfg c s fresh fuel e =
        .ok (result, log, e') ↔
      ∃ e₂ e₄ rest,
        acceptEstablish fmt cfg c s fresh conn entry e =
          .ok e₂ ∧
        runIngressPath fmt cfg entry.packet (e₂.setConn s
          (acceptedConn cfg fresh conn entry e)) = .ok e₄ ∧
        acceptLoopLogged fmt cfg c entry.srcAppId
          entry.srcHostId fuel 0 e₄ = .ok (rest, e') ∧
        result = s ∧
        log = (entry.packet, receiver fmt cfg entry.packet
          (e₂.setConn s (acceptedConn cfg fresh conn entry
            e))) :: rest := by
  have hSignal : ∀ e₂, acceptEstablish fmt cfg c s fresh conn
      entry e = .ok e₂ →
      e₂.modifyConn s (fun conn =>
        { conn with signalingState := .signaled }) =
      e₂.setConn s (acceptedConn cfg fresh conn entry e) := by
    intro e₂ hEstablish
    have hConn₂ := congrFun (nbEstablish_conns hEstablish) s
    rw [Function.update_self] at hConn₂
    exact Endpoint.modifyConn_eq hConn₂ _
  unfold nbAcceptLogged
  rw [Endpoint.loadConn_of_some hConn, ok_bind, hLast]
  dsimp only
  rw [Endpoint.modifyConn_eq hConn]
  constructor
  · intro hAccept
    rcases bind_eq_ok_iff.mp hAccept with
      ⟨e₂, hEstablish, hRest⟩
    rcases bind_eq_ok_iff.mp hRest with
      ⟨e₄, hIngress, hRest⟩
    rcases bind_eq_ok_iff.mp hRest with
      ⟨⟨rest, e₅⟩, hLoop, hEnd⟩
    cases hEnd
    rw [hSignal e₂ hEstablish] at hIngress ⊢
    exact ⟨e₂, e₄, rest, hEstablish, hIngress, hLoop, rfl,
      rfl⟩
  · rintro ⟨e₂, e₄, rest, hEstablish, hIngress, hLoop, rfl,
      rfl⟩
    rw [← hSignal e₂ hEstablish] at hIngress ⊢
    have hEstablish' : nbEstablish fmt cfg result fresh
        (entry.srcHostId.setWidth 32) entry.srcAppId
        conn.localAppId (e.setConn c
          { conn with acceptQueue :=
            conn.acceptQueue.dropLast }) = .ok e₂ :=
      hEstablish
    have hIngress' : nbRunIngressStep fmt cfg entry.packet 0
        (e₂.modifyConn result (fun conn =>
          { conn with signalingState := .signaled })) =
        .ok e₄ := hIngress
    rw [hEstablish', ok_bind, hIngress', ok_bind, hLoop]
    rfl

theorem acceptedConn_members
    (cfg : Config)
    (fresh conn : Connection)
    (entry : AcceptEntry)
    (e : Endpoint P) :
    (acceptedConn cfg fresh conn entry e).acceptQueue = [] ∧
      (acceptedConn cfg fresh conn entry e).held
        cfg.inorderStrategy = 0 ∧
      ∀ k, (acceptedConn cfg fresh conn entry
        e).inorderView.slots cfg.inorderStrategy k = none := by
  have hView : (acceptedConn cfg fresh conn entry
      e).inorderView = (establishedConn cfg fresh
        (e.hostLocalId (entry.srcHostId.setWidth 32))
        entry.srcAppId conn.localAppId).inorderView :=
    openedConn_inorderView cfg fresh _ _ _ _ _
  have hInput : (acceptedConn cfg fresh conn entry
      e).inputQueue = [] := by
    change (acceptedConn cfg fresh conn entry
      e).inorderView.inputQueue = []
    rw [hView]
    rfl
  have hSlots : ∀ k, (acceptedConn cfg fresh conn entry
      e).inorderView.slots cfg.inorderStrategy k = none :=
    fun k => openedConn_slots cfg fresh _ _ _ _ _ k
  have hShelved : (acceptedConn cfg fresh conn entry
      e).inorderView.shelved cfg.inorderStrategy = 0 := by
    cases hStrategy : cfg.inorderStrategy with
    | holdForever =>
        rw [hStrategy] at hSlots
        rw [InorderView.shelved, Finset.card_eq_zero,
          InorderView.filled, Finset.filter_eq_empty_iff]
        intro k _ hk
        exact hk (hSlots k)
    | dropOutOfOrder => rfl
    | noInorder => rfl
  refine ⟨openedConn_acceptQueue _ _ _ _ _ _, ?_, hSlots⟩
  rw [Connection.held, hInput, hShelved]
  rfl

/- The endpoint in which the first packet is processed. -/
theorem acceptEstablish_opens
    (hNe : s ≠ c)
    (hNull : NoNullEntry e)
    (hEstablish : acceptEstablish fmt cfg c s fresh conn entry
      e = .ok e₂) :
    Replayed cfg s
        (e₂.setConn s (acceptedConn cfg fresh conn entry e)) []
        (e₂.setConn s (acceptedConn cfg fresh conn entry e)) ∧
      (e₂.setConn s (acceptedConn cfg fresh conn entry
        e)).conns c = some conn.popped ∧
      ∀ p, p < e.nextPacket →
        p < e₂.nextPacket ∧
        (receiver fmt cfg p (e₂.setConn s
            (acceptedConn cfg fresh conn entry e)) = some s ↔
          s ≠ 0 ∧ IsForAccepted fmt cfg e
            (acceptedEntry e s conn entry) p) := by
  rcases nbEstablish_frame hEstablish with
    ⟨hAdd, hHost, -, -, hNext, hPackets⟩
  rcases acceptedConn_members cfg fresh conn entry e with
    ⟨hQueue, hHeld, hSlots⟩
  refine ⟨⟨rfl, rfl, rfl, Nat.le_refl _, fun _ _ => rfl,
    fun _ _ _ => rfl, fun _ hq => absurd hq List.not_mem_nil,
    acceptedConn cfg fresh conn entry e,
    Endpoint.setConn_conns_self _ _ _, ?_, ?_, hQueue⟩,
    ?_, ?_⟩
  · intro k q hq
    rw [hSlots k] at hq
    cases hq
  · rw [hHeld]
    exact Nat.zero_le _
  · rw [Endpoint.setConn_conns_of_ne _ _ (Ne.symm hNe),
      nbEstablish_conns hEstablish,
      Function.update_of_ne (Ne.symm hNe)]
    exact Endpoint.setConn_conns_self e c _
  · intro p hOld
    refine ⟨Nat.lt_of_lt_of_le hOld hNext, ?_⟩
    have hPacket : e₂.packets p = e.packets p :=
      hPackets p (Or.inl hOld)
    have hEntries : e₂.netState.entries = e.netState.entries ++
        [acceptedEntry e s conn entry] :=
      (NetState.addConnection_entries hAdd).1
    have hLookup : ∀ y, lookup fmt cfg (e₂.setConn s
        (acceptedConn cfg fresh conn entry e)) y = s ↔
        lookup fmt cfg e y = s ∨ lookup fmt cfg e y = 0 ∧
          (acceptedEntry e s conn entry).matchesFlow
            cfg.flowIdentifier (fmt.getWord .dstAppId y)
            (fmt.getWord .srcAppId y)
            (fmt.getInteger .srcHostId y) = true := fun _ =>
      lookup_added_iff hNull hEntries
    rw [receiver_eq_some_iff]
    constructor
    · rintro ⟨y, hCheck, hOwn, hFound, hNe⟩
      refine ⟨hNe, y, ?_, hOwn.trans hHost,
        (hLookup y).mp hFound⟩
      rw [← hPacket]
      exact hCheck
    · rintro ⟨hNe, y, hCheck, hOwn, hFound⟩
      refine ⟨y, ?_, hOwn.trans hHost.symm,
        (hLookup y).mpr hFound, hNe⟩
      rw [← hPacket] at hCheck
      exact hCheck

/- What accepting relies on, in every state of a run. -/
structure AcceptInvariant
    (fmt : PacketFormat P)
    (cfg : Config)
    (e : Endpoint P) : Prop where
  apart : QueuesApart e.parkedAt
  queued : QueuedOld e
  timers : TimersApart fmt cfg (IsQueued e) e
  entries : NoNullEntry e

theorem ofPeer_split
    (hLast : conn.acceptQueue.getLast? = some entry)
    (order : List AcceptEntry)
    (hOrder : order.Perm (conn.acceptQueue.dropLast.filter
      (AcceptEntry.isOf entry.srcAppId entry.srcHostId))) :
    (entry :: order).Perm (ofPeer conn.acceptQueue) := by
  have hQueue := List.dropLast_append_getLast? entry hLast
  have hSelf : entry.isOf entry.srcAppId entry.srcHostId =
      true := by
    simp [AcceptEntry.isOf]
  rw [ofPeer, hLast]
  dsimp only
  conv_rhs => rw [← hQueue]
  rw [List.filter_append, List.filter_singleton, hSelf]
  exact (List.Perm.cons entry hOrder).trans
    (List.perm_append_singleton entry _).symm

theorem ofOthers_split
    (hLast : conn.acceptQueue.getLast? = some entry) :
    ofOthers conn.acceptQueue =
      conn.acceptQueue.dropLast.filter
        (fun x => !x.isOf entry.srcAppId entry.srcHostId) := by
  have hQueue := List.dropLast_append_getLast? entry hLast
  have hSelf : entry.isOf entry.srcAppId entry.srcHostId =
      true := by
    simp [AcceptEntry.isOf]
  rw [ofOthers, hLast]
  dsimp only
  conv_lhs => rw [← hQueue]
  rw [List.filter_append, List.filter_singleton, hSelf]
  simp

/- The packets processed are those of the accepted peer. -/
theorem nodup_of_ofPeer
    (hInv : AcceptInvariant fmt cfg e)
    (hConn : e.conns c = some conn)
    {order : List AcceptEntry}
    (hOrder : order.Perm (ofPeer conn.acceptQueue)) :
    (order.map AcceptEntry.packet).Nodup ∧
      ∀ p ∈ order.map AcceptEntry.packet,
        IsQueued e p ∧ p < e.nextPacket := by
  have hSub : (ofPeer conn.acceptQueue).Sublist
      conn.acceptQueue := by
    unfold ofPeer
    cases conn.acceptQueue.getLast? with
    | none => exact List.nil_sublist _
    | some entry => exact List.filter_sublist
  have hNodup := hInv.apart.nodup c
  rw [parkedAt_of_conn hConn] at hNodup
  refine ⟨((hOrder.map _).nodup_iff).mpr
    (hNodup.sublist (hSub.map _)), ?_⟩
  intro p hp
  rcases List.mem_map.mp hp with ⟨x, hx, rfl⟩
  have hMem := hSub.subset (hOrder.subset hx)
  exact ⟨⟨c, conn, x, hConn, hMem, rfl⟩,
    hInv.queued c conn x hConn hMem⟩

/- All is accounted for only if the packets are for `s`. -/
theorem acceptable_of_accounts
    (hInv : AcceptInvariant fmt cfg e)
    (hConn : e.conns c = some conn)
    (hNull : s ≠ 0)
    (hFree : e.conns s = none)
    (hAccounts : Accounts fmt cfg c s fresh conn.acceptQueue
      e) :
    Acceptable fmt cfg s fresh conn e := by
  intro entry hLast
  have hNe : s ≠ c := by
    rintro rfl
    rw [hFree] at hConn
    cases hConn
  rcases hAccounts with
    ⟨fuel, result, log, e', conn', hAccept, -, hLog, -⟩
  rcases (nbAcceptLogged_ok_iff hConn hLast).mp hAccept with
    ⟨e₂, e₄, rest, hEstablish, hIngress, hLoop, rfl, rfl⟩
  rcases acceptEstablish_opens hNe hInv.entries hEstablish
    with ⟨hBase, hListener, hOpens⟩
  have hAll : ∀ handed ∈ (entry.packet,
      receiver fmt cfg entry.packet (e₂.setConn result
        (acceptedConn cfg fresh conn entry e))) :: rest,
      handed.2 = some result := by
    intro handed hMem
    rcases List.mem_map.mp (hLog.subset hMem) with
      ⟨x, -, rfl⟩
    rfl
  have hEntryOld : entry.packet < e.nextPacket :=
    hInv.queued c conn entry hConn
      (List.mem_of_getLast? hLast)
  have hFirst : Replays fmt cfg result (e₂.setConn result
      (acceptedConn cfg fresh conn entry e)) entry.packet e₄ :=
    ⟨(hOpens _ hEntryOld).1, hAll _ List.mem_cons_self,
      hIngress⟩
  have hListener₄ : e₄.conns c = some conn.popped := by
    rw [hFirst.conns_of_ne hNe, hListener]
  have hOld₄ : ∀ x ∈ conn.popped.acceptQueue,
      x.packet < e₄.nextPacket := by
    intro x hx
    have hMem := (List.dropLast_sublist _).subset hx
    exact Nat.lt_of_lt_of_le
      (hOpens _ (hInv.queued c conn x hConn hMem)).1
      hFirst.nextPacket_le
  rcases acceptLoopLogged_sweep hNe hListener₄ hOld₄ hLoop
    (fun handed hMem =>
      hAll handed (List.mem_cons_of_mem _ hMem)) with
    ⟨hFuel, e₅, hRun, -, -⟩
  have hPeer := ofPeer_split hLast _
    (sweep_perm hFuel (by simp)).1
  rcases nodup_of_ofPeer hInv hConn hPeer with
    ⟨hNodup, hQueued⟩
  have hReceivers := (Replayed.of_run
    (Run.cons hFirst hRun) hBase hNodup
    (fun _ _ => List.not_mem_nil) (fun p hp =>
      (hOpens p (hQueued p hp).2).1)).1
  refine ⟨?_, ?_⟩
  · have hFree₁ : (e.setConn c conn.popped).conns result =
        none := by
      rw [Endpoint.setConn_conns_of_ne _ _ hNe, hFree]
    have hPool : PoolKept cfg (e.setConn c conn.popped) :=
      hInv.timers.poolKept
    have hCall : Calls fmt cfg (e.setConn c conn.popped)
        (.establish result fresh
          (entry.srcHostId.setWidth 32) entry.srcAppId
          conn.localAppId) e₂ :=
      .establish hNull hFree₁ hEstablish
    exact (callWrites_inBounds_iff hPool).mp
      (hCall.inBounds hPool)
  · intro x hx
    have hMem := List.mem_map_of_mem (f := AcceptEntry.packet)
      (hPeer.symm.subset hx)
    exact ((hOpens _ (hQueued _ hMem).2).2.mp
      (hReceivers _ hMem)).2

theorem timersApart_accepted
    (hTimers : TimersApart fmt cfg (IsQueued e) e)
    (hConn : e.conns c = some conn)
    (hNull : s ≠ 0)
    (hFree : e.conns s = none)
    (hEstablish : acceptEstablish fmt cfg c s fresh conn entry
      e = .ok e₂) :
    TimersApart fmt cfg (IsQueued e) (e₂.setConn s
      (acceptedConn cfg fresh conn entry e)) := by
  have hNe : s ≠ c := by
    rintro rfl
    rw [hFree] at hConn
    cases hConn
  have hPop : AcceptStep fmt cfg (IsQueued e) e (.dequeues c)
      (e.setConn c conn.popped) :=
    .dequeues hConn (fun x hx =>
      (List.dropLast_sublist _).subset hx)
  have hFree₁ : (e.setConn c conn.popped).conns s = none := by
    rw [Endpoint.setConn_conns_of_ne _ _ hNe, hFree]
  have hOpen : AcceptStep fmt cfg (IsQueued e)
      (e.setConn c conn.popped)
      (.opens s fresh (entry.srcHostId.setWidth 32)
        entry.srcAppId conn.localAppId) e₂ :=
    .opens (.establish hNull hFree₁ hEstablish)
  have hConn₂ := congrFun (nbEstablish_conns hEstablish) s
  rw [Function.update_self] at hConn₂
  have hSignal : AcceptStep fmt cfg (IsQueued e) e₂
      (.signals s) (e₂.setConn s
        (acceptedConn cfg fresh conn entry e)) :=
    .signals hConn₂
  exact ((hTimers.move hPop).move hOpen).move hSignal

theorem holdsAcks_accepted
    (hHolds : HoldsAcks fmt cfg e)
    (hEstablish : acceptEstablish fmt cfg c s fresh conn entry
      e = .ok e₂) :
    HoldsAcks fmt cfg (e₂.setConn s
      (acceptedConn cfg fresh conn entry e)) := by
  rcases nbEstablish_frame hEstablish with
    ⟨-, hHost, hHostId, -, hNext, hPackets⟩
  intro p hp connA seq
  change ∃ x, completePacket fmt cfg connA e₂.myLocalHostId
    e₂.myHostId (ackPacket fmt seq (e₂.packets p)) = .ok x
  rw [hPackets p (Or.inr hp), hHost, hHostId]
  exact hHolds p (Nat.le_trans hNext hp) connA seq

/- And then it is. -/
theorem accounts_of_acceptable
    (hInv : AcceptInvariant fmt cfg e)
    (hBuffers : SendBuffers fmt cfg e)
    (hConn : e.conns c = some conn)
    (hNull : s ≠ 0)
    (hFree : e.conns s = none)
    (hAcceptable : Acceptable fmt cfg s fresh conn e) :
    Accounts fmt cfg c s fresh conn.acceptQueue e := by
  have hNe : s ≠ c := by
    rintro rfl
    rw [hFree] at hConn
    cases hConn
  cases hLast : conn.acceptQueue.getLast? with
  | none =>
      have hEmpty := List.getLast?_eq_none_iff.mp hLast
      refine ⟨0, 0, [], e, conn, ?_, hConn, ?_, ?_⟩
      · rw [nbAcceptLogged, Endpoint.loadConn_of_some hConn,
          ok_bind, hLast]
        rfl
      · rw [ofPeer, hLast]
        exact .refl _
      · rw [ofOthers, hLast, hEmpty]
  | some entry =>
      rcases hAcceptable entry hLast with ⟨hFits, hReaches⟩
      have hBuffers₁ : SendBuffers fmt cfg
          (e.setConn c conn.popped) :=
        ⟨hBuffers.signal, hBuffers.acks⟩
      have hReturns : ∃ e₂, acceptEstablish fmt cfg c s fresh
          conn entry e = .ok e₂ :=
        nbEstablish_of_fits hInv.timers.poolKept hBuffers₁
          hFits
      rcases hReturns with ⟨e₂, hEstablish⟩
      rcases acceptEstablish_opens hNe hInv.entries hEstablish
        with ⟨hBase, hListener, hOpens⟩
      let e₃ := e₂.setConn s
        (acceptedConn cfg fresh conn entry e)
      -- the packets to process, in their order
      have hFuel : conn.popped.acceptQueue.length <
          (conn.popped.acceptQueue.length + 1) + 0 :=
        Nat.lt_succ_self _
      have hBefore : ∀ x ∈ conn.popped.acceptQueue.take 0,
          x.isOf entry.srcAppId entry.srcHostId = false := by
        simp
      rcases sweep_perm hFuel hBefore with ⟨hTaken, hLeft⟩
      have hPeer := ofPeer_split hLast _ hTaken
      rcases nodup_of_ofPeer hInv hConn hPeer with
        ⟨hNodup, hQueued⟩
      -- they can all be processed
      have hTimers : TimersApart fmt cfg (IsQueued e) e₃ :=
        timersApart_accepted hInv.timers hConn hNull hFree
          hEstablish
      have hHolds : HoldsAcks fmt cfg e₃ :=
        holdsAcks_accepted hBuffers.acks hEstablish
      have hRuns : ∃ e₅, Run (Replays fmt cfg s) e₃
          ((entry :: (sweep (AcceptEntry.isOf entry.srcAppId
            entry.srcHostId)
            (conn.popped.acceptQueue.length + 1) 0
            conn.popped.acceptQueue).1).map
              AcceptEntry.packet) e₅ := by
        apply replays_of_receivers hTimers hHolds hBase hNodup
          (fun _ _ => List.not_mem_nil)
        · intro p hp
          exact ⟨(hQueued p hp).1,
            (hOpens p (hQueued p hp).2).1⟩
        · intro p hp
          rcases List.mem_map.mp hp with ⟨x, hx, rfl⟩
          exact (hOpens _ (hQueued _ hp).2).2.mpr
            ⟨hNull, hReaches x (hPeer.subset hx)⟩
        · have hShort := hInv.apart.short c
          rw [parkedAt_of_conn hConn, List.length_map]
            at hShort
          have hLength : (ofPeer conn.acceptQueue).length ≤
              conn.acceptQueue.length := by
            rw [ofPeer, hLast]
            exact List.length_filter_le _ _
          rw [List.length_map, hPeer.length_eq,
            List.length_nil, Nat.zero_add]
          exact Nat.le_trans hLength hShort
      rcases hRuns with ⟨e₅, hRun⟩
      rcases hRun with _ | ⟨hFirst, hRest⟩
      rename_i e₄
      have hListener₄ : e₄.conns c = some conn.popped := by
        rw [hFirst.conns_of_ne hNe, hListener]
      have hLoop := acceptLoopLogged_of_replays hNe hListener₄
        (Nat.zero_le _) hFuel hRest
      refine ⟨_, s, _, _, _, (nbAcceptLogged_ok_iff hConn
        hLast).mpr ⟨e₂, e₄, _, hEstablish, hFirst.ingress,
          hLoop, rfl, rfl⟩, Endpoint.setConn_conns_self _ _ _,
        ?_, ?_⟩
      · rw [hFirst.receiver]
        exact hPeer.map (fun x => (x.packet, some s))
      · rw [ofOthers_split hLast]
        exact hLeft

end Accounts

------------------------------------------------------------
-- Runs
------------------------------------------------------------

section Runs

variable
    {fmt : PacketFormat P}
    {cfg : Config}
    {c s : ConnPtr}
    {e e' : Endpoint P}

/- Deleting moves an entry at most. -/
theorem mem_deleteConnection
    {st : NetState}
    {flow : FlowIdentifier}
    {appId srcAppId : BitVec 32}
    {srcHostId : BitVec 64}
    {d : ConnPtr}
    (hMem : d ∈ (st.deleteConnection flow appId srcAppId
      srcHostId).connections) :
    d ∈ st.connections := by
  unfold NetState.deleteConnection at hMem
  split at hMem
  · next i hFound =>
      have hLt : i < st.numConn := by
        unfold NetState.findIndex at hFound
        exact List.mem_range.mp
          (List.mem_of_find?_eq_some hFound)
      have hConns : (st.removeEntry flow i).activeConnections =
          Function.update st.activeConnections i
            (st.activeConnections (st.numConn - 1)) := by
        unfold NetState.removeEntry
        cases flow <;> rfl
      have hNum : (st.removeEntry flow i).numConn =
          st.numConn - 1 := by
        unfold NetState.removeEntry
        cases flow <;> rfl
      rw [NetState.connections, hConns, hNum, List.mem_map]
        at hMem
      rcases hMem with ⟨j, hj, rfl⟩
      rw [List.mem_range] at hj
      rw [Function.update_apply]
      split
      · exact List.mem_map_of_mem
          (List.mem_range.mpr (by omega))
      · exact List.mem_map_of_mem
          (List.mem_range.mpr (by omega))
  · exact hMem

theorem noNullEntry_iff :
    NoNullEntry e ↔ ∀ d ∈ e.netState.connections, d ≠ 0 := by
  rw [NetState.connections_eq, NoNullEntry]
  simp

theorem TableAdds.noNullEntry
    {x : TableEntry}
    (hAdds : TableAdds e x e')
    (hNull : NoNullEntry e) :
    NoNullEntry e' := by
  intro y hy
  rw [hAdds.entries, List.mem_append, List.mem_singleton]
    at hy
  rcases hy with hy | rfl
  · exact hNull y hy
  · exact hAdds.fresh.1

theorem SameTable.noNullEntry
    (hSame : SameTable e e')
    (hNull : NoNullEntry e) :
    NoNullEntry e' := by
  rw [NoNullEntry, hSame.netState]
  exact hNull

theorem ApiCalls.noNullEntry
    {call : ApiCall P}
    (hOld : QueuedOld e)
    (hNull : NoNullEntry e)
    (hCall : ApiCalls fmt cfg e call e') :
    NoNullEntry e' := by
  refine (hCall.invariant NoNullEntry ?_ ?_ hOld hNull).1
  · intro call _ e₁ hNull hCall
    cases hCall.table with
    | adds hAdds => exact hAdds.noNullEntry hNull
    | deletes hDeletes =>
        rw [noNullEntry_iff] at hNull ⊢
        rw [hDeletes.netState]
        intro d hd
        exact hNull d (mem_deleteConnection hd)
    | same hSame => exact hSame.noNullEntry hNull
  · intro e₁ move e₂ hNull hStep
    rcases hStep.table with ⟨x, hAdds⟩ | hSame
    · exact hAdds.noNullEntry hNull
    · exact hSame.noNullEntry hNull

/- What one call of the API preserves. -/
theorem ApiCalls.acceptInvariant
    {call : ApiCall P}
    (hInv : AcceptInvariant fmt cfg e)
    (hCall : ApiCalls fmt cfg e call e') :
    AcceptInvariant fmt cfg e' := by
  have hOld := hCall.invariant (fun _ => True)
    (fun _ _ _ _ _ => trivial) (fun _ _ _ _ _ => trivial)
    hInv.queued trivial
  exact ⟨hCall.queuesApart hInv.apart hInv.queued, hOld.2,
    hCall.timersApart hInv.timers,
    hCall.noNullEntry hInv.queued hInv.entries⟩

theorem acceptInvariant_netInit
    (fresh : NetState)
    (hConns : ∀ c, e.conns c = none)
    (hHead : e.timers.timersHead = none) :
    AcceptInvariant fmt cfg (nbNetInit fresh e) := by
  refine ⟨queuesApart_netInit fresh hConns, ?_,
    timersApart_netInit fresh hConns hHead, ?_⟩
  · intro c conn x hConn
    rw [show (nbNetInit fresh e).conns c = none from hConns c]
      at hConn
    cases hConn
  · intro x hx
    have hNil : (nbNetInit fresh e).netState.entries = [] := rfl
    rw [hNil] at hx
    cases hx

/-
  After any run, `nb__accept` on a connection returns and
  accounts for all that is in its queue, exactly if there is
  room for a connection and the packets of the accepted peer
  are ones for it.
-/
theorem accounts_iff_of_run
    {freshState : NetState}
    {calls : List (ApiCall P)}
    {conn : Connection}
    {e₀ : Endpoint P}
    (hConns : ∀ c, e₀.conns c = none)
    (hHead : e₀.timers.timersHead = none)
    (hRun : Run (ApiCalls fmt cfg) (nbNetInit freshState e₀)
      calls e)
    (hBuffers : SendBuffers fmt cfg e)
    (hConn : e.conns c = some conn)
    (hNull : s ≠ 0)
    (hFree : e.conns s = none)
    (fresh : Connection) :
    Accounts fmt cfg c s fresh conn.acceptQueue e ↔
      Acceptable fmt cfg s fresh conn e := by
  have hInv : AcceptInvariant fmt cfg e :=
    hRun.invariant
      (fun _ _ _ hInv hCall => hCall.acceptInvariant hInv)
      (acceptInvariant_netInit freshState hConns hHead)
  exact ⟨acceptable_of_accounts hInv hConn hNull hFree,
    accounts_of_acceptable hInv hBuffers hConn hNull hFree⟩

end Runs

------------------------------------------------------------
-- Wide Host Ids
------------------------------------------------------------

/-
  A packet that names the listener's application and the peer
  of its entry is one for the new connection exactly if the
  host id of that peer takes 32 bits.
-/
theorem isForAccepted_iff_narrow
    {fmt : PacketFormat P}
    {cfg : Config}
    {e : Endpoint P}
    {s : ConnPtr}
    {conn : Connection}
    {entry : AcceptEntry}
    {p : PacketPtr}
    {y : P}
    (hFlow : cfg.flowIdentifier = .srcDstIdentifier)
    (hRouting : e.netState.routingTable = none)
    (hNull : s ≠ 0)
    (hCheck : checkPacket fmt cfg (e.packets p) =
      .ok (y, true))
    (hHost : fmt.getInteger .dstHostId y = e.myLocalHostId)
    (hLookup : lookup fmt cfg e y = 0)
    (hDst : fmt.getWord .dstAppId y = conn.localAppId)
    (hSrc : fmt.getWord .srcAppId y = entry.srcAppId)
    (hSrcHost : fmt.getInteger .srcHostId y =
      entry.srcHostId) :
    IsForAccepted fmt cfg e (acceptedEntry e s conn entry) p ↔
      entry.srcHostId.toNat < 2 ^ 32 := by
  have hNotFound : lookup fmt cfg e y ≠ s := by
    rw [hLookup]
    exact Ne.symm hNull
  have hLocal : e.hostLocalId (entry.srcHostId.setWidth 32) =
      (entry.srcHostId.setWidth 32).setWidth 64 := by
    rw [Endpoint.hostLocalId, hRouting]
    rfl
  have hMatch : (acceptedEntry e s conn entry).matchesFlow
      cfg.flowIdentifier (fmt.getWord .dstAppId y)
        (fmt.getWord .srcAppId y)
        (fmt.getInteger .srcHostId y) = true ↔
      entry.srcHostId.toNat < 2 ^ 32 := by
    rw [hFlow, TableEntry.matchesFlow_srcDst_iff, hDst, hSrc,
      hSrcHost]
    change _ ∧ _ ∧ e.hostLocalId _ = _ ↔ _
    rw [hLocal]
    have hWide : (entry.srcHostId.setWidth 32).setWidth 64 =
        entry.srcHostId ↔ entry.srcHostId.toNat < 2 ^ 32 := by
      rw [← BitVec.toNat_inj, BitVec.toNat_setWidth,
        BitVec.toNat_setWidth]
      omega
    simp [acceptedEntry, hWide]
  constructor
  · rintro ⟨z, hz, -, hFound | ⟨-, hFound⟩⟩
    · cases hCheck.symm.trans hz
      exact absurd hFound hNotFound
    · cases hCheck.symm.trans hz
      exact hMatch.mp hFound
  · intro hNarrow
    exact ⟨y, hCheck, hHost,
      Or.inr ⟨hLookup, hMatch.mpr hNarrow⟩⟩

/- Without checksums, every send buffer will do. -/
theorem sendBuffers_of_off
    {fmt : PacketFormat P}
    {cfg : Config}
    {e : Endpoint P}
    (hOff : cfg.checksumEnabled = false) :
    SendBuffers fmt cfg e := by
  have hComplete : ∀ conn host hostId (x : P),
      ∃ y, completePacket fmt cfg conn host hostId x =
        .ok y := by
    intro conn host hostId x
    rw [completePacket, checksumPacket, hOff]
    exact ⟨_, rfl⟩
  exact ⟨fun _ _ => hComplete _ _ _ _,
    fun _ _ _ _ => hComplete _ _ _ _⟩

/- A listener of app 7 with a packet of app 8 parked. -/
def parkOne
    (srcHostId : BitVec 64) :
    Except Fault (Endpoint PacketBuffer) := do
  let e ← establishListener 1 bareStack
  ingress netPacketFormat (plainConfig .srcDstIdentifier)
    (packetToSeven srcHostId 8) 39 e

theorem parkOne_run
    {srcHostId : BitVec 64}
    {e : Endpoint PacketBuffer}
    (hPark : parkOne srcHostId = .ok e) :
    Run (ApiCalls netPacketFormat
        (plainConfig .srcDstIdentifier)) bareStack
      [.call (.establish 1 blankConnection 0 0 7),
        .call (.ingress (packetToSeven srcHostId 8) 39)]
      e := by
  rcases bind_eq_ok_iff.mp hPark with ⟨e₁, hFirst, hIngress⟩
  exact .cons (.call (.establish (by decide) rfl hFirst))
    (.cons (.call (.ingress hIngress)) (.nil e))

/-
  A peer whose host id has 33 bits: the connection is opened
  for another host, and its packet is parked again.
-/
theorem not_forall_accounts :
    ¬ ∀ (fmt : PacketFormat PacketBuffer) cfg freshState e₀
        calls e c s conn fresh,
      (∀ c, e₀.conns c = none) →
      e₀.timers.timersHead = none →
      Run (ApiCalls fmt cfg) (nbNetInit freshState e₀) calls
        e →
      SendBuffers fmt cfg e →
      e.conns c = some conn →
      s ≠ 0 →
      e.conns s = none →
      Accounts fmt cfg c s fresh conn.acceptQueue e := by
  intro hAll
  let cfg := plainConfig .srcDstIdentifier
  have hTable : (do
      let e ← parkOne (2 ^ 32)
      return ((e.conns 1).map Connection.acceptQueue,
        (e.conns 2).isNone,
        lookup netPacketFormat cfg e
          (netPacketFormat.restoreTotalLen (e.packets 0)),
        netPacketFormat.getInteger .srcHostId
          (netPacketFormat.restoreTotalLen (e.packets 0)),
        e.hostLocalId 0)) =
      .ok (some [⟨8, 2 ^ 32, 0⟩], true, 0, 2 ^ 32, 0) := by
    decide +kernel
  rcases bind_eq_ok_iff.mp hTable with ⟨e, hPark, hEnd⟩
  simp only [pure_eq_ok, Except.ok.injEq, Prod.mk.injEq,
    Option.isNone_iff_eq_none, Option.map_eq_some_iff]
    at hEnd
  rcases hEnd with
    ⟨⟨conn, hConn, hQueue⟩, hFree, hLookup, hSrc, hLocal⟩
  have hRun := parkOne_run hPark
  have hNull : (2 : ConnPtr) ≠ 0 := by decide
  have hAccounts := hAll netPacketFormat cfg blankNetState
    bareEndpoint _ e 1 2 conn blankConnection (fun _ => rfl)
    rfl hRun (sendBuffers_of_off rfl) hConn hNull hFree
  have hInv : AcceptInvariant netPacketFormat cfg e :=
    hRun.invariant
      (fun _ _ _ hInv hCall => hCall.acceptInvariant hInv)
      (acceptInvariant_netInit blankNetState (fun _ => rfl)
        rfl)
  have hAcceptable := acceptable_of_accounts hInv hConn hNull
    hFree hAccounts
  have hLast : conn.acceptQueue.getLast? =
      some ⟨8, 2 ^ 32, 0⟩ := by
    rw [hQueue]
    rfl
  have hPeer : (⟨8, 2 ^ 32, 0⟩ : AcceptEntry) ∈
      ofPeer conn.acceptQueue := by
    rw [hQueue]
    decide
  rcases (hAcceptable _ hLast).2 _ hPeer with
    ⟨y, hCheck, -, hFound⟩
  have hChecked : checkPacket netPacketFormat cfg
      (e.packets 0) = .ok (netPacketFormat.restoreTotalLen
        (e.packets 0), true) := rfl
  cases hChecked.symm.trans hCheck
  rcases hFound with hFound | ⟨-, hMatch⟩
  · have hZero : (0 : ConnPtr) = 2 :=
      hLookup.symm.trans hFound
    exact absurd hZero (by decide)
  · have hHost := (TableEntry.matchesFlow_srcDst_iff.mp
      hMatch).2.2
    exact absurd ((hLocal.symm.trans hHost).trans hSrc)
      (by decide)

/- A peer whose host id is small. -/
theorem accounts_iff_of_run_one :
    ∃ (e : Endpoint PacketBuffer) (conn : Connection),
      e.conns 1 = some conn ∧ conn.acceptQueue ≠ [] ∧
        (Accounts netPacketFormat
            (plainConfig .srcDstIdentifier) 1 2
            blankConnection conn.acceptQueue e ↔
          Acceptable netPacketFormat
            (plainConfig .srcDstIdentifier) 2
            blankConnection conn e) := by
  have hTable : (do
      let e ← parkOne 9
      return ((e.conns 1).map Connection.acceptQueue,
        (e.conns 2).isNone)) =
      .ok (some [⟨8, 9, 0⟩], true) := by
    decide +kernel
  rcases bind_eq_ok_iff.mp hTable with ⟨e, hPark, hEnd⟩
  simp only [pure_eq_ok, Except.ok.injEq, Prod.mk.injEq,
    Option.isNone_iff_eq_none, Option.map_eq_some_iff]
    at hEnd
  rcases hEnd with ⟨⟨conn, hConn, hQueue⟩, hFree⟩
  refine ⟨e, conn, hConn, ?_, ?_⟩
  · rw [hQueue]
    exact List.cons_ne_nil _ _
  · exact accounts_iff_of_run (fun _ => rfl) rfl
      (parkOne_run hPark) (sendBuffers_of_off rfl) hConn
      (by decide) hFree blankConnection

end NetBlocks
