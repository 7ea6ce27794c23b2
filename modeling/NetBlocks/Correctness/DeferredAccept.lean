import NetBlocks.Correctness.Accepting
import NetBlocks.Correctness.ReorderQueue

/-
  A connection that `nb__accept` opens, next to one that was
  open when its packets arrived: parked packets count as
  arriving when they are processed again, the last one first.

  Main declarations:
    * `acceptOrder`
    * `acceptsInOrder_of_run`
    * `acceptedAsEarly_of_run`
    * `acceptsNewest_of_run`
-/

namespace NetBlocks

open Except TransitionSystem ReorderBuffer SwapRemoval

variable {P : Type}

------------------------------------------------------------
-- The Order of Replays
------------------------------------------------------------

/-
  The entries of the accepted peer, in the order in which
  their packets are processed again.
-/
def acceptOrder
    (q : AcceptQueue) : List AcceptEntry :=
  match q.getLast? with
  | none => []
  | some entry =>
      entry :: (sweep (AcceptEntry.isOf entry.srcAppId
        entry.srcHostId) q.length 0 q.dropLast).1

section Order

variable
    {fmt : PacketFormat P}
    {cfg : Config}
    {c s : ConnPtr}
    {conn fresh : Connection}
    {entry : AcceptEntry}
    {q : AcceptQueue}
    {e : Endpoint P}

theorem length_dropLast_lt
    (hLast : q.getLast? = some entry) :
    q.dropLast.length < q.length + 0 := by
  have hQueue := congrArg List.length
    (List.dropLast_append_getLast? entry hLast)
  rw [List.length_append] at hQueue
  exact Nat.lt_of_lt_of_eq (Nat.lt_succ_self _) hQueue

theorem acceptOrder_perm
    (conn : Connection) :
    (acceptOrder conn.acceptQueue).Perm
      (ofPeer conn.acceptQueue) := by
  cases hLast : conn.acceptQueue.getLast? with
  | none =>
      rw [acceptOrder, ofPeer, hLast]
  | some entry =>
      let kind := AcceptEntry.isOf entry.srcAppId
        entry.srcHostId
      have hBefore : ∀ x ∈ conn.acceptQueue.dropLast.take 0,
          kind x = false := by
        simp
      have hTaken := (sweep_perm (length_dropLast_lt hLast)
        hBefore).1
      rw [acceptOrder, hLast]
      exact ofPeer_split hLast _ hTaken

/- With one peer: the last one, the first, and backwards. -/
theorem acceptOrder_onePeer
    {first last : AcceptEntry}
    {middle : List AcceptEntry}
    (hPeer : ∀ x ∈ first :: middle,
      x.isOf last.srcAppId last.srcHostId = true) :
    acceptOrder (first :: (middle ++ [last])) =
      last :: first :: middle.reverse := by
  have hLast : (first :: (middle ++ [last])).getLast? =
      some last := by
    rw [← List.cons_append, List.getLast?_concat]
  have hInit : (first :: (middle ++ [last])).dropLast =
      first :: middle := by
    rw [← List.cons_append, List.dropLast_concat]
  rw [acceptOrder, hLast]
  dsimp only
  rw [hInit, sweep_all _ hPeer]
  rw [List.length_cons, List.length_append,
    List.length_singleton]
  exact Nat.lt_succ_self _

/-
  If all is accounted for, the packets of the peer are worked
  on in that order, for the new connection.
-/
theorem replays_of_accounts
    (hInv : AcceptInvariant fmt cfg e)
    (hConn : e.conns c = some conn)
    (hLast : conn.acceptQueue.getLast? = some entry)
    (hFree : e.conns s = none)
    (hAccounts : Accounts fmt cfg c s fresh conn.acceptQueue
      e) :
    ∃ fuel e₂ e₅ rest,
      acceptEstablish fmt cfg c s fresh conn entry e =
        .ok e₂ ∧
      Run (Replays fmt cfg s)
        (e₂.setConn s (acceptedConn cfg fresh conn entry e))
        ((acceptOrder conn.acceptQueue).map
          AcceptEntry.packet) e₅ ∧
      nbAcceptLogged fmt cfg c s fresh fuel e =
        .ok (s, handedAll s (acceptOrder conn.acceptQueue),
          e₅.setConn c rest) := by
  have hNe : s ≠ c := by
    rintro rfl
    rw [hFree] at hConn
    cases hConn
  rcases hAccounts with
    ⟨fuel, result, log, e', conn', hAccept, -, hLog, -⟩
  rcases (nbAcceptLogged_ok_iff hConn hLast).mp hAccept with
    ⟨e₂, e₄, rest, hEstablish, hIngress, hLoop, rfl, rfl⟩
  rcases acceptEstablish_opens hNe hInv.entries hEstablish
    with ⟨-, hListener, hOpens⟩
  have hAll : ∀ handed ∈ (entry.packet,
      receiver fmt cfg entry.packet (e₂.setConn result
        (acceptedConn cfg fresh conn entry e))) :: rest,
      handed.2 = some result := by
    intro handed hMem
    rcases List.mem_map.mp (hLog.subset hMem) with
      ⟨x, -, rfl⟩
    rfl
  have hEntryOld : entry.packet < e.nextPacket :=
    hInv.queued c conn entry hConn
      (List.mem_of_getLast? hLast)
  have hFirst : Replays fmt cfg result (e₂.setConn result
      (acceptedConn cfg fresh conn entry e)) entry.packet e₄ :=
    ⟨(hOpens _ hEntryOld).1, hAll _ List.mem_cons_self,
      hIngress⟩
  have hListener₄ : e₄.conns c = some conn.popped := by
    rw [hFirst.conns_of_ne hNe, hListener]
  have hOld₄ : ∀ x ∈ conn.popped.acceptQueue,
      x.packet < e₄.nextPacket := by
    intro x hx
    have hMem := (List.dropLast_sublist _).subset hx
    exact Nat.lt_of_lt_of_le
      (hOpens _ (hInv.queued c conn x hConn hMem)).1
      hFirst.nextPacket_le
  rcases acceptLoopLogged_sweep hNe hListener₄ hOld₄ hLoop
    (fun handed hMem =>
      hAll handed (List.mem_cons_of_mem _ hMem)) with
    ⟨hFuel, e₅, hRun, hRest, hEnd⟩
  -- the sweep does not depend on the fuel
  have hOrder : acceptOrder conn.acceptQueue = entry ::
      (sweep (AcceptEntry.isOf entry.srcAppId
        entry.srcHostId) fuel 0 conn.popped.acceptQueue).1 := by
    rw [acceptOrder, hLast]
    exact congrArg (fun r => entry :: r.1)
      (sweep_fuel (length_dropLast_lt hLast) hFuel)
  have hHanded : (entry.packet, receiver fmt cfg entry.packet
      (e₂.setConn result (acceptedConn cfg fresh conn entry
        e))) :: rest =
      handedAll result (acceptOrder conn.acceptQueue) := by
    rw [hFirst.receiver, hRest, hOrder]
    rfl
  rw [hEnd, hHanded] at hAccept
  refine ⟨fuel, e₂, e₅, _, hEstablish, ?_, hAccept⟩
  rw [hOrder]
  exact .cons hFirst hRun

end Order

------------------------------------------------------------
-- What Parked Packets Tell
------------------------------------------------------------

/-
  What a packet tells a connection: data with its number
  and payload, or nothing, by an ack.
-/
inductive PacketFormat.Tells
    (fmt : PacketFormat P)
    (cfg : Config)
    (x : P) : Option (BitVec 32 × List Byte) → Prop
| data {number : BitVec 32} {bytes : List Byte} :
    (cfg.reliableEnabled = true →
      fmt.getWord .ackSequenceNumber x = 0) →
    fmt.Carries number bytes x →
    fmt.Tells cfg x (some (number, bytes))
| ack :
    cfg.reliableEnabled = true →
    fmt.getWord .ackSequenceNumber x ≠ 0 →
    fmt.Whole x →
    fmt.Tells cfg x none

section Replayed

variable
    {fmt : PacketFormat P}
    {cfg : Config}
    {c s : ConnPtr}
    {conn : Connection}
    {p : PacketPtr}
    {ps : List PacketPtr}
    {x y : P}
    {contents : PacketPtr → Option (BitVec 32 × List Byte)}
    {said : Option (BitVec 32 × List Byte)}
    {r : Receiver (BitVec 32) Slot Byte}
    {e e' : Endpoint P}

theorem PacketFormat.Tells.whole
    (hTells : fmt.Tells cfg x said) :
    fmt.Whole x := by
  cases hTells with
  | data _ hCarries => exact hCarries.whole
  | ack _ _ hWhole => exact hWhole

theorem PacketFormat.Tells.congr
    (hTells : fmt.Tells cfg x said)
    (hSame : fmt.SamePacket x y) :
    fmt.Tells cfg y said := by
  have hAck := hSame.getWord (f := .ackSequenceNumber) rfl
    (by decide)
  cases hTells with
  | data hZero hCarries =>
      exact .data (fun hOn => hAck.trans (hZero hOn))
        (hSame.carries _ _ hCarries)
  | ack hOn hNot hWhole =>
      apply PacketFormat.Tells.ack hOn _ (hSame.whole hWhole)
      rw [hAck]
      exact hNot

/- Data that is for a connection is data for it. -/
theorem Replays.dataReceiver_iff
    (hReplays : Replays fmt cfg s e p e')
    (hWhole : fmt.Whole (e.packets p)) :
    dataReceiver fmt cfg p e = some s ↔
      (cfg.reliableEnabled = true →
        fmt.getWord .ackSequenceNumber (e.packets p) = 0) := by
  rcases receiver_eq_some_iff.mp hReplays.receiver with
    ⟨y, hCheck, hHost, hLookup, hNe⟩
  have hAck : fmt.getWord .ackSequenceNumber y =
      fmt.getWord .ackSequenceNumber (e.packets p) :=
    (PacketFormat.SamePacket.checked hWhole hCheck).getWord rfl
      (by decide)
  rw [dataReceiver_eq_some_iff]
  constructor
  · rintro ⟨z, hz, -, -, -, hZero⟩ hOn
    cases hCheck.symm.trans hz
    rw [← hAck]
    exact hZero hOn
  · intro hZero
    refine ⟨y, hCheck, hHost, hLookup, ?_, ?_⟩
    · exact hNe
    · intro hOn
      rw [hAck]
      exact hZero hOn

theorem Replays.moves
    (hReplays : Replays fmt cfg s e p e') :
    Moves fmt cfg e (.accept (.replays p)) e' :=
  .accept (.replays trivial hReplays.handedOut
    hReplays.ingress)

/- A packet that is worked on again arrives now. -/
theorem Replays.related
    (hReplays : Replays fmt cfg s e p e')
    (hTells : fmt.Tells cfg (e.packets p) said)
    (hRelated : Related fmt cfg s e (some r)) :
    Related fmt cfg s e' (some (r.arriveAll sequenceNumbers
      cfg.inorderStrategy.policy said.toList)) := by
  have hReceiver := hReplays.dataReceiver_iff hTells.whole
  cases hTells with
  | data hZero hCarries =>
      rcases hRelated with ⟨conn, hConn, hHolds⟩
      exact hHolds.arrives hReplays.moves hConn rfl
        (hReceiver.mpr hZero) hCarries
  | ack hOn hNot _ =>
      apply hRelated.quiet hReplays.moves
      · intro hOpens
        cases hOpens
      · intro hEq
        cases hEq
      · intro q e₀ hProcesses hData
        cases hProcesses
        exact hNot (hReceiver.mp hData hOn)
      · intro maxLen hEq
        cases hEq

theorem related_of_replays
    (hRun : Run (Replays fmt cfg s) e ps e')
    (hOld : ∀ p ∈ ps, p < e.nextPacket)
    (hTells : ∀ p ∈ ps, fmt.Tells cfg (e.packets p) (contents p))
    (hRelated : Related fmt cfg s e (some r)) :
    Related fmt cfg s e' (some (r.arriveAll sequenceNumbers
      cfg.inorderStrategy.policy (ps.filterMap contents))) := by
  induction hRun generalizing r with
  | nil e => exact hRelated
  | @cons e e₁ e' p ps hReplays _ ih =>
      have hFirst := hReplays.related
        (hTells p List.mem_cons_self) hRelated
      have hRest := ih
        (fun q hq => Nat.lt_of_lt_of_le
          (hOld q (List.mem_cons_of_mem p hq))
          hReplays.nextPacket_le)
        (fun q hq => by
          have hThen := hTells q (List.mem_cons_of_mem p hq)
          exact hThen.congr (hReplays.moves.samePacket
            (hOld q (List.mem_cons_of_mem p hq)) hThen.whole))
        hFirst
      have hAll : (p :: ps).filterMap contents =
          (contents p).toList ++ ps.filterMap contents := by
        cases hSaid : contents p with
        | none => rw [List.filterMap_cons_none hSaid]; rfl
        | some x => rw [List.filterMap_cons_some hSaid]; rfl
      rw [hAll, Receiver.arriveAll, List.foldl_append]
      exact hRest

/- Other connections do not matter. -/
theorem Related.setConn
    (hNe : s ≠ c)
    (hRelated : Related fmt cfg s e (some r)) :
    Related fmt cfg s (e.setConn c conn) (some r) := by
  rcases hRelated with ⟨connS, hConn, hHolds⟩
  refine ⟨connS, ?_, hHolds.buffer, ?_⟩
  · rw [Endpoint.setConn_conns_of_ne _ _ hNe, hConn]
  · exact hHolds.queue.imp (fun _ _ hQueues =>
      ⟨hQueues.holds, hQueues.size, hQueues.some⟩)

end Replayed

------------------------------------------------------------
-- What a New Connection Holds
------------------------------------------------------------

/- What is received of parked packets, in their order. -/
def acceptArrivals
    (contents : PacketPtr → Option (BitVec 32 × List Byte))
    (q : AcceptQueue) : List (BitVec 32 × List Byte) :=
  (acceptOrder q).filterMap (fun x => contents x.packet)

section Accepted

variable
    {fmt : PacketFormat P}
    {cfg : Config}
    {c s : ConnPtr}
    {conn fresh : Connection}
    {contents : PacketPtr → Option (BitVec 32 × List Byte)}
    {e : Endpoint P}

/-
  A connection that `nb__accept` opens holds what a receiver
  does that got the parked packets in the order of replays.
-/
theorem related_of_accounts
    (hInv : AcceptInvariant fmt cfg e)
    (hConn : e.conns c = some conn)
    (hSome : conn.acceptQueue ≠ [])
    (hFree : e.conns s = none)
    (hTells : ∀ x ∈ ofPeer conn.acceptQueue,
      fmt.Tells cfg (e.packets x.packet) (contents x.packet))
    (hAccounts : Accounts fmt cfg c s fresh conn.acceptQueue
      e) :
    ∃ fuel e', nbAccept fmt cfg c s fresh fuel e =
        .ok (s, e') ∧
      Related fmt cfg s e' (some
        ((Receiver.blank sequenceNumbers).arriveAll
          sequenceNumbers cfg.inorderStrategy.policy
          (acceptArrivals contents conn.acceptQueue))) := by
  have hNe : s ≠ c := by
    rintro rfl
    rw [hFree] at hConn
    cases hConn
  rcases Option.isSome_iff_exists.mp
      (List.getLast?_isSome.mpr hSome) with ⟨entry, hLast⟩
  rcases replays_of_accounts hInv hConn hLast hFree hAccounts
    with ⟨fuel, e₂, e₅, rest, hEstablish, hRun, hAccept⟩
  refine ⟨fuel, e₅.setConn c rest, ?_, ?_⟩
  · rw [← nbAcceptLogged_erase, hAccept]
    rfl
  · rcases nbEstablish_frame hEstablish with
      ⟨-, -, -, -, hNext, hPackets⟩
    have hQueued := fun x hx => hInv.queued c conn x hConn hx
    have hMem : ∀ p ∈ (acceptOrder conn.acceptQueue).map
        AcceptEntry.packet, p < e.nextPacket ∧
          fmt.Tells cfg (e.packets p) (contents p) := by
      intro p hp
      rcases List.mem_map.mp hp with ⟨x, hx, rfl⟩
      have hPeer := (acceptOrder_perm conn).subset hx
      refine ⟨?_, hTells x hPeer⟩
      exact ((nodup_of_ofPeer hInv hConn
        (acceptOrder_perm conn)).2 _ hp).2
    have hArrived : acceptArrivals contents conn.acceptQueue =
        ((acceptOrder conn.acceptQueue).map
          AcceptEntry.packet).filterMap contents := by
      rw [List.filterMap_map]
      rfl
    rw [hArrived]
    apply Related.setConn hNe
    apply related_of_replays hRun
    · intro p hp
      exact Nat.lt_of_lt_of_le (hMem p hp).1 hNext
    · intro p hp
      have hKept : e₂.packets p = e.packets p :=
        hPackets p (Or.inl (hMem p hp).1)
      change fmt.Tells cfg (e₂.packets p) (contents p)
      rw [hKept]
      exact (hMem p hp).2
    · let host := entry.srcHostId.setWidth 32
      have hBlank : HoldsAll fmt cfg
          (e₂.setConn s (acceptedConn cfg fresh conn entry e))
          (openedConn cfg fresh (e.hostLocalId host) host
            entry.srcAppId conn.localAppId e.nextPacket)
          (.blank sequenceNumbers) := holdsAll_blank _
      exact ⟨_, Endpoint.setConn_conns_self _ _ _,
        hBlank.buffer, hBlank.queue⟩

end Accepted

------------------------------------------------------------
-- Runs
------------------------------------------------------------

section Runs

variable
    {fmt : PacketFormat P}
    {cfg : Config}
    {c d s : ConnPtr}
    {conn fresh : Connection}
    {freshState : NetState}
    {calls : List (ApiCall P)}
    {contents : PacketPtr → Option (BitVec 32 × List Byte)}
    {e e₀ f f' : Endpoint P}

theorem acceptInvariant_of_run
    (hConns : ∀ c, e₀.conns c = none)
    (hHead : e₀.timers.timersHead = none)
    (hRun : Run (ApiCalls fmt cfg) (nbNetInit freshState e₀)
      calls e) :
    AcceptInvariant fmt cfg e :=
  hRun.invariant
    (fun _ _ _ hInv hCall => hCall.acceptInvariant hInv)
    (acceptInvariant_netInit freshState hConns hHead)

/-
  After any run, if all parked packets are of one peer, then
  `nb__accept` processes the newest of them first, then the
  oldest, and the others from the newest to the oldest.
-/
theorem acceptsInOrder_of_run
    {first last : AcceptEntry}
    {middle : List AcceptEntry}
    (hConns : ∀ c, e₀.conns c = none)
    (hHead : e₀.timers.timersHead = none)
    (hRun : Run (ApiCalls fmt cfg) (nbNetInit freshState e₀)
      calls e)
    (hBuffers : SendBuffers fmt cfg e)
    (hConn : e.conns c = some conn)
    (hNull : s ≠ 0)
    (hFree : e.conns s = none)
    (hAcceptable : Acceptable fmt cfg s fresh conn e)
    (hQueue : conn.acceptQueue = first :: (middle ++ [last]))
    (hPeer : ∀ x ∈ first :: middle,
      x.isOf last.srcAppId last.srcHostId = true) :
    ∃ fuel e', nbAcceptLogged fmt cfg c s fresh fuel e =
      .ok (s, handedAll s (last :: first :: middle.reverse),
        e') := by
  have hInv := acceptInvariant_of_run hConns hHead hRun
  have hLast : conn.acceptQueue.getLast? = some last := by
    rw [hQueue, ← List.cons_append, List.getLast?_concat]
  rcases replays_of_accounts hInv hConn hLast hFree
      (accounts_of_acceptable hInv hBuffers hConn hNull hFree
        hAcceptable) with
    ⟨fuel, e₂, e₅, rest, -, -, hAccept⟩
  refine ⟨fuel, e₅.setConn c rest, ?_⟩
  rw [hAccept, hQueue, acceptOrder_onePeer hPeer]

/-
  After any run, `nb__accept` leaves the new connection with
  what a connection holds that was opened first, on any host,
  when the same data reaches it in the order of replays.
-/
theorem acceptedAsEarly_of_run
    {events : List (Event (BitVec 32) Byte)}
    (hPrefixes : fmt.ReadsPrefixes)
    (hConns : ∀ c, e₀.conns c = none)
    (hHead : e₀.timers.timersHead = none)
    (hRun : Run (ApiCalls fmt cfg) (nbNetInit freshState e₀)
      calls e)
    (hBuffers : SendBuffers fmt cfg e)
    (hConn : e.conns c = some conn)
    (hSome : conn.acceptQueue ≠ [])
    (hNull : s ≠ 0)
    (hFree : e.conns s = none)
    (hAcceptable : Acceptable fmt cfg s fresh conn e)
    (hTells : ∀ x ∈ ofPeer conn.acceptQueue,
      fmt.Tells cfg (e.packets x.packet) (contents x.packet))
    (hClosed : f.conns d = none)
    (hEarly : Run (Observed fmt cfg d) f events f')
    (hArrivals : events.filter Event.isHeard = .opens ::
      (acceptArrivals contents conn.acceptQueue).map
        (fun x => .arrives x.1 x.2)) :
    ∃ fuel e' r, nbAccept fmt cfg c s fresh fuel e =
        .ok (s, e') ∧
      Related fmt cfg s e' (some r) ∧
      Related fmt cfg d f' (some r) := by
  have hInv := acceptInvariant_of_run hConns hHead hRun
  rcases related_of_accounts hInv hConn hSome hFree hTells
      (accounts_of_acceptable hInv hBuffers hConn hNull hFree
        hAcceptable) with
    ⟨fuel, e', hAccept, hRelated⟩
  rcases related_of_run hPrefixes (show Related fmt cfg d f none
      from hClosed) hEarly with ⟨abs, hSteps, hSame⟩
  rw [Receiver.eq_of_opened_run hSteps hArrivals] at hSame
  exact ⟨fuel, e', _, hAccept, hRelated, hSame⟩

/- The newest packet is replayed first, behind it old ones. -/
theorem arrivals_of_newest
    {entry : AcceptEntry}
    {number : BitVec 32}
    {bytes : List Byte}
    (hNodup : ((acceptOrder conn.acceptQueue).map
      AcceptEntry.packet).Nodup)
    (hLast : conn.acceptQueue.getLast? = some entry)
    (hNewest : contents entry.packet = some (number, bytes))
    (hOlder : ∀ x ∈ ofPeer conn.acceptQueue, x ≠ entry →
      ∀ m payload, contents x.packet = some (m, payload) →
        0 < m ∧ m < number) :
    ∃ older, acceptArrivals contents conn.acceptQueue =
        (number, bytes) :: older ∧
      ∀ x ∈ older, ¬ number < x.1 ∧
        x.1 ≠ sequenceNumbers.next number := by
  have hOrder : ∃ order, acceptOrder conn.acceptQueue =
      entry :: order := by
    rw [acceptOrder, hLast]
    exact ⟨_, rfl⟩
  rcases hOrder with ⟨order, hOrder⟩
  rw [hOrder, List.map_cons] at hNodup
  refine ⟨order.filterMap (fun x => contents x.packet), ?_, ?_⟩
  · rw [acceptArrivals, hOrder]
    exact List.filterMap_cons_some hNewest
  · intro x hx
    rcases List.mem_filterMap.mp hx with ⟨y, hy, hContents⟩
    have hPeer : y ∈ ofPeer conn.acceptQueue := by
      apply (acceptOrder_perm conn).subset
      rw [hOrder]
      exact List.mem_cons_of_mem _ hy
    have hOther : y ≠ entry := by
      rintro rfl
      exact (List.nodup_cons.mp hNodup).1
        (List.mem_map_of_mem hy)
    rcases hOlder y hPeer hOther x.1 x.2 hContents with
      ⟨hPos, hLess⟩
    have hNext : sequenceNumbers.next number = number + 1 :=
      rfl
    rw [hNext]
    refine ⟨?_, ?_⟩ <;> bv_omega

/- An inorder module queues none of the old ones. -/
theorem queue_of_newest
    {number : BitVec 32}
    {bytes : List Byte}
    {older : List (BitVec 32 × List Byte)}
    (hInorder : cfg.inorderStrategy ≠ .noInorder)
    (hNumber : 0 < number)
    (hNe : bytes ≠ [])
    (hOld : ∀ x ∈ older, ¬ number < x.1 ∧
      x.1 ≠ sequenceNumbers.next number) :
    ((Receiver.blank sequenceNumbers :
        Receiver (BitVec 32) Slot Byte).arriveAll
      sequenceNumbers cfg.inorderStrategy.policy
      ((number, bytes) :: older)).queue = [bytes] := by
  rw [Receiver.arriveAll_newest _ hNumber _ hOld]
  · rw [List.filter_cons_of_pos (by simpa using hNe)]
    rfl
  · cases hStrategy : cfg.inorderStrategy with
    | noInorder => exact absurd hStrategy hInorder
    | dropOutOfOrder => exact fun hEq => nomatch hEq
    | holdForever => exact fun hEq => nomatch hEq
  · intro hZero
    rw [hZero] at hNumber
    exact absurd hNumber (BitVec.lt_irrefl 0)

/-
  So if packets come in the order of their numbers and an
  inorder module is there, all that can be read after
  `nb__accept` is the payload of the last one.
-/
theorem acceptsNewest_of_run
    {entry : AcceptEntry}
    {number : BitVec 32}
    {bytes : List Byte}
    (hConns : ∀ c, e₀.conns c = none)
    (hHead : e₀.timers.timersHead = none)
    (hRun : Run (ApiCalls fmt cfg) (nbNetInit freshState e₀)
      calls e)
    (hBuffers : SendBuffers fmt cfg e)
    (hConn : e.conns c = some conn)
    (hNull : s ≠ 0)
    (hFree : e.conns s = none)
    (hAcceptable : Acceptable fmt cfg s fresh conn e)
    (hTells : ∀ x ∈ ofPeer conn.acceptQueue,
      fmt.Tells cfg (e.packets x.packet) (contents x.packet))
    (hInorder : cfg.inorderStrategy ≠ .noInorder)
    (hLast : conn.acceptQueue.getLast? = some entry)
    (hNewest : contents entry.packet = some (number, bytes))
    (hNumber : 0 < number)
    (hNe : bytes ≠ [])
    (hOlder : ∀ x ∈ ofPeer conn.acceptQueue, x ≠ entry →
      ∀ m payload, contents x.packet = some (m, payload) →
        0 < m ∧ m < number) :
    ∃ fuel e' conn', nbAccept fmt cfg c s fresh fuel e =
        .ok (s, e') ∧
      e'.conns s = some conn' ∧
      List.Forall₂ (QueuesPayload fmt e') conn'.inputQueue
        [bytes] := by
  have hInv := acceptInvariant_of_run hConns hHead hRun
  have hSome : conn.acceptQueue ≠ [] := by
    rintro hNil
    rw [hNil] at hLast
    cases hLast
  rcases related_of_accounts hInv hConn hSome hFree hTells
      (accounts_of_acceptable hInv hBuffers hConn hNull hFree
        hAcceptable) with
    ⟨fuel, e', hAccept, conn', hConn', hHolds⟩
  refine ⟨fuel, e', conn', hAccept, hConn', ?_⟩
  have hNodup := (nodup_of_ofPeer hInv hConn
    (acceptOrder_perm conn)).1
  rcases arrivals_of_newest hNodup hLast hNewest hOlder with
    ⟨older, hArrivals, hOld⟩
  have hQueue := hHolds.queue
  rw [hArrivals, queue_of_newest hInorder hNumber hNe hOld]
    at hQueue
  exact hQueue

end Runs

------------------------------------------------------------
-- Three Parked Packets
------------------------------------------------------------

/- A stack that holds packets that come too early -/
def parkingConfig : Config :=
  { plainConfig .srcDstIdentifier with
    inorderStrategy := .holdForever }

/- A packet of app 8 at host 9, with a number and a byte -/
def numberedPacket
    (number : BitVec 64) : PacketBuffer :=
  (packetToSeven 9 8).setInteger .sequenceNumber number

/- Three packets are parked, in the order of their numbers. -/
def parkThree : Except Fault (Endpoint PacketBuffer) := do
  let e ← nbEstablish netPacketFormat parkingConfig 1
    blankConnection 0 0 7 bareStack
  let e ← ingress netPacketFormat parkingConfig
    (numberedPacket 1011) 39 e
  let e ← ingress netPacketFormat parkingConfig
    (numberedPacket 1012) 39 e
  ingress netPacketFormat parkingConfig
    (numberedPacket 1013) 39 e

theorem parkThree_run
    {e : Endpoint PacketBuffer}
    (hPark : parkThree = .ok e) :
    ∃ calls, Run (ApiCalls netPacketFormat parkingConfig)
      bareStack calls e := by
  rcases bind_eq_ok_iff.mp hPark with ⟨e₁, hOpens, h₁⟩
  rcases bind_eq_ok_iff.mp h₁ with ⟨e₂, hFirst, h₂⟩
  rcases bind_eq_ok_iff.mp h₂ with ⟨e₃, hSecond, hThird⟩
  exact ⟨_, .cons (.call (.establish (by decide) rfl hOpens))
    (.cons (.call (.ingress hFirst))
      (.cons (.call (.ingress hSecond))
        (.cons (.call (.ingress hThird)) (.nil e))))⟩

/- What each of them tells -/
def threeContents
    (p : PacketPtr) : Option (BitVec 32 × List Byte) :=
  some (BitVec.ofNat 32 (1011 + p), [0])

theorem parkThree_tells
    {e : Endpoint PacketBuffer}
    (hPark : parkThree = .ok e) :
    ∀ p ∈ [0, 1, 2], netPacketFormat.Tells parkingConfig
      (e.packets p) (threeContents p) := by
  have hTable : (do
      let e ← parkThree
      let x ← netPacketFormat.readPayload 1 (e.packets 0)
      let y ← netPacketFormat.readPayload 1 (e.packets 1)
      let z ← netPacketFormat.readPayload 1 (e.packets 2)
      return ([x, y, z], [0, 1, 2].map (fun p =>
        (netPacketFormat.getWord .sequenceNumber (e.packets p),
          netPacketFormat.getWord .totalLen
            (e.packets p))))) =
      .ok ([[0], [0], [0]],
        [(1011, 39), (1012, 39), (1013, 39)]) := by
    decide +kernel
  rw [hPark, ok_bind] at hTable
  rcases bind_eq_ok_iff.mp hTable with ⟨x, hX, h₁⟩
  rcases bind_eq_ok_iff.mp h₁ with ⟨y, hY, h₂⟩
  rcases bind_eq_ok_iff.mp h₂ with ⟨z, hZ, hEnd⟩
  simp only [pure_eq_ok, Except.ok.injEq, Prod.mk.injEq,
    List.map_cons, List.map_nil, List.cons.injEq, and_true]
    at hEnd
  rcases hEnd with ⟨⟨rfl, rfl, rfl⟩, ⟨hFirst, hLen₀⟩,
    ⟨hSecond, hLen₁⟩, hThird, hLen₂⟩
  have hOff : parkingConfig.reliableEnabled ≠ true := by
    decide
  intro p hp
  simp only [List.mem_cons, List.not_mem_nil, or_false] at hp
  rcases hp with rfl | rfl | rfl
  · exact .data (fun hOn => absurd hOn hOff)
      ⟨hFirst, hLen₀, by decide, fun _ => hX⟩
  · exact .data (fun hOn => absurd hOn hOff)
      ⟨hSecond, hLen₁, by decide, fun _ => hY⟩
  · exact .data (fun hOn => absurd hOn hOff)
      ⟨hThird, hLen₂, by decide, fun _ => hZ⟩

/- What the listener holds, and that it can be accepted -/
theorem exists_parkThree :
    ∃ (e : Endpoint PacketBuffer) (conn : Connection)
        (calls : List (ApiCall PacketBuffer)),
      Run (ApiCalls netPacketFormat parkingConfig) bareStack
        calls e ∧
      e.conns 1 = some conn ∧ e.conns 2 = none ∧
      conn.acceptQueue =
        [⟨8, 9, 0⟩, ⟨8, 9, 1⟩, ⟨8, 9, 2⟩] ∧
      Acceptable netPacketFormat parkingConfig 2
        blankConnection conn e ∧
      ∀ x ∈ ofPeer conn.acceptQueue,
        netPacketFormat.Tells parkingConfig
          (e.packets x.packet) (threeContents x.packet) := by
  have hParked : (do
      let e ← parkThree
      return ((e.conns 1).map Connection.acceptQueue,
        (e.conns 2).isNone)) =
      .ok (some [⟨8, 9, 0⟩, ⟨8, 9, 1⟩, ⟨8, 9, 2⟩], true) := by
    decide +kernel
  have hAccepted : (do
      let e ← parkThree
      let (_, log, e') ← nbAcceptLogged netPacketFormat
        parkingConfig 1 2 blankConnection 4 e
      return (log, (e'.conns 1).map Connection.acceptQueue)) =
      .ok ([(2, some 2), (0, some 2), (1, some 2)],
        some []) := by
    decide +kernel
  rcases bind_eq_ok_iff.mp hParked with ⟨e, hPark, hEnd⟩
  rw [hPark, ok_bind] at hAccepted
  rcases bind_eq_ok_iff.mp hAccepted with
    ⟨⟨result, log, e'⟩, hAccept, hEnd'⟩
  simp only [pure_eq_ok, Except.ok.injEq, Prod.mk.injEq,
    Option.isNone_iff_eq_none, Option.map_eq_some_iff]
    at hEnd hEnd'
  rcases hEnd with ⟨⟨conn, hConn, hQueue⟩, hFree⟩
  rcases hEnd' with ⟨hLog, conn', hConn', hQueue'⟩
  rcases parkThree_run hPark with ⟨calls, hRun⟩
  have hInv : AcceptInvariant netPacketFormat parkingConfig e :=
    acceptInvariant_of_run (fun _ => rfl) rfl hRun
  have hAccounts : Accounts netPacketFormat parkingConfig 1 2
      blankConnection conn.acceptQueue e := by
    refine ⟨4, result, log, e', conn', hAccept, hConn', ?_,
      ?_⟩
    · rw [hLog, hQueue]
      decide
    · rw [hQueue', hQueue]
      decide
  refine ⟨e, conn, calls, hRun, hConn, hFree, hQueue,
    acceptable_of_accounts hInv hConn (by decide) hFree
      hAccounts, ?_⟩
  intro x hx
  apply parkThree_tells hPark
  rw [hQueue] at hx
  have hPackets : ∀ y ∈ ofPeer [⟨8, 9, 0⟩, ⟨8, 9, 1⟩,
      ⟨8, 9, 2⟩], y.packet ∈ [0, 1, 2] := by
    decide
  exact hPackets x hx

theorem acceptsInOrder_of_run_three :
    ∃ (e : Endpoint PacketBuffer) (fuel : Nat)
        (e' : Endpoint PacketBuffer),
      nbAcceptLogged netPacketFormat parkingConfig 1 2
          blankConnection fuel e =
        .ok (2, [(2, some 2), (0, some 2), (1, some 2)],
          e') := by
  rcases exists_parkThree with
    ⟨e, conn, calls, hRun, hConn, hFree, hQueue, hAcceptable,
      -⟩
  let first : AcceptEntry := ⟨8, 9, 0⟩
  let second : AcceptEntry := ⟨8, 9, 1⟩
  let last : AcceptEntry := ⟨8, 9, 2⟩
  have hPeer : ∀ x ∈ [first, second],
      x.isOf last.srcAppId last.srcHostId = true := by
    decide
  rcases acceptsInOrder_of_run (fun _ => rfl) rfl hRun
      (sendBuffers_of_off rfl) hConn (by decide) hFree
      hAcceptable hQueue hPeer with
    ⟨fuel, e', hAccept⟩
  exact ⟨e, fuel, e', hAccept⟩

theorem acceptsNewest_of_run_three :
    ∃ (e' : Endpoint PacketBuffer) (conn' : Connection),
      e'.conns 2 = some conn' ∧
      List.Forall₂ (QueuesPayload netPacketFormat e')
        conn'.inputQueue [[0]] := by
  rcases exists_parkThree with
    ⟨e, conn, calls, hRun, hConn, hFree, hQueue, hAcceptable,
      hTells⟩
  let last : AcceptEntry := ⟨8, 9, 2⟩
  have hLast : conn.acceptQueue.getLast? = some last := by
    rw [hQueue]
    rfl
  have hNumbers : ∀ x ∈ ofPeer [⟨8, 9, 0⟩, ⟨8, 9, 1⟩, last],
      x ≠ last →
        0 < BitVec.ofNat 32 (1011 + x.packet) ∧
          BitVec.ofNat 32 (1011 + x.packet) < 1013 := by
    decide
  have hOlder : ∀ x ∈ ofPeer conn.acceptQueue, x ≠ last →
      ∀ m payload, threeContents x.packet =
        some (m, payload) → 0 < m ∧ m < 1013 := by
    intro x hx hNe m payload hContents
    rw [hQueue] at hx
    cases hContents
    exact hNumbers x hx hNe
  rcases acceptsNewest_of_run (fun _ => rfl) rfl hRun
      (sendBuffers_of_off rfl) hConn (by decide) hFree
      hAcceptable hTells (by decide) hLast rfl (by decide)
      (by decide) hOlder with
    ⟨fuel, e', conn', -, hConn', hReadable⟩
  exact ⟨e', conn', hConn', hReadable⟩

theorem carries_numberedPacket
    {n : BitVec 64}
    {number : BitVec 32}
    (hTable : (netPacketFormat.getWord .sequenceNumber
          (numberedPacket n),
        netPacketFormat.getWord .totalLen (numberedPacket n),
        netPacketFormat.readPayload 1 (numberedPacket n)) =
      (number, 39, .ok [0])) :
    netPacketFormat.Carries number [0] (numberedPacket n) := by
  rw [Prod.mk.injEq, Prod.mk.injEq] at hTable
  rcases hTable with ⟨hNumber, hLen, hPayload⟩
  exact ⟨hNumber, hLen, by decide, fun _ => hPayload⟩

theorem acceptedAsEarly_of_run_three :
    ∃ (e' f' : Endpoint PacketBuffer)
        (r : Receiver (BitVec 32) Slot Byte),
      Related netPacketFormat parkingConfig 2 e' (some r) ∧
        Related netPacketFormat parkingConfig 2 f'
          (some r) := by
  rcases exists_parkThree with
    ⟨e, conn, calls, hRun, hConn, hFree, hQueue, hAcceptable,
      hTells⟩
  let receives := fun (e : Endpoint PacketBuffer) number =>
    dataReceiver netPacketFormat parkingConfig e.nextPacket
      (e.polled (numberedPacket number))
  have hTable : (do
      let e₁ ← nbEstablish netPacketFormat parkingConfig 2
        blankConnection 9 8 7 bareStack
      let e₂ ← ingress netPacketFormat parkingConfig
        (numberedPacket 1013) 39 e₁
      let e₃ ← ingress netPacketFormat parkingConfig
        (numberedPacket 1011) 39 e₂
      let _ ← ingress netPacketFormat parkingConfig
        (numberedPacket 1012) 39 e₃
      return [receives e₁ 1013, receives e₂ 1011,
        receives e₃ 1012]) =
      .ok [some 2, some 2, some 2] := by
    decide +kernel
  rcases bind_eq_ok_iff.mp hTable with ⟨e₁, hOpens, h₁⟩
  rcases bind_eq_ok_iff.mp h₁ with ⟨e₂, hFirst, h₂⟩
  rcases bind_eq_ok_iff.mp h₂ with ⟨e₃, hSecond, h₃⟩
  rcases bind_eq_ok_iff.mp h₃ with ⟨e₄, hThird, hEnd⟩
  simp only [pure_eq_ok, Except.ok.injEq, List.cons.injEq,
    and_true] at hEnd
  rcases hEnd with ⟨hTo₁, hTo₂, hTo₃⟩
  have hEarly : Run (Observed netPacketFormat parkingConfig 2)
      bareStack [.opens, .arrives 1013 [0],
        .arrives 1011 [0], .arrives 1012 [0]] e₄ :=
    .cons ⟨_, .call (.establish (by decide) rfl hOpens),
      .opens rfl⟩
    (.cons (observed_ingress hFirst hTo₁
      (carries_numberedPacket (by decide +kernel)))
    (.cons (observed_ingress hSecond hTo₂
      (carries_numberedPacket (by decide +kernel)))
    (.cons (observed_ingress hThird hTo₃
      (carries_numberedPacket (by decide +kernel)))
      (.nil _))))
  have hSome : conn.acceptQueue ≠ [] := by
    rw [hQueue]
    exact List.cons_ne_nil _ _
  rcases acceptedAsEarly_of_run netPacketFormat_readsPrefixes
      (fun _ => rfl) rfl hRun (sendBuffers_of_off rfl) hConn
      hSome (by decide) hFree hAcceptable hTells rfl hEarly
      (by rw [hQueue]; rfl) with
    ⟨fuel, e', r, -, hAccepted, hOpened⟩
  exact ⟨e', e₄, r, hAccepted, hOpened⟩

end NetBlocks
