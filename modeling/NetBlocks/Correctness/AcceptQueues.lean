import NetBlocks.Core.ApiCalls
import NetBlocks.Lib.SwapRemoval
import Mathlib.Data.List.Nodup

/-
  The packets in accept queues over whole runs: each is in
  one place of one queue, and no queue is longer than its
  array.

  Main declarations:
    * `Endpoint.parkedAt`
    * `QueuesApart`
    * `ApiCalls.queuesApart`
-/

namespace NetBlocks

open Except TransitionSystem SwapRemoval

variable {P : Type}

------------------------------------------------------------
-- Parked Packets
------------------------------------------------------------

/- The packets in the accept queue of a connection, if any. -/
def Endpoint.parkedAt
    (e : Endpoint P)
    (c : ConnPtr) : List PacketPtr :=
  ((e.conns c).map (fun conn =>
    conn.acceptQueue.map AcceptEntry.packet)).getD []

/-
  No packet is in two places, and no queue is longer than the
  array it is in.
-/
structure QueuesApart
    (parked : ConnPtr → List PacketPtr) : Prop where
  nodup : ∀ c, (parked c).Nodup
  apart : ∀ c d p, p ∈ parked c → p ∈ parked d → c = d
  short : ∀ c, (parked c).length ≤ maxAcceptQueueElems

namespace QueuesApart

variable
    {parked : ConnPtr → List PacketPtr}
    {c : ConnPtr}
    {p : PacketPtr}
    {i : Nat}

/- Packets are only taken out of a queue. -/
theorem shrink
    {q : List PacketPtr}
    (hApart : QueuesApart parked)
    (hNodup : q.Nodup)
    (hSubset : ∀ p ∈ q, p ∈ parked c)
    (hLength : q.length ≤ (parked c).length) :
    QueuesApart (Function.update parked c q) := by
  have hFewer : ∀ d p,
      p ∈ Function.update parked c q d → p ∈ parked d := by
    intro d p hp
    rw [Function.update_apply] at hp
    split at hp
    · next hEq => exact hEq ▸ hSubset p hp
    · exact hp
  refine ⟨?_, ?_, ?_⟩
  · intro d
    rw [Function.update_apply]
    split
    · exact hNodup
    · exact hApart.nodup d
  · intro d d' p hp hp'
    exact hApart.apart d d' p (hFewer d p hp) (hFewer d' p hp')
  · intro d
    rw [Function.update_apply]
    split
    · exact Nat.le_trans hLength (hApart.short c)
    · exact hApart.short d

/- A packet that is in no queue is put behind one. -/
theorem park
    (hApart : QueuesApart parked)
    (hNew : ∀ d, p ∉ parked d)
    (hRoom : (parked c).length < maxAcceptQueueElems) :
    QueuesApart (Function.update parked c
      (parked c ++ [p])) := by
  have hCases : ∀ d q,
      q ∈ Function.update parked c (parked c ++ [p]) d →
        q ∈ parked d ∨ q = p ∧ d = c := by
    intro d q hq
    rw [Function.update_apply] at hq
    split at hq
    · next hEq =>
        rcases List.mem_append.mp hq with hq | hq
        · exact Or.inl (hEq ▸ hq)
        · exact Or.inr ⟨List.mem_singleton.mp hq, hEq⟩
    · exact Or.inl hq
  refine ⟨?_, ?_, ?_⟩
  · intro d
    rw [Function.update_apply]
    split
    · exact List.nodup_append.mpr ⟨hApart.nodup c,
        List.nodup_singleton p, by
          rintro q hq q' hq' rfl
          exact hNew c (List.mem_singleton.mp hq' ▸ hq)⟩
    · exact hApart.nodup d
  · intro d d' q hq hq'
    rcases hCases d q hq with hOld | ⟨hEq, hAt⟩
    · rcases hCases d' q hq' with hOld' | ⟨hEq', -⟩
      · exact hApart.apart d d' q hOld hOld'
      · exact absurd (hEq' ▸ hOld) (hNew d)
    · rcases hCases d' q hq' with hOld' | ⟨-, hAt'⟩
      · exact absurd (hEq ▸ hOld') (hNew d')
      · rw [hAt, hAt']
  · intro d
    rw [Function.update_apply]
    split
    · rw [List.length_append, List.length_singleton]
      exact hRoom
    · exact hApart.short d

/- A queue without one of its packets, which is in no other. -/
theorem remove
    (hApart : QueuesApart parked)
    (hp : (parked c)[i]? = some p) :
    QueuesApart (Function.update parked c
        (removeAt (parked c) i)) ∧
      ∀ d, p ∉ Function.update parked c
        (removeAt (parked c) i) d := by
  have hPerm := removeAt_perm hp
  have hNodup := List.nodup_cons.mp
    (hPerm.nodup_iff.mpr (hApart.nodup c))
  refine ⟨hApart.shrink hNodup.2 (fun q hq =>
    hPerm.subset (List.mem_cons_of_mem _ hq)) ?_, ?_⟩
  · have hLength := hPerm.length_eq
    rw [List.length_cons] at hLength
    omega
  · intro d hMem
    rw [Function.update_apply] at hMem
    split at hMem
    · exact hNodup.1 hMem
    · next hNe =>
        exact hNe (hApart.apart d c p hMem
          (List.mem_of_getElem? hp))

end QueuesApart

------------------------------------------------------------
-- What Parks a Packet
------------------------------------------------------------

/-
  The packet at `p` was put behind the packets of a queue
  that had room, or the queues are as they were.
-/
def ParksAtMost
    (p : PacketPtr)
    (e e' : Endpoint P) : Prop :=
  e'.parkedAt = e.parkedAt ∨
    ∃ l, (e.parkedAt l).length < maxAcceptQueueElems ∧
      e'.parkedAt = Function.update e.parkedAt l
        (e.parkedAt l ++ [p])

section Parks

variable
    {fmt : PacketFormat P}
    {cfg : Config}
    {c : ConnPtr}
    {p : PacketPtr}
    {conn conn' : Connection}
    {e e' : Endpoint P}

theorem parkedAt_of_conn
    (hConn : e.conns c = some conn) :
    e.parkedAt c =
      conn.acceptQueue.map AcceptEntry.packet := by
  rw [Endpoint.parkedAt, hConn]
  rfl

theorem parkedAt_of_conns_eq
    (hConns : e'.conns = e.conns) :
    e'.parkedAt = e.parkedAt := by
  funext c
  rw [Endpoint.parkedAt, hConns]
  rfl

theorem parkedAt_of_update
    {object : Option Connection}
    (hConns : e'.conns = Function.update e.conns c object) :
    e'.parkedAt = Function.update e.parkedAt c
      ((object.map (fun conn =>
        conn.acceptQueue.map AcceptEntry.packet)).getD []) := by
  funext d
  rw [Endpoint.parkedAt, hConns]
  by_cases hEq : d = c
  · rw [hEq, Function.update_self, Function.update_self]
  · rw [Function.update_of_ne hEq, Function.update_of_ne hEq]
    rfl

/- An object with the same queue is assigned. -/
theorem parkedAt_of_assign
    (hConn : e.conns c = some conn)
    (hConns : e'.conns =
      Function.update e.conns c (some conn'))
    (hQueue : conn'.acceptQueue = conn.acceptQueue) :
    e'.parkedAt = e.parkedAt := by
  rw [parkedAt_of_update hConns, Option.map_some,
    Option.getD_some, hQueue, ← parkedAt_of_conn hConn]
  exact Function.update_eq_self c e.parkedAt

/- Behind the lookup, no packet is parked. -/
theorem BackResult.parkedAt
    {status : HookStatus}
    (hBack : BackResult fmt cfg p c e status e') :
    e'.parkedAt = e.parkedAt := by
  cases hBack with
  | ack _ _ hReceive =>
      rcases receiveAck_ok_iff.mp hReceive with
        ⟨conn, hConn, ⟨-, rfl⟩ | ⟨_, t, -, -, rfl⟩⟩
      · rfl
      · exact parkedAt_of_assign (e := e) hConn rfl rfl
  | @data conn e₁ status v taken _ hConn hAcked _ =>
      have hQueue : (arrivedConn conn status v).acceptQueue =
          conn.acceptQueue := by
        unfold arrivedConn
        dsimp only
        split <;> rfl
      refine parkedAt_of_assign hConn ?_ hQueue
      change Function.update e₁.conns c _ = _
      rw [hAcked.conns_eq]

theorem IngressResult.parksAtMost
    (hIngress : IngressResult fmt cfg p e e') :
    ParksAtMost p e e' := by
  cases hIngress with
  | dropped hFront =>
      cases hFront with
      | rejected => exact Or.inl rfl
      | unclaimed => exact Or.inl rfl
      | @parked y l conn q _ _ _ _ _ _ hConn hInsert =>
          rcases insertAcceptQueue_ok_iff.mp hInsert with
            ⟨hRoom, rfl⟩
          have hParked := parkedAt_of_conn hConn
          refine Or.inr ⟨l, ?_, ?_⟩
          · rw [hParked, List.length_map]
            exact hRoom
          · refine (parkedAt_of_update rfl).trans ?_
            rw [Option.map_some, Option.getD_some,
              List.map_append, hParked]
            rfl
  | routed _ _ _ hBack => exact Or.inl hBack.parkedAt

end Parks

------------------------------------------------------------
-- Taking an Entry Out
------------------------------------------------------------

/- The last entry takes the place of the one at an index. -/
def dequeueAt
    (c : ConnPtr)
    (i : Nat)
    (conn : Connection)
    (e : Endpoint P) : Endpoint P :=
  match conn.acceptQueue.getLast? with
  | none => e
  | some last =>
      e.modifyConn c (fun conn =>
        { conn with
          acceptQueue :=
            (conn.acceptQueue.set i last).dropLast })

/- A connection with another accept queue. -/
def Connection.withAcceptQueue
    (conn : Connection)
    (q : AcceptQueue) : Connection :=
  { conn with acceptQueue := q }

section Removal

variable
    {c : ConnPtr}
    {p : PacketPtr}
    {conn : Connection}
    {e e₁ e₂ : Endpoint P}
    {i : Nat}

theorem dequeueAt_eq
    (hConn : e.conns c = some conn)
    (i : Nat) :
    dequeueAt c i conn e = e.setConn c
      (conn.withAcceptQueue (removeAt conn.acceptQueue i)) := by
  unfold dequeueAt removeAt Connection.withAcceptQueue
  cases conn.acceptQueue.getLast? with
  | none => exact (Endpoint.setConn_self hConn).symm
  | some last => exact Endpoint.modifyConn_eq hConn _

theorem parkedAt_dequeueAt
    (hConn : e.conns c = some conn)
    (i : Nat) :
    (dequeueAt c i conn e).parkedAt =
      Function.update e.parkedAt c
        (removeAt (e.parkedAt c) i) := by
  let removed := conn.withAcceptQueue
    (removeAt conn.acceptQueue i)
  have hConns : (e.setConn c removed).conns =
      Function.update e.conns c (some removed) := rfl
  rw [dequeueAt_eq hConn, parkedAt_of_conn hConn,
    ← map_removeAt]
  exact parkedAt_of_update hConns

/-
  A packet is processed while its entry is in the queue, and
  then the entry is taken out: it is in one place at most.
-/
theorem ParksAtMost.removes
    (hApart : QueuesApart e.parkedAt)
    (hp : (e.parkedAt c)[i]? = some p)
    (hParks : ParksAtMost p e e₁)
    (hRemoves : e₂.parkedAt = Function.update e₁.parkedAt c
      (removeAt (e₁.parkedAt c) i)) :
    QueuesApart e₂.parkedAt := by
  rcases hApart.remove hp with ⟨hRemoved, hGone⟩
  rw [hRemoves]
  rcases hParks with hSame | ⟨l, hRoom, hParked⟩
  · rw [hSame]
    exact hRemoved
  · by_cases hEq : l = c
    · -- it takes its old place in the same queue
      subst hEq
      rw [hParked, Function.update_self, Function.update_idem,
        removeAt_append_self hp, Function.update_eq_self]
      exact hApart
    · have hOther : Function.update e.parkedAt c
          (removeAt (e.parkedAt c) i) l = e.parkedAt l :=
        Function.update_of_ne hEq _ _
      have hPark := hRemoved.park (c := l) hGone
        (by rw [hOther]; exact hRoom)
      rw [hOther, Function.update_comm (Ne.symm hEq)] at hPark
      rw [hParked, Function.update_of_ne (Ne.symm hEq)]
      exact hPark

end Removal

------------------------------------------------------------
-- Calls and Queues
------------------------------------------------------------

section Calls

variable
    {fmt : PacketFormat P}
    {cfg : Config}
    {c s : ConnPtr}
    {p : PacketPtr}
    {fresh : Connection}
    {e e' : Endpoint P}

theorem mem_parkedAt_iff :
    p ∈ e.parkedAt c ↔ ∃ conn x, e.conns c = some conn ∧
      x ∈ conn.acceptQueue ∧ x.packet = p := by
  rw [Endpoint.parkedAt]
  cases e.conns c <;> simp

theorem ParksAtMost.queuesApart
    (hApart : QueuesApart e.parkedAt)
    (hNew : ∀ d, p ∉ e.parkedAt d)
    (hParks : ParksAtMost p e e') :
    QueuesApart e'.parkedAt := by
  rcases hParks with hSame | ⟨l, hRoom, hParked⟩
  · rw [hSame]
    exact hApart
  · rw [hParked]
    exact hApart.park hNew hRoom

/- A queue is empty when its connection is set up or freed. -/
theorem QueuesApart.emptied
    {object : Option Connection}
    (hApart : QueuesApart e.parkedAt)
    (hConns : e'.conns = Function.update e.conns c object)
    (hEmpty : ∀ conn, object = some conn →
      conn.acceptQueue = []) :
    QueuesApart e'.parkedAt := by
  have hNil : (object.map (fun conn =>
      conn.acceptQueue.map AcceptEntry.packet)).getD [] =
        [] := by
    cases object with
    | none => rfl
    | some conn =>
        rw [Option.map_some, Option.getD_some, hEmpty conn rfl]
        rfl
  rw [parkedAt_of_update hConns, hNil]
  exact hApart.shrink List.nodup_nil
    (fun p hp => absurd hp List.not_mem_nil) (Nat.zero_le _)

theorem not_mem_parkedAt
    (hOld : QueuedOld e)
    (hNew : e.nextPacket ≤ p)
    (d : ConnPtr) :
    p ∉ e.parkedAt d := by
  intro hp
  rcases mem_parkedAt_iff.mp hp with ⟨conn, x, hConn, hx, rfl⟩
  exact Nat.not_lt_of_le hNew (hOld d conn x hConn hx)

theorem Calls.queuesApart
    {call : Call P}
    (hApart : QueuesApart e.parkedAt)
    (hOld : QueuedOld e)
    (hCall : Calls fmt cfg e call e') :
    QueuesApart e'.parkedAt := by
  cases hCall with
  | establish _ _ hEstablish =>
      refine hApart.emptied (nbEstablish_conns hEstablish) ?_
      intro conn hOpened
      rw [← Option.some.inj hOpened]
      exact openedConn_acceptQueue _ _ _ _ _ _
  | destablish hDestablish =>
      rcases nbDestablish_ok_iff.mp hDestablish with
        ⟨conn, -, rfl⟩
      refine hApart.emptied rfl ?_
      rintro conn hNone
      cases hNone
  | send hSend =>
      rcases nbSend_ok_iff.mp hSend with
        ⟨conn, _, x, _, timers, hConn, -, -, -, rfl⟩
      have hSame : (e.requested.sent fmt cfg _ conn
          e.nextPacket timers x).parkedAt = e.parkedAt :=
        parkedAt_of_assign hConn rfl rfl
      rw [hSame]
      exact hApart
  | @ingress _ x len hIngress =>
      have hParks : ParksAtMost e.nextPacket (e.polled x) e' :=
        (ingress_iff.mp hIngress).parksAtMost
      have hNew : ∀ d, e.nextPacket ∉
          (e.polled x).parkedAt d :=
        not_mem_parkedAt (e := e) hOld (Nat.le_refl _)
      exact hParks.queuesApart hApart hNew
  | checkTimers hCheck =>
      rcases checkTimersLoop_frame hCheck with
        ⟨timers, out, rfl⟩
      exact hApart
  | tick => exact hApart
  | read hRead =>
      rcases nbRead_frame hRead with ⟨conn, q, hConn, rfl⟩
      have hSame : (e.setConn _
          { conn with inputQueue := q }).parkedAt =
            e.parkedAt :=
        parkedAt_of_assign hConn rfl rfl
      rw [hSame]
      exact hApart

/- What processing one queued packet keeps, the loop keeps. -/
theorem acceptLoop_invariant
    {srcAppId : BitVec 32}
    {srcHostId : BitVec 64}
    {fuel i : Nat}
    (inv : Endpoint P → Prop)
    (hStep : ∀ e i conn x e₁ conn₁, inv e →
      e.conns c = some conn →
      conn.acceptQueue[i]? = some x →
      runIngressPath fmt cfg x.packet e = .ok e₁ →
      e₁.conns c = some conn₁ →
      inv (dequeueAt c i conn₁ e₁))
    (hInv : inv e)
    (hLoop : acceptLoop fmt cfg c srcAppId srcHostId fuel i e =
      .ok e') :
    inv e' := by
  induction fuel generalizing i e with
  | zero => cases hLoop
  | succ fuel ih =>
      rw [acceptLoop] at hLoop
      rcases bind_eq_ok_iff.mp hLoop with
        ⟨conn, hLoad, hRest⟩
      have hConn := Endpoint.loadConn_eq_ok_iff.mp hLoad
      cases hEntry : conn.acceptQueue[i]? with
      | none =>
          rw [hEntry] at hRest
          cases hRest
          exact hInv
      | some entry =>
          rw [hEntry] at hRest
          dsimp only at hRest
          split at hRest
          · rcases bind_eq_ok_iff.mp hRest with
              ⟨e₁, hIngress, hRest⟩
            rcases bind_eq_ok_iff.mp hRest with
              ⟨conn₁, hLoad₁, hRest⟩
            change acceptLoop fmt cfg c srcAppId srcHostId
              fuel i (dequeueAt c i conn₁ e₁) = _ at hRest
            have hConn₁ :=
              Endpoint.loadConn_eq_ok_iff.mp hLoad₁
            exact ih (hStep e i conn entry e₁ conn₁ hInv hConn
              hEntry hIngress hConn₁) hRest
          · exact ih hInv hRest

theorem QueuedOld.replay
    (hOld : QueuedOld e)
    (hPacket : p < e.nextPacket)
    (hIngress : runIngressPath fmt cfg p e = .ok e') :
    QueuedOld e' := by
  have hNext := ((runIngressPath_iff
    (Nat.ne_of_lt hPacket)).mp hIngress).nextPacket_le
  have hLater : QueuedIn (· < e'.nextPacket) e :=
    hOld.mono (fun q hq => Nat.lt_of_lt_of_le hq hNext)
  exact (runIngressPath_touchesOne (Nat.ne_of_lt hPacket)
    hIngress).queuedIn hLater
      (Nat.lt_of_lt_of_le hPacket hNext)

theorem QueuedOld.dequeueAt
    {conn : Connection}
    (hOld : QueuedOld e)
    (hConn : e.conns c = some conn)
    (i : Nat) :
    QueuedOld (dequeueAt c i conn e) := by
  rw [dequeueAt_eq hConn]
  exact hOld.assign hConn rfl
    (fun x hx => mem_of_mem_removeAt hx)

/- A queued packet is processed, and its entry taken out. -/
theorem queuesApart_dequeued
    {conn conn₁ : Connection}
    {x : AcceptEntry}
    {e₁ : Endpoint P}
    {i : Nat}
    (hApart : QueuesApart e.parkedAt)
    (hOld : QueuedOld e)
    (hConn : e.conns c = some conn)
    (hx : conn.acceptQueue[i]? = some x)
    (hIngress : runIngressPath fmt cfg x.packet e = .ok e₁)
    (hConn₁ : e₁.conns c = some conn₁) :
    QueuesApart (dequeueAt c i conn₁ e₁).parkedAt ∧
      QueuedOld (dequeueAt c i conn₁ e₁) := by
  have hPacket : x.packet < e.nextPacket :=
    hOld c conn x hConn (List.mem_of_getElem? hx)
  have hResult := (runIngressPath_iff
    (Nat.ne_of_lt hPacket)).mp hIngress
  have hAt : (e.parkedAt c)[i]? = some x.packet := by
    rw [parkedAt_of_conn hConn, List.getElem?_map, hx]
    rfl
  exact ⟨hResult.parksAtMost.removes hApart hAt
    (parkedAt_dequeueAt hConn₁ i),
    (hOld.replay hPacket hIngress).dequeueAt hConn₁ i⟩

/- The last entry leaves its queue. -/
theorem QueuesApart.popped
    {conn : Connection}
    {x : AcceptEntry}
    (hApart : QueuesApart e.parkedAt)
    (hConn : e.conns c = some conn)
    (hLast : conn.acceptQueue.getLast? = some x) :
    QueuesApart (e.setConn c (conn.withAcceptQueue
        conn.acceptQueue.dropLast)).parkedAt ∧
      ∀ d, x.packet ∉ (e.setConn c (conn.withAcceptQueue
        conn.acceptQueue.dropLast)).parkedAt d := by
  let popped := conn.withAcceptQueue conn.acceptQueue.dropLast
  have hConns : (e.setConn c popped).conns =
      Function.update e.conns c (some popped) := rfl
  have hParked : (e.setConn c popped).parkedAt =
      Function.update e.parkedAt c
        (e.parkedAt c).dropLast := by
    rw [parkedAt_of_update hConns, parkedAt_of_conn hConn,
      ← List.map_dropLast]
    rfl
  have hSplit : e.parkedAt c =
      (e.parkedAt c).dropLast ++ [x.packet] := by
    have hQueue := List.dropLast_append_getLast? x hLast
    rw [parkedAt_of_conn hConn, ← List.map_dropLast]
    conv_lhs => rw [← hQueue]
    exact List.map_append
  have hNodup := hApart.nodup c
  rw [hSplit, List.nodup_append] at hNodup
  change QueuesApart (e.setConn c popped).parkedAt ∧
    ∀ d, x.packet ∉ (e.setConn c popped).parkedAt d
  rw [hParked]
  constructor
  · exact hApart.shrink hNodup.1
      (fun p hp => (List.dropLast_sublist _).subset hp)
      (by rw [List.length_dropLast]; omega)
  · intro d hMem
    rw [Function.update_apply] at hMem
    split at hMem
    · exact hNodup.2.2 _ hMem _
        (List.mem_singleton_self _) rfl
    · next hOther =>
        have hIn : x.packet ∈ e.parkedAt c := by
          rw [hSplit]
          simp
        exact hOther (hApart.apart d c _ hMem hIn)

/- A new connection has an empty queue. -/
theorem not_mem_parkedAt_establish
    {h a sa : BitVec 32}
    (hGone : ∀ d, p ∉ e.parkedAt d)
    (hEstablish : nbEstablish fmt cfg s fresh h a sa e =
      .ok e')
    (d : ConnPtr) :
    p ∉ e'.parkedAt d := by
  intro hMem
  rw [parkedAt_of_update (nbEstablish_conns hEstablish),
    Function.update_apply] at hMem
  split at hMem
  · rw [Option.map_some, Option.getD_some,
      openedConn_acceptQueue] at hMem
    cases hMem
  · exact hGone d hMem

/-
  The stages of `nb__accept`: the last entry leaves the queue,
  a connection is opened and counts as signaled, the packet of
  the entry is processed, and then the rest of the queue.
-/
theorem nbAccept_stages
    {fuel : Nat}
    {result : ConnPtr}
    (hNe : s ≠ 0)
    (hFree : e.conns s = none)
    (hAccept : nbAccept fmt cfg c s fresh fuel e =
      .ok (result, e')) :
    ∃ conn, e.conns c = some conn ∧
      (conn.acceptQueue.getLast? = none ∧ e' = e ∨
        ∃ x e₂ opened e₄,
          conn.acceptQueue.getLast? = some x ∧
          Calls fmt cfg (e.setConn c (conn.withAcceptQueue
              conn.acceptQueue.dropLast))
            (.establish s fresh (x.srcHostId.setWidth 32)
              x.srcAppId conn.localAppId) e₂ ∧
          e₂.conns s = some opened ∧
          runIngressPath fmt cfg x.packet (e₂.setConn s
            { opened with signalingState := .signaled }) =
              .ok e₄ ∧
          acceptLoop fmt cfg c x.srcAppId x.srcHostId fuel 0
            e₄ = .ok e') := by
  unfold nbAccept at hAccept
  rcases bind_eq_ok_iff.mp hAccept with
    ⟨conn, hLoad, hRest⟩
  have hConn := Endpoint.loadConn_eq_ok_iff.mp hLoad
  have hSC : s ≠ c := by
    rintro rfl
    rw [hFree] at hConn
    cases hConn
  cases hLast : conn.acceptQueue.getLast? with
  | none =>
      rw [hLast] at hRest
      cases hRest
      exact ⟨conn, hConn, Or.inl ⟨hLast, rfl⟩⟩
  | some entry =>
      rw [hLast] at hRest
      dsimp only at hRest
      rw [Endpoint.modifyConn_eq hConn] at hRest
      rcases bind_eq_ok_iff.mp hRest with
        ⟨e₂, hEstablish, hRest⟩
      rcases bind_eq_ok_iff.mp hRest with
        ⟨e₄, hIngress, hRest⟩
      rcases bind_eq_ok_iff.mp hRest with
        ⟨e₅, hLoop, hEnd⟩
      cases hEnd
      let e₁ := e.setConn c (conn.withAcceptQueue
        conn.acceptQueue.dropLast)
      have hFree₁ : e₁.conns s = none := by
        rw [← hFree]
        exact Endpoint.setConn_conns_of_ne e _ hSC
      have hCall : Calls fmt cfg e₁ (.establish s fresh
          (entry.srcHostId.setWidth 32) entry.srcAppId
            conn.localAppId) e₂ :=
        .establish hNe hFree₁ hEstablish
      let opened := openedConn cfg fresh
        (e₁.hostLocalId (entry.srcHostId.setWidth 32))
        (entry.srcHostId.setWidth 32) entry.srcAppId
        conn.localAppId e₁.nextPacket
      have hConn₂ : e₂.conns s = some opened := by
        rw [nbEstablish_conns hEstablish,
          Function.update_self]
        rfl
      rw [Endpoint.modifyConn_eq hConn₂] at hIngress
      exact ⟨conn, hConn, Or.inr ⟨entry, e₂, opened, e₄, hLast,
        hCall, hConn₂, hIngress, hLoop⟩⟩

/- What queues are like once a connection was opened. -/
structure QueuesOpened
    (p : PacketPtr)
    (e : Endpoint P) : Prop where
  apart : QueuesApart e.parkedAt
  old : QueuedOld e
  gone : ∀ d, p ∉ e.parkedAt d
  handedOut : p < e.nextPacket

theorem queuesOpened_of_establish
    {conn opened : Connection}
    {x : AcceptEntry}
    {h a sa : BitVec 32}
    (hApart : QueuesApart e.parkedAt)
    (hOld : QueuedOld e)
    (hConn : e.conns c = some conn)
    (hLast : conn.acceptQueue.getLast? = some x)
    (hCall : Calls fmt cfg (e.setConn c
        (conn.withAcceptQueue conn.acceptQueue.dropLast))
      (.establish s fresh h a sa) e')
    (hOpened : e'.conns s = some opened) :
    QueuesOpened x.packet (e'.setConn s
      { opened with signalingState := .signaled }) := by
  rcases hApart.popped hConn hLast with ⟨hApart₁, hGone₁⟩
  have hOld₁ : QueuedOld (e.setConn c (conn.withAcceptQueue
      conn.acceptQueue.dropLast)) :=
    hOld.assign hConn rfl (fun x hx =>
      (List.dropLast_sublist _).subset hx)
  have hParked : (e'.setConn s { opened with
      signalingState := .signaled }).parkedAt =
        e'.parkedAt := parkedAt_of_assign hOpened rfl rfl
  constructor
  · rw [hParked]
    exact hCall.queuesApart hApart₁ hOld₁
  · exact (hCall.queuedOld hOld₁).assign hOpened rfl
      (fun _ hx => hx)
  · rw [hParked]
    cases hCall with
    | establish _ _ hEstablish =>
        exact not_mem_parkedAt_establish hGone₁ hEstablish
  · exact Nat.lt_of_lt_of_le
      (hOld c conn x hConn (List.mem_of_getLast? hLast))
      hCall.nextPacket_le

/- The last entry is taken out before its packet is used. -/
theorem nbAccept_queuesApart
    {fuel : Nat}
    {result : ConnPtr}
    (hApart : QueuesApart e.parkedAt)
    (hOld : QueuedOld e)
    (hNe : s ≠ 0)
    (hFree : e.conns s = none)
    (hAccept : nbAccept fmt cfg c s fresh fuel e =
      .ok (result, e')) :
    QueuesApart e'.parkedAt := by
  rcases nbAccept_stages hNe hFree hAccept with
    ⟨conn, hConn, ⟨-, rfl⟩ | ⟨x, e₂, opened, e₄, hLast, hCall,
      hOpened, hIngress, hLoop⟩⟩
  · exact hApart
  · have hReady := queuesOpened_of_establish hApart hOld hConn
      hLast hCall hOpened
    have hResult := (runIngressPath_iff
      (Nat.ne_of_lt hReady.handedOut)).mp hIngress
    have hApart₄ := hResult.parksAtMost.queuesApart
      hReady.apart hReady.gone
    have hOld₄ := hReady.old.replay hReady.handedOut hIngress
    refine (acceptLoop_invariant (fun e : Endpoint P =>
      QueuesApart e.parkedAt ∧ QueuedOld e) ?_
        ⟨hApart₄, hOld₄⟩ hLoop).1
    rintro e i conn x e₁ conn₁ ⟨hApart, hOld⟩ hConn hx
      hIngress hConn₁
    exact queuesApart_dequeued hApart hOld hConn hx hIngress
      hConn₁

/- Every call of the API keeps the packets apart. -/
theorem ApiCalls.queuesApart
    {call : ApiCall P}
    (hApart : QueuesApart e.parkedAt)
    (hOld : QueuedOld e)
    (hCall : ApiCalls fmt cfg e call e') :
    QueuesApart e'.parkedAt := by
  cases hCall with
  | call hCall => exact hCall.queuesApart hApart hOld
  | accept hNe hFree hAccept =>
      exact nbAccept_queuesApart hApart hOld hNe hFree hAccept

theorem queuesApart_netInit
    (freshState : NetState)
    (hConns : ∀ c, e.conns c = none) :
    QueuesApart (nbNetInit freshState e).parkedAt := by
  have hNil : ∀ c, (nbNetInit freshState e).parkedAt c =
      [] := by
    intro c
    rw [Endpoint.parkedAt, show (nbNetInit freshState e
      ).conns c = none from hConns c]
    rfl
  refine ⟨?_, ?_, ?_⟩
  · intro c
    rw [hNil c]
    exact List.nodup_nil
  · intro c d p hp
    rw [hNil c] at hp
    cases hp
  · intro c
    rw [hNil c]
    exact Nat.zero_le _

end Calls

end NetBlocks
