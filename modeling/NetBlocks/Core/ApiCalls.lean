import NetBlocks.Core.CallEffects

/-
  `nb__accept` as a sequence of small steps, and the calls of
  the API with it among them.

  Main declarations:
    * `AcceptMove`, `AcceptStep`, and `nbAccept_steps`
    * `ApiCall` and `ApiCalls`
    * `ApiCalls.invariant`
-/

namespace NetBlocks

open Except TransitionSystem

variable {P : Type}

------------------------------------------------------------
-- Queued Packets
------------------------------------------------------------

/- The packets in accept queues are among those of a set. -/
def QueuedIn
    (queued : PacketPtr → Prop)
    (e : Endpoint P) : Prop :=
  ∀ c conn x, e.conns c = some conn →
    x ∈ conn.acceptQueue → queued x.packet

/- A packet is in some accept queue. -/
def IsQueued
    (e : Endpoint P)
    (p : PacketPtr) : Prop :=
  ∃ c conn x, e.conns c = some conn ∧
    x ∈ conn.acceptQueue ∧ x.packet = p

/- They are in buffers that were handed out. -/
def QueuedOld
    (e : Endpoint P) : Prop :=
  QueuedIn (· < e.nextPacket) e

section Queued

variable
    {fmt : PacketFormat P}
    {cfg : Config}
    {c : ConnPtr}
    {conn conn' : Connection}
    {queued : PacketPtr → Prop}
    {e e' : Endpoint P}

theorem queuedIn_iff :
    QueuedIn queued e ↔ ∀ p, IsQueued e p → queued p := by
  constructor
  · rintro hIn p ⟨c, conn, x, hConn, hx, rfl⟩
    exact hIn c conn x hConn hx
  · intro hIn c conn x hConn hx
    exact hIn _ ⟨c, conn, x, hConn, hx, rfl⟩

theorem QueuedIn.mono
    {larger : PacketPtr → Prop}
    (hIn : QueuedIn queued e)
    (hLarger : ∀ p, queued p → larger p) :
    QueuedIn larger e :=
  fun c conn x hConn hx => hLarger _ (hIn c conn x hConn hx)

theorem QueuedIn.of_conns_eq
    (hIn : QueuedIn queued e)
    (hConns : e'.conns = e.conns) :
    QueuedIn queued e' := by
  intro d conn x hConn hx
  rw [hConns] at hConn
  exact hIn d conn x hConn hx

theorem QueuedIn.update
    (hIn : QueuedIn queued e)
    (hConns : e'.conns =
      Function.update e.conns c (some conn'))
    (hQueue : ∀ x ∈ conn'.acceptQueue, queued x.packet) :
    QueuedIn queued e' := by
  intro d conn x hConn hx
  rw [hConns] at hConn
  by_cases hEq : d = c
  · rw [hEq, Function.update_self] at hConn
    cases hConn
    exact hQueue x hx
  · rw [Function.update_of_ne hEq] at hConn
    exact hIn d conn x hConn hx

/- Another member of a connection was assigned. -/
theorem QueuedIn.assign
    (hIn : QueuedIn queued e)
    (hConn : e.conns c = some conn)
    (hConns : e'.conns =
      Function.update e.conns c (some conn'))
    (hQueue : ∀ x ∈ conn'.acceptQueue, x ∈ conn.acceptQueue) :
    QueuedIn queued e' :=
  hIn.update hConns (fun x hx =>
    hIn c conn x hConn (hQueue x hx))

theorem Touches.acceptQueue
    {p : PacketPtr}
    (hTouches : Touches p conn conn') :
    ∀ x ∈ conn'.acceptQueue,
      x ∈ conn.acceptQueue ∨ x.packet = p := by
  intro x hx
  cases hTouches with
  | parked y hY =>
      rcases List.mem_append.mp hx with hx | hx
      · exact Or.inl hx
      · rw [List.mem_singleton.mp hx]
        exact Or.inr hY
  | acked => exact Or.inl hx
  | arrived status v =>
      unfold arrivedConn at hx
      dsimp only at hx
      split at hx <;> exact Or.inl hx
  | taken => exact Or.inl hx

theorem TouchesOne.queuedIn
    {p : PacketPtr}
    (hTouches : TouchesOne p e e')
    (hIn : QueuedIn queued e)
    (hPacket : queued p) :
    QueuedIn queued e' := by
  rcases hTouches with
    hSame | ⟨c, conn, conn', hConn, hTouches, hConns⟩
  · exact hIn.of_conns_eq hSame
  · refine hIn.update hConns ?_
    intro x hx
    rcases hTouches.acceptQueue x hx with hx | hx
    · exact hIn c conn x hConn hx
    · rw [hx]
      exact hPacket

theorem openedConn_acceptQueue
    (fresh : Connection)
    (hostLocalId : BitVec 64)
    (h a sa : BitVec 32)
    (p : PacketPtr) :
    (openedConn cfg fresh hostLocalId h a sa
      p).acceptQueue = [] := by
  have hRouted : ∀ conn : Connection,
      (routedConn cfg sa conn).acceptQueue =
        conn.acceptQueue := by
    intro conn
    unfold routedConn
    split <;> rfl
  rw [openedConn, hRouted, signaledConn]
  split
  · rfl
  · split <;> rfl

/- A call parks no packet but the one it receives. -/
theorem Calls.queuedIn
    {call : Call P}
    (hIn : QueuedIn queued e)
    (hCall : Calls fmt cfg e call e')
    (hPacket : ∀ x len, call = .ingress x len →
      queued e.nextPacket) :
    QueuedIn queued e' := by
  cases hCall with
  | establish _ _ hEstablish =>
      refine hIn.update (nbEstablish_conns hEstablish) ?_
      rw [openedConn_acceptQueue]
      intro x hx
      cases hx
  | @destablish _ d hDestablish =>
      rcases nbDestablish_ok_iff.mp hDestablish with
        ⟨conn, -, rfl⟩
      intro f conn x hConn hx
      by_cases hEq : f = d
      · simp [hEq] at hConn
      · simp only [Function.update_of_ne hEq] at hConn
        exact hIn f conn x hConn hx
  | send hSend =>
      rcases nbSend_ok_iff.mp hSend with
        ⟨conn, _, _, _, _, hConn, -, -, -, rfl⟩
      exact hIn.assign hConn rfl (fun _ hx => hx)
  | ingress hIngress =>
      exact (ingress_touchesOne hIngress).queuedIn hIn
        (hPacket _ _ rfl)
  | checkTimers hCheck =>
      rcases checkTimersLoop_frame hCheck with
        ⟨timers, out, rfl⟩
      exact hIn.of_conns_eq rfl
  | tick => exact hIn.of_conns_eq rfl
  | read hRead =>
      rcases nbRead_frame hRead with ⟨conn, q, hConn, rfl⟩
      exact hIn.assign hConn rfl (fun _ hx => hx)

theorem Calls.queuedOld
    {call : Call P}
    (hOld : QueuedOld e)
    (hCall : Calls fmt cfg e call e') :
    QueuedOld e' := by
  refine hCall.queuedIn (hOld.mono (fun p hp =>
    Nat.lt_of_lt_of_le hp hCall.nextPacket_le)) ?_
  rintro x len rfl
  cases hCall with
  | ingress hIngress =>
      exact (ingress_iff.mp hIngress).nextPacket_le

end Queued

------------------------------------------------------------
-- Accepting in Small Steps
------------------------------------------------------------

/-
  What `nb__accept` is made of: a connection is opened, a
  packet received before is processed again, entries leave an
  accept queue, and a connection counts as signaled.
-/
inductive AcceptMove where
| opens (s : ConnPtr) (fresh : Connection)
    (h a sa : BitVec 32)
| replays (p : PacketPtr)
| dequeues (c : ConnPtr)
| signals (s : ConnPtr)

/-
  Each of them, as a step. The packets that may be processed
  again are those of a set.
-/
inductive AcceptStep
    (fmt : PacketFormat P)
    (cfg : Config)
    (queued : PacketPtr → Prop)
    (e : Endpoint P) : AcceptMove → Endpoint P → Prop
| opens {e' : Endpoint P} {s : ConnPtr} {fresh : Connection}
    {h a sa : BitVec 32} :
    Calls fmt cfg e (.establish s fresh h a sa) e' →
    AcceptStep fmt cfg queued e (.opens s fresh h a sa) e'
| replays {e' : Endpoint P} {p : PacketPtr} :
    queued p →
    p < e.nextPacket →
    runIngressPath fmt cfg p e = .ok e' →
    AcceptStep fmt cfg queued e (.replays p) e'
| dequeues {c : ConnPtr} {conn : Connection}
    {q : AcceptQueue} :
    e.conns c = some conn →
    (∀ x ∈ q, x ∈ conn.acceptQueue) →
    AcceptStep fmt cfg queued e (.dequeues c)
      (e.setConn c { conn with acceptQueue := q })
| signals {s : ConnPtr} {conn : Connection} :
    e.conns s = some conn →
    AcceptStep fmt cfg queued e (.signals s)
      (e.setConn s { conn with signalingState := .signaled })

section Accept

variable
    {fmt : PacketFormat P}
    {cfg : Config}
    {queued : PacketPtr → Prop}
    {c s : ConnPtr}
    {fresh : Connection}
    {e e' : Endpoint P}
    {move : AcceptMove}

theorem AcceptStep.nextPacket_le
    (hStep : AcceptStep fmt cfg queued e move e') :
    e.nextPacket ≤ e'.nextPacket := by
  cases hStep with
  | opens hCall => exact hCall.nextPacket_le
  | replays _ hPacket hIngress =>
      exact ((runIngressPath_iff (Nat.ne_of_lt hPacket)).mp
        hIngress).nextPacket_le
  | dequeues => exact Nat.le_refl _
  | signals => exact Nat.le_refl _

/- Only packets of the set are parked again. -/
theorem AcceptStep.queuedIn
    (hIn : QueuedIn queued e)
    (hStep : AcceptStep fmt cfg queued e move e') :
    QueuedIn queued e' := by
  cases hStep with
  | opens hCall =>
      exact hCall.queuedIn hIn (fun x len hEq => by cases hEq)
  | replays hQueued hPacket hIngress =>
      exact (runIngressPath_touchesOne (Nat.ne_of_lt hPacket)
        hIngress).queuedIn hIn hQueued
  | dequeues hConn hQueue => exact hIn.assign hConn rfl hQueue
  | signals hConn => exact hIn.assign hConn rfl (fun _ hx => hx)

/- A small step adds an entry, or leaves the table alone. -/
theorem AcceptStep.table
    (hStep : AcceptStep fmt cfg queued e move e') :
    (∃ x, TableAdds e x e') ∨ SameTable e e' := by
  cases hStep with
  | opens hCall =>
      cases hCall with
      | establish hNe hFree hEstablish =>
          exact Or.inl ⟨_, nbEstablish_table hNe hFree
            hEstablish⟩
  | replays _ hPacket hIngress =>
      exact Or.inr ((runIngressPath_iff
        (Nat.ne_of_lt hPacket)).mp hIngress).sameTable
  | dequeues hConn => exact Or.inr (.setConn hConn rfl)
  | signals hConn => exact Or.inr (.setConn hConn rfl)

/- Accepting calls back only when it parks a packet again. -/
theorem AcceptStep.announces
    (hStep : AcceptStep fmt cfg queued e move e') :
    Announces e e' := by
  cases hStep with
  | opens hCall => exact hCall.announces
  | replays _ hPacket hIngress =>
      exact ((runIngressPath_iff (Nat.ne_of_lt hPacket)).mp
        hIngress).announces
  | dequeues => exact .of_eq rfl
  | signals => exact .of_eq rfl

theorem AcceptStep.hostsKept
    (hHosts : HostsKept e)
    (hStep : AcceptStep fmt cfg queued e move e') :
    HostsKept e' := by
  cases hStep with
  | opens hCall => exact hCall.hostsKept hHosts
  | replays _ hPacket hIngress =>
      exact ((runIngressPath_iff (Nat.ne_of_lt hPacket)).mp
        hIngress).sameTable.hostsKept hHosts
  | dequeues hConn =>
      exact SameTable.hostsKept (.setConn hConn rfl) hHosts
  | signals hConn =>
      exact SameTable.hostsKept (.setConn hConn rfl) hHosts

/- Putting the last entry in the place of another one. -/
theorem mem_of_mem_set_dropLast
    {q : AcceptQueue}
    {i : Nat}
    {last x : AcceptEntry}
    (hLast : q.getLast? = some last)
    (hx : x ∈ (q.set i last).dropLast) :
    x ∈ q := by
  rcases List.mem_or_eq_of_mem_set
      ((List.dropLast_sublist _).subset hx) with hx | hx
  · exact hx
  · rw [hx]
    exact List.mem_of_getLast? hLast

theorem acceptLoop_steps
    {srcAppId : BitVec 32}
    {srcHostId : BitVec 64}
    {fuel i : Nat}
    (hIn : QueuedIn queued e)
    (hOld : ∀ p, queued p → p < e.nextPacket)
    (hLoop : acceptLoop fmt cfg c srcAppId srcHostId fuel i e =
      .ok e') :
    ∃ moves, Run (AcceptStep fmt cfg queued) e moves e' := by
  induction fuel generalizing i e with
  | zero => cases hLoop
  | succ fuel ih =>
      rw [acceptLoop] at hLoop
      rcases bind_eq_ok_iff.mp hLoop with
        ⟨conn, hLoad, hRest⟩
      have hConn := Endpoint.loadConn_eq_ok_iff.mp hLoad
      cases hEntry : conn.acceptQueue[i]? with
      | none =>
          rw [hEntry] at hRest
          cases hRest
          exact ⟨[], .nil _⟩
      | some entry =>
          rw [hEntry] at hRest
          dsimp only at hRest
          split at hRest
          · rcases bind_eq_ok_iff.mp hRest with
              ⟨e₁, hIngress, hRest⟩
            rcases bind_eq_ok_iff.mp hRest with
              ⟨conn₁, hLoad₁, hRest⟩
            have hConn₁ :=
              Endpoint.loadConn_eq_ok_iff.mp hLoad₁
            have hQueued := hIn c conn entry hConn
              (List.mem_of_getElem? hEntry)
            have hReplay : AcceptStep fmt cfg queued e
                (.replays entry.packet) e₁ :=
              .replays hQueued (hOld _ hQueued) hIngress
            have hIn₁ := hReplay.queuedIn hIn
            have hOld₁ : ∀ p, queued p → p < e₁.nextPacket :=
              fun p hp => Nat.lt_of_lt_of_le (hOld p hp)
                hReplay.nextPacket_le
            cases hLast : conn₁.acceptQueue.getLast? with
            | none =>
                rw [hLast] at hRest
                rcases ih hIn₁ hOld₁ hRest with ⟨moves, hRun⟩
                exact ⟨_, .cons hReplay hRun⟩
            | some last =>
                rw [hLast] at hRest
                dsimp only at hRest
                rw [Endpoint.modifyConn_eq hConn₁] at hRest
                have hDequeue : AcceptStep fmt cfg queued e₁
                    (.dequeues c)
                    (e₁.setConn c { conn₁ with
                      acceptQueue :=
                        (conn₁.acceptQueue.set i
                          last).dropLast }) :=
                  .dequeues hConn₁ (fun x hx =>
                    mem_of_mem_set_dropLast hLast hx)
                rcases ih (hDequeue.queuedIn hIn₁) hOld₁ hRest
                  with ⟨moves, hRun⟩
                exact ⟨_, .cons hReplay (.cons hDequeue hRun)⟩
          · exact ih hIn hOld hRest

/- Accepting is a sequence of such steps. -/
theorem nbAccept_steps
    {fuel : Nat}
    {result : ConnPtr}
    (hIn : QueuedIn queued e)
    (hOld : ∀ p, queued p → p < e.nextPacket)
    (hNe : s ≠ 0)
    (hFree : e.conns s = none)
    (hAccept : nbAccept fmt cfg c s fresh fuel e =
      .ok (result, e')) :
    ∃ moves, Run (AcceptStep fmt cfg queued) e moves e' := by
  unfold nbAccept at hAccept
  rcases bind_eq_ok_iff.mp hAccept with
    ⟨conn, hLoad, hRest⟩
  have hConn := Endpoint.loadConn_eq_ok_iff.mp hLoad
  have hSC : s ≠ c := by
    rintro rfl
    rw [hFree] at hConn
    cases hConn
  cases hLast : conn.acceptQueue.getLast? with
  | none =>
      rw [hLast] at hRest
      cases hRest
      exact ⟨[], .nil _⟩
  | some entry =>
      rw [hLast] at hRest
      dsimp only at hRest
      rw [Endpoint.modifyConn_eq hConn] at hRest
      rcases bind_eq_ok_iff.mp hRest with
        ⟨e₂, hEstablish, hRest⟩
      rcases bind_eq_ok_iff.mp hRest with
        ⟨e₄, hIngress, hRest⟩
      rcases bind_eq_ok_iff.mp hRest with
        ⟨e₅, hLoop, hEnd⟩
      cases hEnd
      let e₁ := e.setConn c { conn with
        acceptQueue := conn.acceptQueue.dropLast }
      have hDequeue : AcceptStep fmt cfg queued e
          (.dequeues c) e₁ :=
        .dequeues hConn (fun x hx =>
          (List.dropLast_sublist _).subset hx)
      have hFree₁ : e₁.conns s = none := by
        rw [← hFree]
        exact Endpoint.setConn_conns_of_ne e _ hSC
      have hCall : Calls fmt cfg e₁ (.establish s fresh
          (entry.srcHostId.setWidth 32) entry.srcAppId
          conn.localAppId) e₂ :=
        .establish hNe hFree₁ hEstablish
      have hOpen : AcceptStep fmt cfg queued e₁
          (.opens s fresh (entry.srcHostId.setWidth 32)
            entry.srcAppId conn.localAppId) e₂ :=
        .opens hCall
      let opened := openedConn cfg fresh
        (e₁.hostLocalId (entry.srcHostId.setWidth 32))
        (entry.srcHostId.setWidth 32) entry.srcAppId
        conn.localAppId e₁.nextPacket
      have hConn₂ : e₂.conns s = some opened := by
        rw [nbEstablish_conns hEstablish,
          Function.update_self]
      rw [Endpoint.modifyConn_eq hConn₂] at hIngress
      let e₃ := e₂.setConn s
        { opened with signalingState := .signaled }
      have hSignal : AcceptStep fmt cfg queued e₂
          (.signals s) e₃ :=
        .signals hConn₂
      have hIn₃ := hSignal.queuedIn
        (hOpen.queuedIn (hDequeue.queuedIn hIn))
      have hQueued : queued entry.packet :=
        hIn c conn entry hConn (List.mem_of_getLast? hLast)
      have hPacket : entry.packet < e₃.nextPacket :=
        Nat.lt_of_lt_of_le (hOld _ hQueued)
          hCall.nextPacket_le
      have hReplay : AcceptStep fmt cfg queued e₃
          (.replays entry.packet) e₄ :=
        .replays hQueued hPacket hIngress
      have hOld₄ : ∀ p, queued p → p < e₄.nextPacket := by
        intro p hp
        exact Nat.lt_of_lt_of_le (hOld p hp)
          (Nat.le_trans hCall.nextPacket_le
            hReplay.nextPacket_le)
      rcases acceptLoop_steps (hReplay.queuedIn hIn₃) hOld₄
        hLoop with ⟨moves, hRun⟩
      exact ⟨_, .cons hDequeue (.cons hOpen (.cons hSignal
        (.cons hReplay hRun)))⟩

end Accept

------------------------------------------------------------
-- All Calls
------------------------------------------------------------

/-
  A call of the API, `nb__accept` included. It may establish
  a connection at the address `s`.
-/
inductive ApiCall (P : Type) where
| call (call : Call P)
| accept (c s : ConnPtr) (fresh : Connection)

inductive ApiCalls
    (fmt : PacketFormat P)
    (cfg : Config) :
    Endpoint P → ApiCall P → Endpoint P → Prop
| call {e e' : Endpoint P} {call : Call P} :
    Calls fmt cfg e call e' →
    ApiCalls fmt cfg e (.call call) e'
| accept {e e' : Endpoint P} {c s : ConnPtr}
    {fresh : Connection} {fuel : Nat} {result : ConnPtr} :
    -- `malloc` returns an address that is not in use
    s ≠ 0 → e.conns s = none →
    nbAccept fmt cfg c s fresh fuel e = .ok (result, e') →
    ApiCalls fmt cfg e (.accept c s fresh) e'

/- Whatever calls and small steps keep, the API keeps. -/
theorem ApiCalls.invariant
    {fmt : PacketFormat P}
    {cfg : Config}
    {e e' : Endpoint P}
    {call : ApiCall P}
    (inv : Endpoint P → Prop)
    (hCalls : ∀ c, call = .call c → ∀ e₁, inv e →
      Calls fmt cfg e c e₁ → inv e₁)
    (hSteps : ∀ e₁ move e₂, inv e₁ →
      AcceptStep fmt cfg (· < e.nextPacket) e₁ move e₂ →
      inv e₂)
    (hOld : QueuedOld e)
    (hInv : inv e)
    (hApi : ApiCalls fmt cfg e call e') :
    inv e' ∧ QueuedOld e' := by
  cases hApi with
  | call hCall =>
      exact ⟨hCalls _ rfl _ hInv hCall, hCall.queuedOld hOld⟩
  | accept hNe hFree hAccept =>
      rcases nbAccept_steps hOld (fun _ hp => hp) hNe hFree
        hAccept with ⟨moves, hRun⟩
      let kept : Endpoint P → Prop := fun e₁ => inv e₁ ∧
        QueuedIn (· < e.nextPacket) e₁ ∧
          e.nextPacket ≤ e₁.nextPacket
      have hStep : ∀ e₁ move e₂, kept e₁ →
          AcceptStep fmt cfg (· < e.nextPacket) e₁ move e₂ →
            kept e₂ := by
        rintro e₁ move e₂ ⟨hInv₁, hIn₁, hNext₁⟩ hStep
        exact ⟨hSteps e₁ move e₂ hInv₁ hStep,
          hStep.queuedIn hIn₁,
          Nat.le_trans hNext₁ hStep.nextPacket_le⟩
      have hKept := hRun.invariant hStep
        ⟨hInv, hOld, Nat.le_refl _⟩
      exact ⟨hKept.1, hKept.2.1.mono (fun p hp =>
        Nat.lt_of_lt_of_le hp hKept.2.2)⟩

end NetBlocks
