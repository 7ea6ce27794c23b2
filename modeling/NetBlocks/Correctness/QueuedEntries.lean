import NetBlocks.Core.Addresses
import NetBlocks.Correctness.Accepting

/-
  The entries of accept queues over whole runs: each names
  the application and the host that its packet is from.

  Main declarations:
    * `AcceptEntry.Describes` and `QueuesDescribed`
    * `IngressResult.queues`
    * `ApiCalls.queuesDescribed`
-/

namespace NetBlocks

open Except TransitionSystem SwapRemoval

variable {P : Type}

------------------------------------------------------------
-- Entries and Their Packets
------------------------------------------------------------

/- The entry holds the source of its packet `y`. -/
structure AcceptEntry.Describes
    (fmt : PacketFormat P)
    (y : P)
    (x : AcceptEntry) : Prop where
  srcAppId : fmt.getWord .srcAppId y = x.srcAppId
  srcHostId : fmt.getInteger .srcHostId y = x.srcHostId

/- So does every entry in an accept queue. -/
def QueuesDescribed
    (fmt : PacketFormat P)
    (e : Endpoint P) : Prop :=
  ∀ d conn x, e.conns d = some conn →
    x ∈ conn.acceptQueue →
      x.Describes fmt (e.packets x.packet)

section Described

variable
    {fmt : PacketFormat P}
    {cfg : Config}
    {c d s : ConnPtr}
    {p : PacketPtr}
    {conn conn' fresh : Connection}
    {e e₁ e₂ e' : Endpoint P}
    {i : Nat}

theorem AcceptEntry.Describes.congr
    {x : AcceptEntry}
    {y z : P}
    (hDescribes : x.Describes fmt y)
    (hKeeps : ∀ f : Field, f.addresses = true →
      fmt.getInteger f z = fmt.getInteger f y) :
    x.Describes fmt z where
  srcAppId := by
    rw [PacketFormat.getWord, hKeeps _ rfl]
    exact hDescribes.srcAppId
  srcHostId := (hKeeps _ rfl).trans hDescribes.srcHostId

/- The entries of `e'` are older ones, with kept packets. -/
theorem QueuesDescribed.of_older
    (hDescribed : QueuesDescribed fmt e)
    (hOlder : ∀ d conn' x, e'.conns d = some conn' →
      x ∈ conn'.acceptQueue →
        ∃ conn, e.conns d = some conn ∧ x ∈ conn.acceptQueue ∧
          ∀ f : Field, f.addresses = true →
            fmt.getInteger f (e'.packets x.packet) =
              fmt.getInteger f (e.packets x.packet)) :
    QueuesDescribed fmt e' := by
  intro d conn' x hConn' hx
  rcases hOlder d conn' x hConn' hx with
    ⟨conn, hConn, hMem, hKeeps⟩
  exact (hDescribed d conn x hConn hMem).congr hKeeps

/- Other members of a connection were assigned. -/
theorem QueuesDescribed.assign
    (hDescribed : QueuesDescribed fmt e)
    (hConn : e.conns c = some conn)
    (hConns : e'.conns =
      Function.update e.conns c (some conn'))
    (hQueue : ∀ x ∈ conn'.acceptQueue, x ∈ conn.acceptQueue)
    (hKeeps : ∀ d connD x, e.conns d = some connD →
      x ∈ connD.acceptQueue →
        e'.packets x.packet = e.packets x.packet) :
    QueuesDescribed fmt e' := by
  apply hDescribed.of_older
  intro d connD x hConnD hx
  rw [hConns, Function.update_apply] at hConnD
  split at hConnD
  · next hEq =>
      cases hConnD
      refine ⟨conn, hEq ▸ hConn, hQueue x hx, ?_⟩
      intro f _
      rw [hKeeps c conn x hConn (hQueue x hx)]
  · refine ⟨connD, hConnD, hx, ?_⟩
    intro f _
    rw [hKeeps d connD x hConnD hx]

------------------------------------------------------------
-- Receiving a Packet
------------------------------------------------------------

/-
  Processing the packet at `p` puts an entry for it behind a
  queue, if it changes the queues at all.
-/
def QueuesAtMost
    (fmt : PacketFormat P)
    (p : PacketPtr)
    (e e' : Endpoint P) : Prop :=
  ∀ d conn', e'.conns d = some conn' →
    ∃ conn, e.conns d = some conn ∧
      (conn'.acceptQueue = conn.acceptQueue ∨
        ∃ x : AcceptEntry, x.packet = p ∧
          x.Describes fmt (e'.packets p) ∧
          conn'.acceptQueue = conn.acceptQueue ++ [x])

theorem QueuesAtMost.of_conns_eq
    (hConns : e'.conns = e.conns) :
    QueuesAtMost fmt p e e' := by
  intro d conn' hConn'
  rw [hConns] at hConn'
  exact ⟨conn', hConn', Or.inl rfl⟩

theorem QueuesAtMost.of_update
    (hConn : e.conns c = some conn)
    (hConns : e'.conns =
      Function.update e.conns c (some conn'))
    (hQueue : conn'.acceptQueue = conn.acceptQueue ∨
      ∃ x : AcceptEntry, x.packet = p ∧
        x.Describes fmt (e'.packets p) ∧
        conn'.acceptQueue = conn.acceptQueue ++ [x]) :
    QueuesAtMost fmt p e e' := by
  intro d connD hConnD
  rw [hConns, Function.update_apply] at hConnD
  split at hConnD
  · next hEq =>
      cases hConnD
      exact ⟨conn, hEq ▸ hConn, hQueue⟩
  · exact ⟨connD, hConnD, Or.inl rfl⟩

theorem BackResult.queues
    {status : HookStatus}
    (hBack : BackResult fmt cfg p c e status e') :
    QueuesAtMost fmt p e e' := by
  cases hBack with
  | ack _ _ hReceive =>
      rcases receiveAck_ok_iff.mp hReceive with
        ⟨conn, hConn, ⟨-, rfl⟩ | ⟨_, t, -, -, rfl⟩⟩
      · exact .of_conns_eq rfl
      · exact .of_update (e := e) hConn rfl (Or.inl rfl)
  | @data conn e₁ status v taken _ hConn hAcked _ =>
      apply QueuesAtMost.of_update hConn _
        (Or.inl (arrivedConn_members conn status v).2)
      change Function.update e₁.conns c _ = _
      rw [hAcked.conns_eq]

theorem IngressResult.queues
    (hIngress : IngressResult fmt cfg p e e') :
    QueuesAtMost fmt p e e' := by
  cases hIngress with
  | dropped hFront =>
      cases hFront with
      | rejected => exact .of_conns_eq rfl
      | unclaimed => exact .of_conns_eq rfl
      | @parked y l conn q _ _ _ _ _ _ hConn hInsert =>
          rcases insertAcceptQueue_ok_iff.mp hInsert with
            ⟨-, rfl⟩
          have hPacket : ∀ q,
              (e.parked p y l conn q).packets p = y :=
            fun _ => Endpoint.setPacket_packets_self e p y
          refine .of_update (e := e) hConn rfl
            (Or.inr ⟨_, rfl, ?_, rfl⟩)
          rw [hPacket]
          exact ⟨rfl, rfl⟩
  | routed _ _ _ hBack => exact hBack.queues

/-
  What an entry of a queue is afterwards: one that describes
  its packet, or an older one of the packet at `p`.
-/
theorem IngressResult.describes
    (hOld : QueuedOld e)
    (hDescribed : QueuesDescribed fmt e)
    (hIngress : IngressResult fmt cfg p e e')
    {x : AcceptEntry}
    (hConn' : e'.conns d = some conn')
    (hx : x ∈ conn'.acceptQueue) :
    x.Describes fmt (e'.packets x.packet) ∨
      x.packet = p ∧ ∃ conn, e.conns d = some conn ∧
        x ∈ conn.acceptQueue := by
  rcases hIngress.queues d conn' hConn' with
    ⟨conn, hConn, hQueue⟩
  have hOlder : x ∈ conn.acceptQueue →
      x.Describes fmt (e'.packets x.packet) ∨
        x.packet = p ∧ ∃ conn, e.conns d = some conn ∧
          x ∈ conn.acceptQueue := by
    intro hMem
    by_cases hEq : x.packet = p
    · exact Or.inr ⟨hEq, conn, hConn, hMem⟩
    · left
      apply (hDescribed d conn x hConn hMem).congr
      exact hIngress.keepsAddresses _ hEq
        (hOld d conn x hConn hMem)
  rcases hQueue with hSame | ⟨y, hPacket, hY, hAppend⟩
  · rw [hSame] at hx
    exact hOlder hx
  · rw [hAppend] at hx
    rcases List.mem_append.mp hx with hx | hx
    · exact hOlder hx
    · left
      rw [List.mem_singleton.mp hx, hPacket]
      exact hY

/- A packet that is in no queue is processed. -/
theorem QueuesDescribed.ingress
    (hDescribed : QueuesDescribed fmt e)
    (hOld : QueuedOld e)
    (hNew : ∀ d, p ∉ e.parkedAt d)
    (hIngress : IngressResult fmt cfg p e e') :
    QueuesDescribed fmt e' := by
  intro d conn' x hConn' hx
  rcases hIngress.describes hOld hDescribed hConn' hx with
    hDone | ⟨rfl, conn, hConn, hMem⟩
  · exact hDone
  · exact absurd (mem_parkedAt_iff.mpr
      ⟨conn, x, hConn, hMem, rfl⟩) (hNew d)

/-
  A packet is processed while its entry `x` is in a queue,
  and then that entry is taken out.
-/
theorem QueuesDescribed.removes
    {x : AcceptEntry}
    {conn₁ : Connection}
    (hDescribed : QueuesDescribed fmt e)
    (hApart : QueuesApart e.parkedAt)
    (hOld : QueuedOld e)
    (hConn : e.conns c = some conn)
    (hx : conn.acceptQueue[i]? = some x)
    (hIngress : IngressResult fmt cfg x.packet e e₁)
    (hConn₁ : e₁.conns c = some conn₁) :
    QueuesDescribed fmt (dequeueAt c i conn₁ e₁) := by
  have hMemX := List.mem_of_getElem? hx
  have hPackets : (conn.acceptQueue.map
      AcceptEntry.packet).Nodup := by
    rw [← parkedAt_of_conn hConn]
    exact hApart.nodup c
  -- an older entry of the packet is `x` itself
  have hOnly : ∀ d connD y, e.conns d = some connD →
      y ∈ connD.acceptQueue → y.packet = x.packet →
        d = c ∧ y = x := by
    intro d connD y hConnD hy hEq
    have hD : d = c := hApart.apart d c x.packet
      (mem_parkedAt_iff.mpr ⟨connD, y, hConnD, hy, hEq⟩)
      (mem_parkedAt_iff.mpr ⟨conn, x, hConn, hMemX, rfl⟩)
    subst hD
    cases hConn.symm.trans hConnD
    exact ⟨rfl, List.inj_on_of_nodup_map hPackets hy hMemX
      hEq⟩
  rw [dequeueAt_eq hConn₁]
  intro d connD y hConnD hy
  by_cases hEq : d = c
  · subst hEq
    rw [Endpoint.setConn_conns_self] at hConnD
    cases hConnD
    change y ∈ removeAt conn₁.acceptQueue i at hy
    rcases hIngress.describes hOld hDescribed hConn₁
      (mem_of_mem_removeAt hy) with
        hDone | ⟨hPacket, connD, hConnD, hMem⟩
    · exact hDone
    · -- it is in the queue twice, and the new one describes
      rcases hOnly d connD y hConnD hMem hPacket with ⟨-, rfl⟩
      rcases hIngress.queues d conn₁ hConn₁ with
        ⟨conn₀, hConn₀, hQueue⟩
      cases hConn.symm.trans hConn₀
      have hNodup : conn.acceptQueue.Nodup :=
        hPackets.of_map
      rcases hQueue with hSame | ⟨z, hZ, hNew, hAppend⟩
      · rw [hSame] at hy
        have hAll := (removeAt_perm hx).nodup_iff.mpr hNodup
        exact absurd hy (List.nodup_cons.mp hAll).1
      · by_cases hSame : z = y
        · rw [← hSame, hZ]
          exact hNew
        · have hNotMem : z ∉ conn.acceptQueue := by
            intro hMemZ
            exact hSame (hOnly d conn z hConn hMemZ hZ).2
          have hNodup₁ : conn₁.acceptQueue.Nodup := by
            rw [hAppend, List.nodup_append]
            refine ⟨hNodup, List.nodup_singleton z, ?_⟩
            rintro w hw w' hw' rfl
            exact hNotMem (List.mem_singleton.mp hw' ▸ hw)
          have hx₁ : conn₁.acceptQueue[i]? = some y := by
            rw [hAppend, List.getElem?_append_left, hx]
            exact (List.getElem?_eq_some_iff.mp hx).1
          have hAll := (removeAt_perm hx₁).nodup_iff.mpr
            hNodup₁
          exact absurd hy (List.nodup_cons.mp hAll).1
  · rw [Endpoint.setConn_conns_of_ne _ _ hEq] at hConnD
    rcases hIngress.describes hOld hDescribed hConnD hy with
      hDone | ⟨hPacket, connE, hConnE, hMem⟩
    · exact hDone
    · exact absurd (hOnly d connE y hConnE hMem hPacket).1 hEq

------------------------------------------------------------
-- Calls and Entries
------------------------------------------------------------

theorem Calls.queuesDescribed
    {call : Call P}
    (hOld : QueuedOld e)
    (hDescribed : QueuesDescribed fmt e)
    (hCall : Calls fmt cfg e call e') :
    QueuesDescribed fmt e' := by
  cases hCall with
  | @establish _ l _ _ _ _ _ _ hEstablish =>
      rcases nbEstablish_frame hEstablish with
        ⟨-, -, -, -, -, hPackets⟩
      apply hDescribed.of_older
      intro d conn' x hConn' hx
      rw [nbEstablish_conns hEstablish,
        Function.update_apply] at hConn'
      split at hConn'
      · cases hConn'
        rw [openedConn_acceptQueue] at hx
        cases hx
      · refine ⟨conn', hConn', hx, ?_⟩
        intro f _
        rw [hPackets _ (Or.inl (hOld d conn' x hConn' hx))]
  | @destablish _ l hDestablish =>
      rcases nbDestablish_ok_iff.mp hDestablish with
        ⟨conn, -, rfl⟩
      apply hDescribed.of_older
      intro d conn' x hConn' hx
      dsimp only at hConn'
      rw [Function.update_apply] at hConn'
      split at hConn'
      · cases hConn'
      · exact ⟨conn', hConn', hx, fun _ _ => rfl⟩
  | send hSend =>
      rcases nbSend_ok_iff.mp hSend with
        ⟨conn, _, _, _, _, hConn, -, -, -, rfl⟩
      refine hDescribed.assign hConn rfl (fun _ hx => hx) ?_
      intro d connD x hConnD hx
      exact Endpoint.setPacket_packets_of_ne e _
        (Nat.ne_of_lt (hOld d connD x hConnD hx))
  | @ingress _ x len hIngress =>
      have hNew : ∀ d, e.nextPacket ∉
          (e.polled x).parkedAt d :=
        not_mem_parkedAt (e := e) hOld (Nat.le_refl _)
      have hPolled : QueuesDescribed fmt (e.polled x) := by
        intro d conn y hConn hy
        rw [polled_packets_of_ne x
          (Nat.ne_of_lt (hOld d conn y hConn hy))]
        exact hDescribed d conn y hConn hy
      have hOld' : QueuedOld (e.polled x) :=
        fun d conn y hConn hy => Nat.lt_succ_of_lt
          (hOld d conn y hConn hy)
      exact hPolled.ingress hOld' hNew
        (ingress_iff.mp hIngress)
  | checkTimers hCheck =>
      rcases checkTimersLoop_frame hCheck with
        ⟨timers, out, rfl⟩
      exact hDescribed
  | tick => exact hDescribed
  | read hRead =>
      rcases nbRead_frame hRead with ⟨conn, q, hConn, rfl⟩
      exact hDescribed.assign hConn rfl (fun _ hx => hx)
        (fun _ _ _ _ _ => rfl)

theorem QueuesDescribed.setConn
    (hDescribed : QueuesDescribed fmt e)
    (hConn : e.conns c = some conn)
    (hQueue : ∀ x ∈ conn'.acceptQueue, x ∈ conn.acceptQueue) :
    QueuesDescribed fmt (e.setConn c conn') :=
  hDescribed.assign hConn rfl hQueue (fun _ _ _ _ _ => rfl)

theorem nbAccept_queuesDescribed
    {fuel : Nat}
    {result : ConnPtr}
    (hApart : QueuesApart e.parkedAt)
    (hOld : QueuedOld e)
    (hDescribed : QueuesDescribed fmt e)
    (hNe : s ≠ 0)
    (hFree : e.conns s = none)
    (hAccept : nbAccept fmt cfg c s fresh fuel e =
      .ok (result, e')) :
    QueuesDescribed fmt e' := by
  rcases nbAccept_stages hNe hFree hAccept with
    ⟨conn, hConn, ⟨-, rfl⟩ | ⟨x, e₂, opened, e₄, hLast, hCall,
      hOpened, hIngress, hLoop⟩⟩
  · exact hDescribed
  · have hReady := queuesOpened_of_establish hApart hOld hConn
      hLast hCall hOpened
    have hResult := (runIngressPath_iff
      (Nat.ne_of_lt hReady.handedOut)).mp hIngress
    -- the entry is taken out, and a connection is opened
    have hPopped : ∀ y ∈ (conn.withAcceptQueue
        conn.acceptQueue.dropLast).acceptQueue,
        y ∈ conn.acceptQueue :=
      fun y hy => (List.dropLast_sublist _).subset hy
    have hOld₁ : QueuedOld (e.setConn c (conn.withAcceptQueue
        conn.acceptQueue.dropLast)) :=
      hOld.assign hConn rfl hPopped
    have hDescribed₂ := hCall.queuesDescribed hOld₁
      (hDescribed.setConn hConn hPopped)
    have hDescribed₃ : QueuesDescribed fmt (e₂.setConn s
        { opened with signalingState := .signaled }) :=
      hDescribed₂.setConn hOpened (fun _ hx => hx)
    -- packets are processed
    have hApart₄ := hResult.parksAtMost.queuesApart
      hReady.apart hReady.gone
    have hOld₄ := hReady.old.replay hReady.handedOut hIngress
    have hDescribed₄ := hDescribed₃.ingress hReady.old
      hReady.gone hResult
    refine (acceptLoop_invariant (fun e : Endpoint P =>
      (QueuesApart e.parkedAt ∧ QueuedOld e) ∧
        QueuesDescribed fmt e) ?_
          ⟨⟨hApart₄, hOld₄⟩, hDescribed₄⟩ hLoop).2
    rintro e i conn x e₁ conn₁ ⟨⟨hApart, hOld⟩, hDescribed⟩
      hConn hx hIngress hConn₁
    have hPacket : x.packet < e.nextPacket :=
      hOld c conn x hConn (List.mem_of_getElem? hx)
    exact ⟨queuesApart_dequeued hApart hOld hConn hx hIngress
      hConn₁, hDescribed.removes hApart hOld hConn hx
        ((runIngressPath_iff (Nat.ne_of_lt hPacket)).mp
          hIngress) hConn₁⟩

/- Every call of the API keeps the entries as they should be. -/
theorem ApiCalls.queuesDescribed
    {call : ApiCall P}
    (hApart : QueuesApart e.parkedAt)
    (hOld : QueuedOld e)
    (hDescribed : QueuesDescribed fmt e)
    (hCall : ApiCalls fmt cfg e call e') :
    QueuesDescribed fmt e' := by
  cases hCall with
  | call hCall => exact hCall.queuesDescribed hOld hDescribed
  | accept hNe hFree hAccept =>
      exact nbAccept_queuesDescribed hApart hOld hDescribed hNe
        hFree hAccept

end Described

end NetBlocks
