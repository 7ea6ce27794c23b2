import NetBlocks.Core.CallEffects
import NetBlocks.Correctness.Redelivery

/-
  The packets in redelivery buffers and their timers. No
  order of the send buffers is assumed: the next one may have
  been used before.

  Main declarations:
    * `SlotsArmed` and `ArmedFor`
    * `Endpoint.Holds` and `Endpoint.Retains`
    * `SlotsArmed.sent` and `SlotsArmed.acked`
    * `Calls.holdsIn` and `IngressResult.holdsIn`
    * `SlotsArmed.step` and `SlotsArmed.processes`
-/

namespace NetBlocks

open Except

variable {P : Type}

------------------------------------------------------------
-- The Invariant
------------------------------------------------------------

/- The packet is in slot `k` of the connection at `c`. -/
def Endpoint.HoldsIn
    (e : Endpoint P)
    (c : ConnPtr)
    (k : Slot)
    (p : PacketPtr) : Prop :=
  ∃ b, e.buffers c = some b ∧ b k = some p

/- The packet is in a slot of some redelivery buffer. -/
def Endpoint.Holds
    (e : Endpoint P)
    (p : PacketPtr) : Prop :=
  ∃ c k, e.HoldsIn c k p

/-
  Every packet in a redelivery buffer is in one slot only,
  and has an active timer of its own.
-/
structure SlotsArmed
    (fmt : PacketFormat P)
    (e : Endpoint P)
    (active free : List TimerPtr) : Prop where
  pool : e.timers.Represents active free
  all : ∀ t, t ∈ active ++ free
  timed : ∀ p, e.Holds p →
    ∃ t ∈ active, e.timerOf fmt p = some t ∧
      (e.timers.allocatedTimers t).argument = p
  once : ∀ c k c' k' p, e.HoldsIn c k p →
    e.HoldsIn c' k' p → c = c' ∧ k = k'

/- Every active timer is for a packet of a set. -/
def ArmedFor
    (armed : PacketPtr → Prop)
    (e : Endpoint P)
    (active : List TimerPtr) : Prop :=
  ∀ t ∈ active, armed (e.timers.allocatedTimers t).argument

/-
  The stack may still send the packet again: it is in a slot,
  or an active timer is for it.
-/
def Endpoint.Retains
    (e : Endpoint P)
    (p : PacketPtr) : Prop :=
  e.Holds p ∨ ∃ t, e.timers.IsActive t ∧
    (e.timers.allocatedTimers t).argument = p

section Slots

variable
    {fmt : PacketFormat P}
    {e e' : Endpoint P}
    {active active' free : List TimerPtr}
    {c : ConnPtr}

theorem SlotsArmed.retains_iff
    (hSlots : SlotsArmed fmt e active free)
    {p : PacketPtr} :
    e.Retains p ↔ ∃ t ∈ active,
      (e.timers.allocatedTimers t).argument = p := by
  constructor
  · rintro (hHolds | ⟨t, hActive, hArgument⟩)
    · rcases hSlots.timed p hHolds with
        ⟨t, hActive, -, hArgument⟩
      exact ⟨t, hActive, hArgument⟩
    · exact ⟨t, hSlots.pool.isActive_iff.mp hActive,
        hArgument⟩
  · rintro ⟨t, hActive, hArgument⟩
    exact Or.inr ⟨t, hSlots.pool.isActive_iff.mpr hActive,
      hArgument⟩

/- Nothing is put into a slot, and no timer stops. -/
theorem SlotsArmed.fewer
    (hSlots : SlotsArmed fmt e active free)
    (hPool : e'.timers.Represents active' free)
    (hPerm : active'.Perm active)
    (hArgument : ∀ t,
      (e'.timers.allocatedTimers t).argument =
        (e.timers.allocatedTimers t).argument)
    (hHeld : ∀ d k p, e'.HoldsIn d k p → e.HoldsIn d k p)
    (hTimer : ∀ p, e.Holds p →
      e'.timerOf fmt p = e.timerOf fmt p) :
    SlotsArmed fmt e' active' free := by
  refine ⟨hPool, ?_, ?_, ?_⟩
  · intro t
    exact (hPerm.append_right free).mem_iff.mpr (hSlots.all t)
  · rintro p ⟨d, k, hHolds'⟩
    have hHolds : e.Holds p := ⟨d, k, hHeld d k p hHolds'⟩
    rcases hSlots.timed p hHolds with
      ⟨t, hActive, hTimerOf, hArg⟩
    refine ⟨t, hPerm.mem_iff.mpr hActive, ?_,
      (hArgument t).trans hArg⟩
    rw [hTimer p hHolds]
    exact hTimerOf
  · intro d k d' k' p hHolds hHolds'
    exact hSlots.once d k d' k' p (hHeld d k p hHolds)
      (hHeld d' k' p hHolds')

/- Slots may be emptied, and timers are as they were. -/
theorem SlotsArmed.of_same
    (hSlots : SlotsArmed fmt e active free)
    (hTimers : e'.timers = e.timers)
    (hHeld : ∀ d k p, e'.HoldsIn d k p → e.HoldsIn d k p)
    (hTimer : ∀ p, e.Holds p →
      e'.timerOf fmt p = e.timerOf fmt p) :
    SlotsArmed fmt e' active free :=
  hSlots.fewer (hTimers ▸ hSlots.pool) (List.Perm.refl _)
    (fun _ => by rw [hTimers]) hHeld hTimer

/-
  A buffer `p` that nothing holds is put into a slot with an
  active timer, whatever the slot held before.
-/
theorem SlotsArmed.sent
    {t : TimerPtr}
    {k : Slot}
    {p : PacketPtr}
    (hSlots : SlotsArmed fmt e active (t :: free))
    (hPool : e'.timers.Represents active' free)
    (hPerm : active'.Perm (t :: active))
    (hArgument : (e'.timers.allocatedTimers t).argument = p)
    (hOthers : ∀ u, u ≠ t →
      (e'.timers.allocatedTimers u).argument =
        (e.timers.allocatedTimers u).argument)
    (hHeld : ∀ d j q, e'.HoldsIn d j q →
      e.HoldsIn d j q ∨ q = p ∧ d = c ∧ j = k)
    (hNew : ¬ e.Holds p)
    (hTimer : e'.timerOf fmt p = some t)
    (hTimers : ∀ q, e.Holds q →
      e'.timerOf fmt q = e.timerOf fmt q) :
    SlotsArmed fmt e' active' free := by
  have hOff : t ∉ active := by
    have hNodup := hSlots.pool.nodup
    have hMiddle : (active ++ t :: free).Perm
        (t :: (active ++ free)) := List.perm_middle
    rw [hMiddle.nodup_iff, List.nodup_cons] at hNodup
    exact fun hMem => hNodup.1 (List.mem_append_left _ hMem)
  have hOld : ∀ d j q, e.HoldsIn d j q → q ≠ p := by
    rintro d j q hHolds rfl
    exact hNew ⟨d, j, hHolds⟩
  refine ⟨hPool, ?_, ?_, ?_⟩
  · intro u
    have hAll := hSlots.all u
    rw [List.mem_append, hPerm.mem_iff, List.mem_cons]
    rw [List.mem_append, List.mem_cons] at hAll
    tauto
  · rintro q ⟨d, j, hHolds'⟩
    rcases hHeld d j q hHolds' with hHolds | ⟨rfl, -, -⟩
    · have hBefore : e.Holds q := ⟨d, j, hHolds⟩
      rcases hSlots.timed q hBefore with
        ⟨u, hActive, hU, hArg⟩
      refine ⟨u, hPerm.mem_iff.mpr
        (List.mem_cons_of_mem _ hActive), ?_, ?_⟩
      · rw [hTimers q hBefore]
        exact hU
      · rw [hOthers u (fun hEq => hOff (hEq ▸ hActive))]
        exact hArg
    · exact ⟨t, hPerm.mem_iff.mpr (List.mem_cons_self ..),
        hTimer, hArgument⟩
  · intro d j d' j' q hHolds hHolds'
    rcases hHeld d j q hHolds with hFirst | ⟨hQ, hD, hJ⟩
    · rcases hHeld d' j' q hHolds' with hSecond | ⟨hQ, -, -⟩
      · exact hSlots.once d j d' j' q hFirst hSecond
      · exact absurd hQ (hOld d j q hFirst)
    · rcases hHeld d' j' q hHolds' with
        hSecond | ⟨-, hD', hJ'⟩
      · exact absurd hQ (hOld d' j' q hSecond)
      · exact ⟨hD.trans hD'.symm, hJ.trans hJ'.symm⟩

/- A packet and its timer leave a slot together. -/
theorem SlotsArmed.acked
    {k : Slot}
    {q : PacketPtr}
    {t : TimerPtr}
    (hSlots : SlotsArmed fmt e active free)
    (hSlot : e.HoldsIn c k q)
    (hTimer : e.timerOf fmt q = some t)
    (hPool : e'.timers =
      (e.timers.removeTimer t).returnTimer t)
    (hHeld : ∀ d j p, e'.HoldsIn d j p →
      e.HoldsIn d j p ∧ ¬ (d = c ∧ j = k))
    (hTimers : ∀ p, e.Holds p →
      e'.timerOf fmt p = e.timerOf fmt p) :
    ∃ active', SlotsArmed fmt e' active' (t :: free) ∧
      ∀ u, u ∈ active' ↔ u ∈ active ∧ u ≠ t := by
  rcases hSlots.timed q ⟨c, k, hSlot⟩ with
    ⟨u, hActive, hTimer', hArgument⟩
  cases hTimer.symm.trans hTimer'
  rcases List.append_of_mem hActive with ⟨xs, ys, rfl⟩
  have hMiddle : (xs ++ t :: ys ++ free).Perm
      (t :: (xs ++ ys ++ free)) := by
    rw [List.append_assoc, List.append_assoc]
    exact List.perm_middle
  have hNodup := List.nodup_cons.mp
    (hMiddle.nodup_iff.mp hSlots.pool.nodup)
  have hArguments : ∀ u,
      (e'.timers.allocatedTimers u).argument =
        (e.timers.allocatedTimers u).argument := by
    intro u
    rw [hPool, TimerPool.argument_returnTimer,
      TimerPool.argument_removeTimer]
  refine ⟨xs ++ ys, ⟨?_, ?_, ?_, ?_⟩, ?_⟩
  · rw [hPool]
    exact TimerPool.returnTimer_represents
      (TimerPool.removeTimer_represents hSlots.pool) hNodup.1
  · intro u
    have hAll := hSlots.all u
    simp only [List.mem_append, List.mem_cons] at hAll ⊢
    tauto
  · rintro p ⟨d, j, hHolds'⟩
    rcases hHeld d j p hHolds' with ⟨hHolds, hNot⟩
    have hBefore : e.Holds p := ⟨d, j, hHolds⟩
    rcases hSlots.timed p hBefore with
      ⟨u, hU, hTimerU, hArgumentU⟩
    refine ⟨u, ?_, ?_, ?_⟩
    · have hOther : u ≠ t := by
        rintro rfl
        have hSame : q = p := hArgument.symm.trans hArgumentU
        subst hSame
        exact hNot (hSlots.once d j c k q hHolds hSlot)
      simp only [List.mem_append, List.mem_cons] at hU ⊢
      tauto
    · rw [hTimers p hBefore]
      exact hTimerU
    · exact (hArguments u).trans hArgumentU
  · intro d j d' j' p hHolds hHolds'
    exact hSlots.once d j d' j' p (hHeld d j p hHolds).1
      (hHeld d' j' p hHolds').1
  · intro u
    have hNotMem := hNodup.1
    simp only [List.mem_append, List.mem_cons] at hNotMem ⊢
    constructor
    · intro hU
      refine ⟨by tauto, ?_⟩
      rintro rfl
      tauto
    · tauto

theorem ArmedFor.of_timers_eq
    {armed : PacketPtr → Prop}
    (hArmed : ArmedFor armed e active)
    (hTimers : e'.timers = e.timers) :
    ArmedFor armed e' active := by
  intro t ht
  rw [hTimers]
  exact hArmed t ht

end Slots

------------------------------------------------------------
-- What Is Put into Slots
------------------------------------------------------------

/- The connection that a call sends on, if it sends. -/
def Call.sender : Call P → Option ConnPtr
| .establish c .. => some c
| .send c _ => some c
| _ => none

section Holds

variable
    {fmt : PacketFormat P}
    {cfg : Config}
    {e e' : Endpoint P}
    {c d : ConnPtr}
    {k : Slot}
    {conn conn' : Connection}
    {p q : PacketPtr}

theorem holdsIn_of_buffers
    {b : Option (Slot → Option PacketPtr)}
    (hBuffers : e'.buffers = Function.update e.buffers c b)
    (hHolds : e'.HoldsIn d k p) :
    e.HoldsIn d k p ∨
      d = c ∧ ∃ b', b = some b' ∧ b' k = some p := by
  rcases hHolds with ⟨b', hB, hSlot⟩
  rw [hBuffers, Function.update_apply] at hB
  split at hB
  · next hEq => exact Or.inr ⟨hEq, b', hB, hSlot⟩
  · exact Or.inl ⟨b', hB, hSlot⟩

/- Assigning to a connection, but not to its slots. -/
theorem holdsIn_of_setConn
    (hHolds : (e.setConn c conn').HoldsIn d k p)
    (hConn : e.conns c = some conn)
    (hBuffer : conn'.redeliveryBuffer =
      conn.redeliveryBuffer) :
    e.HoldsIn d k p := by
  rcases holdsIn_of_buffers (buffers_setConn conn') hHolds with
    hHolds | ⟨rfl, b', hB, hSlot⟩
  · exact hHolds
  · cases hB
    rw [hBuffer] at hSlot
    exact ⟨_, buffers_of_some hConn, hSlot⟩

/- A new connection starts without packets in slots. -/
theorem holdsIn_of_registered
    {netState : NetState}
    (hBlank : conn.redeliveryBuffer = fun _ => none)
    (hHolds : (e.registered c conn netState).HoldsIn d k p) :
    e.HoldsIn d k p := by
  have hBuffers : (e.registered c conn netState).buffers =
      Function.update e.buffers c
        (some conn.redeliveryBuffer) :=
    buffers_setConn (e := { e with netState }) conn
  rcases holdsIn_of_buffers hBuffers hHolds with
    hHolds | ⟨-, b', hB, hSlot⟩
  · exact hHolds
  · cases hB
    rw [hBlank] at hSlot
    cases hSlot

/- A packet that is sent is put into the slot of its number. -/
theorem holdsIn_of_sent
    {x : P}
    {timers : TimerPool}
    (hReliable : cfg.reliableEnabled = true)
    (hBuffer : e.buffers c = some conn.redeliveryBuffer)
    (hHolds : (e.requested.sent fmt cfg c conn p timers
      x).HoldsIn d k q) :
    e.HoldsIn d k q ∨ q = p ∧ d = c ∧
      k = slot (conn.lastSentSequence + 1) := by
  have hBuffers : (e.requested.sent fmt cfg c conn p timers
      x).buffers = Function.update e.buffers c
        (some (numberedConn cfg conn p).redeliveryBuffer) :=
    buffers_setConn (e := e) _
  rcases holdsIn_of_buffers hBuffers hHolds with
    hHolds | ⟨rfl, b', hB, hSlot⟩
  · exact Or.inl hHolds
  · cases hB
    rw [numberedConn_redeliveryBuffer hReliable,
      Function.update_apply] at hSlot
    split at hSlot
    · next hEq =>
        exact Or.inr ⟨(Option.some.inj hSlot).symm, rfl, hEq⟩
    · exact Or.inl ⟨_, hBuffer, hSlot⟩

/-
  What is in a slot after a call was there before, or is the
  next buffer, on the connection that sent.
-/
theorem Calls.holdsIn
    {call : Call P}
    (hReliable : cfg.reliableEnabled = true)
    (hNot : ∀ x len, call ≠ .ingress x len)
    (hCall : Calls fmt cfg e call e')
    (hHolds : e'.HoldsIn d k q) :
    e.HoldsIn d k q ∨ q = e.nextPacket ∧
      e.nextPacket < e'.nextPacket ∧
        call.sender = some d := by
  cases hCall with
  | @establish _ c fresh h a sa _ _ hEstablish =>
      rcases nbEstablish_ok_iff.mp hEstablish with
        ⟨netState, conn', e₁, -, hSignal, rfl⟩
      let conn₀ := establishedConn cfg fresh
        (e.hostLocalId h) a sa
      let e₀ := e.registered c conn₀ netState
      have hBlank : conn₀.redeliveryBuffer = fun _ => none :=
        if_pos hReliable
      have hConn₀ : e₀.conns c = some conn₀ :=
        Endpoint.setConn_conns_self _ c _
      have hRouted : (routedConn cfg sa
          conn').redeliveryBuffer = conn'.redeliveryBuffer := by
        unfold routedConn
        split <;> rfl
      change SignalResult fmt cfg c conn₀ h a e₀ conn' e₁
        at hSignal
      have hHolds₁ := holdsIn_of_setConn hHolds
        hSignal.conns_self hRouted
      cases hSignal with
      | wildcard _ hEq =>
          exact Or.inl (holdsIn_of_registered hBlank
            (holdsIn_of_setConn hHolds₁ hConn₀ (by rw [hEq])))
      | unsignaled _ _ hEq =>
          exact Or.inl (holdsIn_of_registered hBlank
            (holdsIn_of_setConn hHolds₁ hConn₀ (by rw [hEq])))
      | @signals conn₁ x t timers _ _ hEq _ =>
          have hOwn := buffers_of_some hConn₀
          have hBuffer : e₀.buffers c =
              some conn₁.redeliveryBuffer := by
            rw [hEq]
            exact hOwn
          rcases holdsIn_of_sent hReliable hBuffer hHolds₁ with
            hHolds₀ | ⟨rfl, rfl, -⟩
          · exact Or.inl (holdsIn_of_registered hBlank hHolds₀)
          · exact Or.inr ⟨rfl, Nat.lt_succ_self _, rfl⟩
  | destablish hDestablish =>
      rcases nbDestablish_ok_iff.mp hDestablish with
        ⟨conn, hConn, rfl⟩
      rcases hHolds with ⟨b, hB, hSlot⟩
      simp only [Endpoint.buffers, Function.update_apply]
        at hB
      split at hB
      · cases hB
      · exact Or.inl ⟨b, hB, hSlot⟩
  | send hSend =>
      rcases nbSend_ok_iff.mp hSend with
        ⟨conn, y, x, t, timers, hConn, -, -, -, rfl⟩
      rcases holdsIn_of_sent hReliable (buffers_of_some hConn)
          hHolds with hHolds | ⟨rfl, rfl, -⟩
      · exact Or.inl hHolds
      · exact Or.inr ⟨rfl, Nat.lt_succ_self _, rfl⟩
  | @ingress _ x len => exact absurd rfl (hNot x len)
  | checkTimers hCheck =>
      rcases checkTimersLoop_frame hCheck with
        ⟨timers, out, rfl⟩
      exact Or.inl hHolds
  | tick => exact Or.inl hHolds
  | read hRead =>
      rcases nbRead_frame hRead with ⟨conn, queue, hConn, rfl⟩
      exact Or.inl (holdsIn_of_setConn hHolds hConn rfl)

/- An ack empties the slot of its number. -/
theorem holdsIn_of_acked
    {timers : TimerPool}
    {j : Slot}
    (hConn : e.conns c = some conn)
    (hHolds : (({ e with timers } : Endpoint P).setConn c
      { conn with
        redeliveryBuffer := Function.update
          conn.redeliveryBuffer j none }).HoldsIn d k p) :
    e.HoldsIn d k p ∧ ¬ (d = c ∧ k = j) := by
  rcases hHolds with ⟨b, hB, hSlot⟩
  rw [buffers_setConn, Function.update_apply] at hB
  split at hB
  · next hEq =>
      cases hB
      dsimp only at hSlot
      rw [Function.update_apply] at hSlot
      split at hSlot
      · cases hSlot
      · next hNe =>
          exact ⟨⟨_, hEq ▸ buffers_of_some hConn, hSlot⟩,
            fun hBoth => hNe hBoth.2⟩
  · next hNe =>
      exact ⟨⟨b, hB, hSlot⟩, fun hBoth => hNe hBoth.1⟩

theorem BackResult.holdsIn
    {status : HookStatus}
    (hBack : BackResult fmt cfg p c e status e')
    (hHolds : e'.HoldsIn d k q) :
    e.HoldsIn d k q := by
  cases hBack with
  | ack _ _ hReceive =>
      rcases receiveAck_ok_iff.mp hReceive with
        ⟨conn, hConn, ⟨-, rfl⟩ | ⟨_, t, -, -, rfl⟩⟩
      · exact hHolds
      · exact (holdsIn_of_acked hConn hHolds).1
  | @data conn e₁ status v taken _ hConn hAcked _ =>
      have hConn₁ : e₁.conns c = some conn := by
        rw [hAcked.conns_eq]
        exact hConn
      have hHolds₁ : e₁.HoldsIn d k q :=
        holdsIn_of_setConn hHolds hConn₁
          (arrivedConn_redeliveryBuffer conn status v)
      rw [Endpoint.HoldsIn, Endpoint.buffers,
        hAcked.conns_eq] at hHolds₁
      exact hHolds₁

/- A packet received puts nothing into a slot. -/
theorem IngressResult.holdsIn
    (hIngress : IngressResult fmt cfg p e e')
    (hHolds : e'.HoldsIn d k q) :
    e.HoldsIn d k q := by
  cases hIngress with
  | dropped hFront =>
      cases hFront with
      | rejected => exact hHolds
      | unclaimed => exact hHolds
      | @parked y listener conn queue _ _ _ _ _ _ hConn =>
          have hHolds₁ : (e.setConn listener
              { conn with acceptQueue := queue }).HoldsIn d k
                q := hHolds
          exact holdsIn_of_setConn hHolds₁ hConn rfl
  | routed _ _ _ hBack => exact hBack.holdsIn hHolds

end Holds

------------------------------------------------------------
-- What Calls Do
------------------------------------------------------------

/- The slots are in order, with timers for a set of packets. -/
def HasArmedSlots
    (fmt : PacketFormat P)
    (armed : PacketPtr → Prop)
    (e : Endpoint P) : Prop :=
  ∃ active free, SlotsArmed fmt e active free ∧
    ArmedFor armed e active

section Steps

variable
    {fmt : PacketFormat P}
    {cfg : Config}
    {e e' : Endpoint P}
    {active free : List TimerPtr}
    {c : ConnPtr}
    {conn : Connection}
    {armed : PacketPtr → Prop}
    {p : PacketPtr}

/- A step that sends nothing and stops no timer. -/
theorem SlotsArmed.quiet
    (hSlots : SlotsArmed fmt e active free)
    (hArmed : ArmedFor armed e active)
    (hTimers : e'.timers = e.timers)
    (hHeld : ∀ d k p, e'.HoldsIn d k p → e.HoldsIn d k p)
    (hTimer : ∀ p, e.Holds p →
      e'.timerOf fmt p = e.timerOf fmt p) :
    HasArmedSlots fmt armed e' :=
  ⟨active, free, hSlots.of_same hTimers hHeld hTimer,
    hArmed.of_timers_eq hTimers⟩

/-
  A packet is sent in a buffer that no slot holds, on a
  connection whose slots are those before.
-/
theorem SlotsArmed.sends
    {y x : P}
    {t : Option TimerPtr}
    {timers : TimerPool}
    (hSlots : SlotsArmed fmt e active free)
    (hArmed : ArmedFor armed e active)
    (hReliable : cfg.reliableEnabled = true)
    (hSends : Sends fmt cfg e conn e.nextPacket y x t timers)
    (hFits : HostsFit conn e.myLocalHostId)
    (hSized : fmt.Sized y)
    (hBuffer : e.buffers c = some conn.redeliveryBuffer)
    (hNew : ¬ e.Holds e.nextPacket ∧ armed e.nextPacket) :
    HasArmedSlots fmt armed (e.requested.sent fmt cfg c conn
      e.nextPacket timers x) := by
  rcases hSends.effect hSlots.pool hReliable hFits hSized c
    with ⟨u, free', active', rfl, hEffect⟩
  have hTimers : ∀ q, e.Holds q →
      (e.requested.sent fmt cfg c conn e.nextPacket timers
        x).timerOf fmt q = e.timerOf fmt q := by
    intro q hHolds
    have hNe : q ≠ e.nextPacket := by
      rintro rfl
      exact hNew.1 hHolds
    have hPacket : (e.requested.sent fmt cfg c conn
        e.nextPacket timers x).packets q = e.packets q :=
      Endpoint.setPacket_packets_of_ne _ _ hNe
    rw [Endpoint.timerOf, hPacket, Endpoint.timerOf]
  refine ⟨active', free', hSlots.sent hEffect.pool
    hEffect.perm hEffect.argument hEffect.others
    (fun _ _ _ hHolds => holdsIn_of_sent hReliable hBuffer
      hHolds) hNew.1 hEffect.timer hTimers, ?_⟩
  intro v hv
  by_cases hEq : v = u
  · rw [hEq, hEffect.argument]
    exact hNew.2
  · rw [hEffect.others v hEq]
    rcases List.mem_cons.mp (hEffect.perm.mem_iff.mp hv) with
      hU | hOld
    · exact absurd hU hEq
    · exact hArmed v hOld

/- Assigning to a connection, but not to its slots. -/
theorem HasArmedSlots.setConn
    {conn' : Connection}
    (hSlots : HasArmedSlots fmt armed e)
    (hConn : e.conns c = some conn)
    (hBuffer : conn'.redeliveryBuffer =
      conn.redeliveryBuffer) :
    HasArmedSlots fmt armed (e.setConn c conn') := by
  rcases hSlots with ⟨active, free, hSlots, hArmed⟩
  exact hSlots.quiet hArmed rfl
    (fun _ _ _ hHolds => holdsIn_of_setConn hHolds hConn
      hBuffer) (fun _ _ => rfl)

theorem SlotsArmed.establish
    {fresh : Connection}
    {h a sa : BitVec 32}
    (hSlots : SlotsArmed fmt e active free)
    (hArmed : ArmedFor armed e active)
    (hReliable : cfg.reliableEnabled = true)
    (hHosts : HostsKept e)
    (hEstablish : nbEstablish fmt cfg c fresh h a sa e =
      .ok e')
    (hNew : e.nextPacket < e'.nextPacket →
      ¬ e.Holds e.nextPacket ∧ armed e.nextPacket) :
    HasArmedSlots fmt armed e' := by
  rcases nbEstablish_ok_iff.mp hEstablish with
    ⟨netState, conn', e₁, -, hSignal, rfl⟩
  let conn₀ := establishedConn cfg fresh (e.hostLocalId h) a sa
  let e₀ := e.registered c conn₀ netState
  have hBlank : conn₀.redeliveryBuffer = fun _ => none :=
    if_pos hReliable
  have hConn₀ : e₀.conns c = some conn₀ :=
    Endpoint.setConn_conns_self _ c _
  have hHeld₀ : ∀ d k q, e₀.HoldsIn d k q →
      e.HoldsIn d k q :=
    fun _ _ _ hHolds => holdsIn_of_registered hBlank hHolds
  have hQuiet : HasArmedSlots fmt armed e₀ :=
    hSlots.quiet hArmed rfl hHeld₀ (fun _ _ => rfl)
  have hRouted : (routedConn cfg sa conn').redeliveryBuffer =
      conn'.redeliveryBuffer := by
    unfold routedConn
    split <;> rfl
  change SignalResult fmt cfg c conn₀ h a e₀ conn' e₁
    at hSignal
  refine HasArmedSlots.setConn ?_ hSignal.conns_self hRouted
  cases hSignal with
  | wildcard _ hEq =>
      exact hQuiet.setConn hConn₀ (by rw [hEq])
  | unsignaled _ _ hEq =>
      exact hQuiet.setConn hConn₀ (by rw [hEq])
  | @signals conn₁ x t timers _ _ hEq hSends =>
      have hUnheld : ¬ e₀.Holds e.nextPacket ∧
          armed e.nextPacket := by
        rcases hNew (Nat.lt_succ_self _) with ⟨hNot, hOf⟩
        refine ⟨?_, hOf⟩
        rintro ⟨d, k, hHolds⟩
        exact hNot ⟨d, k, hHeld₀ d k _ hHolds⟩
      have hFits : HostsFit conn₁ e₀.myLocalHostId := by
        rw [hEq]
        exact ⟨Nat.lt_trans (lookup_lt _ _) (by decide),
          Nat.lt_trans hHosts.own (by decide)⟩
      have hOwn := buffers_of_some hConn₀
      have hBuffer : e₀.buffers c =
          some conn₁.redeliveryBuffer := by
        rw [hEq]
        exact hOwn
      rcases hQuiet with ⟨active₀, free₀, hSlots₀, hArmed₀⟩
      exact hSlots₀.sends hArmed₀ hReliable hSends hFits
        (sized_signal _) hBuffer hUnheld

/-
  What one call preserves, but for a packet received. A timer
  that is active after it was active before, for the same
  packet, or is for the next buffer, which the call sent.
-/
theorem SlotsArmed.step
    {call : Call P}
    (hSlots : SlotsArmed fmt e active free)
    (hArmed : ArmedFor armed e active)
    (hReliable : cfg.reliableEnabled = true)
    (hHosts : HostsKept e)
    (hNot : ∀ x len, call ≠ .ingress x len)
    (hCall : Calls fmt cfg e call e')
    (hNew : e.nextPacket < e'.nextPacket →
      ¬ e.Holds e.nextPacket ∧ armed e.nextPacket) :
    HasArmedSlots fmt armed e' := by
  have hHeld : e'.nextPacket = e.nextPacket → ∀ d k q,
      e'.HoldsIn d k q → e.HoldsIn d k q := by
    intro hSame d k q hHolds'
    rcases hCall.holdsIn hReliable hNot hHolds' with
      hBefore | ⟨-, hTaken, -⟩
    · exact hBefore
    · exact absurd hSame (Nat.ne_of_gt hTaken)
  cases hCall with
  | establish _ _ hEstablish =>
      exact hSlots.establish hArmed hReliable hHosts
        hEstablish hNew
  | destablish hDestablish =>
      rcases nbDestablish_ok_iff.mp hDestablish with
        ⟨conn, hConn, rfl⟩
      exact hSlots.quiet hArmed rfl (hHeld rfl)
        (fun _ _ => rfl)
  | send hSend =>
      rcases nbSend_ok_iff.mp hSend with
        ⟨conn, y, x, t, timers, hConn, hWrite, hSends, -, rfl⟩
      exact hSlots.sends hArmed hReliable hSends
        (hHosts.fits hConn) (sized_of_write hWrite)
        (buffers_of_some hConn) (hNew (Nat.lt_succ_self _))
  | @ingress _ x len => exact absurd rfl (hNot x len)
  | checkTimers hCheck =>
      rcases checkTimers_fires hSlots.pool hCheck with
        ⟨hPool, hPerm, hArgument, -⟩
      refine ⟨_, free, hSlots.fewer hPool hPerm hArgument
        (hHeld rfl) (fun _ _ => rfl), ?_⟩
      intro t ht
      rw [hArgument t]
      exact hArmed t (hPerm.mem_iff.mp ht)
  | tick =>
      exact hSlots.quiet hArmed rfl (hHeld rfl)
        (fun _ _ => rfl)
  | read hRead =>
      rcases nbRead_frame hRead with ⟨conn, queue, hConn, rfl⟩
      exact hSlots.quiet hArmed rfl (hHeld rfl)
        (fun _ _ => rfl)

------------------------------------------------------------
-- What a Packet Received Does
------------------------------------------------------------

/- A packet that is in no slot is written to. -/
theorem SlotsArmed.setPacket
    (hSlots : SlotsArmed fmt e active free)
    (hUnheld : ¬ e.Holds p)
    (y : P) :
    SlotsArmed fmt (e.setPacket p y) active free := by
  refine hSlots.of_same rfl (fun _ _ _ hHolds => hHolds) ?_
  intro q hHolds
  have hNe : q ≠ p := by
    rintro rfl
    exact hUnheld hHolds
  rw [Endpoint.timerOf,
    Endpoint.setPacket_packets_of_ne e y hNe,
    Endpoint.timerOf]

/- The modules behind the lookup stop at most one timer. -/
theorem SlotsArmed.routed
    {status : HookStatus}
    (hSlots : SlotsArmed fmt e active free)
    (hArmed : ArmedFor armed e active)
    (hNext : e.nextPacket < e'.nextPacket →
      ¬ e.Holds e.nextPacket)
    (hBack : BackResult fmt cfg p c e status e') :
    HasArmedSlots fmt armed e' := by
  have hHeld : ∀ d k q, e'.HoldsIn d k q →
      e.HoldsIn d k q :=
    fun _ _ _ hHolds => hBack.holdsIn hHolds
  cases hBack with
  | ack _ _ hReceive =>
      rcases receiveAck_ok_iff.mp hReceive with
        ⟨conn, hConn, ⟨-, rfl⟩ | ⟨q, t, hOwn, hTimer, rfl⟩⟩
      · exact ⟨active, free, hSlots, hArmed⟩
      · have hSlot : e.HoldsIn c (slot (fmt.getWord
            .ackSequenceNumber (e.packets p))) q :=
          ⟨_, buffers_of_some hConn, hOwn⟩
        rcases hSlots.acked hSlot hTimer rfl
            (fun _ _ _ hHolds => holdsIn_of_acked hConn
              hHolds) (fun _ _ => rfl) with
          ⟨active', hSlots', hOld⟩
        refine ⟨active', _, hSlots', ?_⟩
        intro u hU
        change armed (((e.timers.removeTimer t).returnTimer t
          ).allocatedTimers u).argument
        rw [TimerPool.argument_returnTimer,
          TimerPool.argument_removeTimer]
        exact hArmed u ((hOld u).mp hU).1
  | @data conn e₁ _ v taken _ hConn hAcked _ =>
      have hTimers : ((e₁.setConn c (arrivedConn conn status v)
          ).restoreAll fmt (arrivedPackets status p
            taken)).timers = e.timers := by
        cases hAcked <;> rfl
      apply hSlots.quiet hArmed hTimers hHeld
      intro q hHolds
      have hPacket : e₁.packets q = e.packets q := by
        cases hAcked with
        | off => rfl
        | sent =>
            have hUnheld := hNext (Nat.lt_succ_self _)
            apply Endpoint.setPacket_packets_of_ne
            rintro rfl
            exact hUnheld hHolds
      rw [Endpoint.timerOf, restoreAll_get (by decide)]
      change toTimerPtr (fmt.getInteger _ (e₁.packets q)) = _
      rw [hPacket, Endpoint.timerOf]

/-
  Processing a packet in a buffer that no slot holds, when
  the next buffer is in none either if it is taken.
-/
theorem SlotsArmed.processes
    (hSlots : SlotsArmed fmt e active free)
    (hArmed : ArmedFor armed e active)
    (hUnheld : ¬ e.Holds p)
    (hNext : e.nextPacket < e'.nextPacket →
      ¬ e.Holds e.nextPacket)
    (hIngress : IngressResult fmt cfg p e e') :
    HasArmedSlots fmt armed e' := by
  have hSet := hSlots.setPacket hUnheld
  cases hIngress with
  | dropped hFront =>
      cases hFront with
      | rejected => exact ⟨active, free, hSet _, hArmed⟩
      | unclaimed => exact ⟨active, free, hSet _, hArmed⟩
      | @parked y listener conn q _ _ _ _ _ _ hConn =>
          have hHeld : ∀ d k r,
              (e.parked p y listener conn q).HoldsIn d k r →
              (e.setPacket p y).HoldsIn d k r := by
            intro d k r hHolds
            have hHolds₁ : (e.setConn listener
                { conn with acceptQueue := q }).HoldsIn d k
                  r := hHolds
            exact holdsIn_of_setConn hHolds₁ hConn rfl
          exact (hSet y).quiet hArmed rfl hHeld
            (fun _ _ => rfl)
  | routed _ _ _ hBack =>
      exact (hSet _).routed hArmed hNext hBack

end Steps

end NetBlocks
