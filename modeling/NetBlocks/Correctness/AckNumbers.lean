import NetBlocks.Core.Exchange
import NetBlocks.Correctness.Addressing

/-
  Telling acks from data, over whole runs of two endpoints:
  every packet is handed out with a note of how it was built,
  and the peer reads that off its ack number.

  Main declarations:
    * `PacketKind` and `ToldApart`
    * `Tagged` and `Tags`
    * `PairStep` and `AcksNumbered`
    * `KindsKept`
    * `toldApart_of_run`
    * `not_forall_toldApart`, where the number wraps
-/

namespace NetBlocks

open Except TransitionSystem

variable {P : Type}

------------------------------------------------------------
-- How Packets Are Built
------------------------------------------------------------

/-
  A packet went through `hook_send` of the reliable module,
  or was built by its `hook_ingress` to acknowledge a number.
-/
inductive PacketKind where
| data
| ack (n : BitVec 32)
deriving DecidableEq, Repr

/- The ack number that a packet of a kind is built with. -/
def PacketKind.number : PacketKind → BitVec 32
| data => 0
| ack n => n

/-
  Wherever the packet `x` arrives as it was sent and gets to
  the reliable module, that takes it for an ack, which goes no
  further, exactly when it was built as one.
-/
def ToldApart
    (fmt : PacketFormat P)
    (cfg : Config)
    (kind : PacketKind)
    (x : P) : Prop :=
  ∀ (len : Int) (p : PacketPtr) (e₀ e₁ e₂ : Endpoint P)
      (status : HookStatus),
    fmt.SameWire len x (e₀.packets p) →
    runHooks (hookIngress fmt cfg p) (frontModules cfg) e₀ =
      .ok (.hookContinue, e₁) →
    hookIngress fmt cfg p .reliable e₁ = .ok (status, e₂) →
    (status = .hookDrop ↔ kind ≠ .data)

/- A packet of a kind, with its number and a proper length. -/
structure IsOfKind
    (fmt : PacketFormat P)
    (kind : PacketKind)
    (x : P) : Prop where
  number : fmt.getWord .ackSequenceNumber x = kind.number
  sized : (fmt.headerLen : Int) ≤
    (fmt.getInteger .totalLen x).toInt

/- The number of a received packet, once it is checked. -/
def receivedNumber
    (fmt : PacketFormat P)
    (cfg : Config)
    (x : P) : BitVec 32 :=
  match checkPacket fmt cfg x with
  | .ok (y, _) => fmt.getWord .sequenceNumber y
  | .error _ => 0

/-
  The packet `x` is acknowledged when it is processed: it is
  routed to a connection, and does not look like an ack.
-/
def IsAcknowledged
    (fmt : PacketFormat P)
    (cfg : Config)
    (e : Endpoint P)
    (x : P) : Prop :=
  ∃ y, checkPacket fmt cfg x = .ok (y, true) ∧
    fmt.getInteger .dstHostId y = e.myLocalHostId ∧
    lookup fmt cfg e y ≠ 0 ∧
    fmt.getWord .ackSequenceNumber y = 0

section Kinds

variable
    {fmt : PacketFormat P}
    {cfg : Config}
    {kind : PacketKind}
    {conn : Connection}
    {e e' : Endpoint P}
    {p : PacketPtr}
    {x y : P}

/- What is read in front of the reliable module was sent. -/
theorem IsOfKind.atReliable
    {len : Int}
    {e₀ e₁ : Endpoint P}
    (hKind : IsOfKind fmt kind x)
    (hSame : fmt.SameWire len x (e₀.packets p))
    (hFront : runHooks (hookIngress fmt cfg p)
      (frontModules cfg) e₀ = .ok (.hookContinue, e₁)) :
    fmt.getWord .ackSequenceNumber (e₁.packets p) =
      kind.number := by
  cases runFront_ok_iff.mp hFront with
  | @routed y hCheck hHost hFound =>
      have hSized : fmt.Sized
          (fmt.restoreTotalLen (e₀.packets p)) := by
        rw [PacketFormat.Sized, PacketFormat.restoreTotalLen,
          fmt.get_set_self _ _ _
            (Field.fits_of_bits_ne (by decide) _)]
        have hLength := hKind.sized
        rw [← hSame.fields _ rfl, ← fmt.get_canon] at hLength
        exact hLength
      rw [Endpoint.setPacket_packets_self,
        PacketFormat.getWord_setInteger_ne
          (Field.fits_of_bits_ne (by decide) _) (by decide),
        PacketFormat.getWord,
        checkPacket_get hCheck hSized (by decide),
        hSame.fields _ rfl]
      exact hKind.number

/- The reliable module looks at the ack number only. -/
theorem reliable_status_eq
    {status : HookStatus}
    (hReliable : hookIngress fmt cfg p .reliable e =
      .ok (status, e')) :
    status = .hookDrop ↔
      fmt.getWord .ackSequenceNumber (e.packets p) ≠ 0 := by
  change ReliableModule.hookIngress fmt cfg p e = _
    at hReliable
  unfold ReliableModule.hookIngress at hReliable
  dsimp only at hReliable
  split at hReliable
  · next hAck =>
      rcases bind_eq_ok_iff.mp hReliable with ⟨_, -, hEnd⟩
      cases hEnd
      exact ⟨fun _ => hAck, fun _ => rfl⟩
  · next hData =>
      rcases bind_eq_ok_iff.mp hReliable with ⟨_, -, hEnd⟩
      cases hEnd
      constructor
      · intro hDrop
        cases hDrop
      · intro hAck
        exact absurd hAck hData

/- A kind can be read off a number that is not zero. -/
theorem IsOfKind.toldApart
    (hKind : IsOfKind fmt kind x)
    (hNumber : kind ≠ .data → kind.number ≠ 0) :
    ToldApart fmt cfg kind x := by
  intro len p e₀ e₁ e₂ status hSame hFront hReliable
  rw [reliable_status_eq hReliable,
    hKind.atReliable hSame hFront]
  constructor
  · rintro hNe rfl
    exact hNe rfl
  · exact hNumber

theorem IsOfKind.congr
    (hKind : IsOfKind fmt kind x)
    (hMembers : ∀ f : Field, f ≠ .computedTotalLen →
      fmt.getInteger f y = fmt.getInteger f x) :
    IsOfKind fmt kind y := by
  refine ⟨?_, ?_⟩
  · rw [PacketFormat.getWord, hMembers _ (by decide)]
    exact hKind.number
  · rw [hMembers _ (by decide)]
    exact hKind.sized

/- A length in a header that fits is at least the headers'. -/
theorem sized_of_total
    {n : Nat}
    (hTotal : fmt.getWord .totalLen x =
      BitVec.ofNat 32 (fmt.headerLen + n))
    (hLength : fmt.headerLen + n < 2 ^ 31) :
    (fmt.headerLen : Int) ≤
      (fmt.getInteger .totalLen x).toInt := by
  rw [PacketFormat.toInt_getInteger rfl rfl, hTotal,
    toInt_length hLength]
  omega

/- A packet that is numbered, armed and sent is data. -/
theorem Sends.isOfKind
    {t : Option TimerPtr}
    {timers : TimerPool}
    {n : Nat}
    (hReliable : cfg.reliableEnabled = true)
    (hSends : Sends fmt cfg e conn p y x t timers)
    (hFits : HostsFit conn e.myLocalHostId)
    (hSized : fmt.Sized y)
    (hTotal : fmt.getWord .totalLen y =
      BitVec.ofNat 32 (fmt.headerLen + n))
    (hLength : fmt.headerLen + n < 2 ^ 31) :
    IsOfKind fmt .data x := by
  refine ⟨hSends.ackSequenceNumber hFits hSized hReliable,
    sized_of_total ?_ hLength⟩
  rw [PacketFormat.getWord, hSends.get hFits hSized rfl
    (by decide) (by decide) (by decide),
    ← PacketFormat.getWord, hTotal]

/- An ack is completed with the number it was built with. -/
theorem isOfKind_ackPacket
    {seq : BitVec 32}
    (hFits : HostsFit conn e.myLocalHostId)
    (hComplete : completePacket fmt cfg conn e.myLocalHostId
      e.myHostId (ackPacket fmt seq y) = .ok x) :
    IsOfKind fmt (.ack seq) x := by
  have hSized : fmt.Sized (ackPacket fmt seq y) :=
    sized_ackPacket seq y
  refine ⟨?_, sized_of_total (n := 1) ?_ fmt.headerLen_lt⟩
  · rw [PacketFormat.getWord, completePacket_get hFits
      hComplete hSized rfl, ackPacket,
      lengthPacket_get (by decide) (by decide)]
    exact PacketFormat.getWord_setWord_self rfl
  · rw [PacketFormat.getWord, completePacket_get hFits
      hComplete hSized rfl, ← PacketFormat.getWord, ackPacket,
      lengthPacket_total]

end Kinds

------------------------------------------------------------
-- What Calls Hand Out
------------------------------------------------------------

/-
  What a call that sends does: nothing is handed out, or the
  packet in the next buffer is.
-/
inductive HandsOut
    (fmt : PacketFormat P)
    (e e' : Endpoint P) : Prop
| nothing :
    e'.out = e.out →
    e'.packets = e.packets →
    e'.nextPacket = e.nextPacket →
    HandsOut fmt e e'
| sent {x : P} :
    IsOfKind fmt .data x →
    e'.out = e.out ++ [(x, fmt.getWord .computedTotalLen x)] →
    e'.packets = Function.update e.packets e.nextPacket x →
    e'.nextPacket = e.nextPacket + 1 →
    HandsOut fmt e e'

/-
  What the ingress path hands out: nothing, or an ack for the
  number of the packet, which is acknowledged.
-/
inductive Replies
    (fmt : PacketFormat P)
    (cfg : Config)
    (p : PacketPtr)
    (e e' : Endpoint P) : Prop
| nothing :
    e'.out = e.out →
    Replies fmt cfg p e e'
| ack {x : P} :
    IsAcknowledged fmt cfg e (e.packets p) →
    IsOfKind fmt
      (.ack (receivedNumber fmt cfg (e.packets p))) x →
    e'.out = e.out ++ [(x, fmt.getWord .computedTotalLen x)] →
    Replies fmt cfg p e e'

section HandedOut

variable
    {fmt : PacketFormat P}
    {cfg : Config}
    {e e' : Endpoint P}
    {c : ConnPtr}
    {p : PacketPtr}

/- Only a signal is handed out. -/
theorem nbEstablish_handsOut
    {fresh : Connection}
    {h a sa : BitVec 32}
    (hReliable : cfg.reliableEnabled = true)
    (hHosts : HostsKept e)
    (hEstablish : nbEstablish fmt cfg c fresh h a sa e =
      .ok e') :
    HandsOut fmt e e' := by
  rcases nbEstablish_ok_iff.mp hEstablish with
    ⟨netState, conn', e₁, -, hSignal, rfl⟩
  let conn₀ := establishedConn cfg fresh (e.hostLocalId h) a sa
  let e₀ := e.registered c conn₀ netState
  change SignalResult fmt cfg c conn₀ h a e₀ conn' e₁
    at hSignal
  cases hSignal with
  | wildcard => exact .nothing rfl rfl rfl
  | unsignaled => exact .nothing rfl rfl rfl
  | @signals conn₁ x t timers _ _ hEq hSends =>
      have hFits : HostsFit conn₁ e.myLocalHostId := by
        rw [hEq]
        exact ⟨Nat.lt_trans (lookup_lt _ _) (by decide),
          Nat.lt_trans hHosts.own (by decide)⟩
      have hLength : fmt.headerLen + 0 < 2 ^ 31 :=
        Nat.lt_of_succ_lt fmt.headerLen_lt
      refine .sent (hSends.isOfKind hReliable hFits
        (sized_signal _) lengthPacket_total hLength) ?_ rfl rfl
      simp [Endpoint.sent, Endpoint.transmit,
        Endpoint.sendPacket, Endpoint.setConn,
        Endpoint.setPacket, Endpoint.requested, e₀,
        Endpoint.registered]

theorem nbSend_handsOut
    {buff : List Byte}
    {n : Nat}
    (hReliable : cfg.reliableEnabled = true)
    (hHosts : HostsKept e)
    (hSend : nbSend fmt cfg c buff e = .ok (n, e')) :
    HandsOut fmt e e' := by
  rcases nbSend_ok_iff.mp hSend with
    ⟨conn, y, x, t, timers, hConn, hWrite, hSends, -, rfl⟩
  have hTotal : fmt.getWord .totalLen y =
      BitVec.ofNat 32 (fmt.headerLen + buff.length) := by
    rw [PacketFormat.getWord, fmt.write_get _ _ _ y hWrite,
      ← PacketFormat.getWord, lengthPacket_total]
  refine .sent (hSends.isOfKind hReliable
    (hHosts.fits hConn) (sized_of_write hWrite) hTotal
    (fmt.write_length _ _ y hWrite)) ?_ rfl rfl
  simp [Endpoint.sent, Endpoint.transmit,
    Endpoint.sendPacket, Endpoint.setConn,
    Endpoint.setPacket, Endpoint.requested]

/- Acks are for packets that are acknowledged. -/
theorem IngressResult.replies
    (hHosts : HostsKept e)
    (hIngress : IngressResult fmt cfg p e e') :
    Replies fmt cfg p e e' := by
  cases hIngress with
  | dropped hFront => cases hFront <;> exact .nothing rfl
  | @routed y _ _ hCheck hHost hFound hBack =>
      have hKept : ∀ f : Field, f ≠ .flowIdentifier →
          fmt.getWord f (fmt.setInteger .flowIdentifier
            (lookup fmt cfg e y) y) = fmt.getWord f y :=
        fun f hNe => PacketFormat.getWord_setInteger_ne
          (Field.fits_of_bits_ne (by decide) _) hNe
      cases hBack with
      | ack _ _ hReceive =>
          rcases receiveAck_ok_iff.mp hReceive with
            ⟨conn, -, ⟨-, rfl⟩ | ⟨_, t, -, -, rfl⟩⟩ <;>
              exact .nothing rfl
      | data hData hConn hAcked _ =>
          cases hAcked with
          | off => exact .nothing rfl
          | @sent x hReliable hComplete =>
              have hNumber := hData hReliable
              rw [Endpoint.setPacket_packets_self,
                hKept _ (by decide)] at hNumber
              rw [Endpoint.setPacket_packets_self,
                hKept _ (by decide)] at hComplete
              have hReceived : receivedNumber fmt cfg
                  (e.packets p) =
                    fmt.getWord .sequenceNumber y := by
                rw [receivedNumber, hCheck]
              rw [← hReceived] at hComplete
              refine .ack ⟨y, hCheck, hHost, hFound, hNumber⟩
                (isOfKind_ackPacket (e := e)
                  (hHosts.fits hConn) hComplete) ?_
              simp [Endpoint.transmit, Endpoint.sendPacket,
                Endpoint.restoreAll, Endpoint.requested,
                Endpoint.setConn, Endpoint.setPacket]

end HandedOut

------------------------------------------------------------
-- Two Endpoints
------------------------------------------------------------

/-
  An endpoint, with the buffers it filled with data, those it
  received packets in, and all it handed out, with its kinds.
-/
structure Tagged (P : Type) where
  endpoint : Endpoint P
  filled : PacketPtr → Prop
  received : PacketPtr → Prop
  log : List (PacketKind × P)

/- A call of the API, or a part of `nb__accept`. -/
inductive TagMove (P : Type) where
| call (call : Call P)
| accepts (move : AcceptMove)

namespace Tagged

def start
    (e : Endpoint P) : Tagged P where
  endpoint := e
  filled := fun _ => False
  received := fun _ => False
  log := []

/- The packets handed out on the way to `e'` are of a kind. -/
def handsOut
    (t : Tagged P)
    (kind : PacketKind)
    (e' : Endpoint P) : Tagged P :=
  { t with
    endpoint := e'
    log := t.log ++ (handedOut t.endpoint e').map
      (fun x => (kind, x)) }

/- The buffers taken on the way are filled with data. -/
def sends
    (t : Tagged P)
    (e' : Endpoint P) : Tagged P :=
  { t.handsOut .data e' with
    filled := fun p => t.filled p ∨
      t.endpoint.nextPacket ≤ p ∧ p < e'.nextPacket }

/- What is remembered of a step that led to `e'`. -/
def after
    (fmt : PacketFormat P)
    (cfg : Config)
    (t : Tagged P)
    (e' : Endpoint P) : TagMove P → Tagged P
| .call (.ingress x _) =>
    { t.handsOut (.ack (receivedNumber fmt cfg x)) e' with
      received := fun p =>
        t.received p ∨ p = t.endpoint.nextPacket }
| .call (.establish ..) => t.sends e'
| .call (.send ..) => t.sends e'
| .call _ => t.handsOut .data e'
| .accepts (.opens ..) => t.sends e'
| .accepts (.replays p) =>
    t.handsOut (.ack (receivedNumber fmt cfg
      (t.endpoint.packets p))) e'
| .accepts _ => t.handsOut .data e'

end Tagged

/-
  The steps of an endpoint. What `nb__accept` processes again
  are packets that were received.
-/
inductive Tags
    (fmt : PacketFormat P)
    (cfg : Config)
    (t : Tagged P) : TagMove P → Tagged P → Prop
| call {call : Call P} {e' : Endpoint P} :
    Calls fmt cfg t.endpoint call e' →
    Tags fmt cfg t (.call call) (t.after fmt cfg e' (.call call))
| accepts {move : AcceptMove} {e' : Endpoint P} :
    AcceptStep fmt cfg t.received t.endpoint move e' →
    Tags fmt cfg t (.accepts move)
      (t.after fmt cfg e' (.accepts move))

/- One of two endpoints. -/
inductive Side where
| left
| right
deriving DecidableEq, Repr

/- Either endpoint takes a step, whatever it receives. -/
def PairStep
    (fmt : PacketFormat P)
    (cfg : Config)
    (s : Side → Tagged P)
    (label : Side × TagMove P)
    (s' : Side → Tagged P) : Prop :=
  ∃ t, Tags fmt cfg (s label.1) label.2 t ∧
    s' = Function.update s label.1 t

/- The packet that a step processes, if it does. -/
def Tagged.processes
    (t : Tagged P) : TagMove P → Option P
| .call (.ingress x _) => some x
| .accepts (.replays p) => some (t.endpoint.packets p)
| _ => none

/- A packet that is acknowledged does not have number zero. -/
def AcksNumbered
    (fmt : PacketFormat P)
    (cfg : Config)
    (s : Side → Tagged P)
    (label : Side × TagMove P) : Prop :=
  ∀ x, (s label.1).processes label.2 = some x →
    IsAcknowledged fmt cfg (s label.1).endpoint x →
      receivedNumber fmt cfg x ≠ 0

------------------------------------------------------------
-- The Invariant
------------------------------------------------------------

/-
  Packets are of the kinds noted. What was received was not
  filled with data, and timers are for what was.
-/
structure KindsKept
    (fmt : PacketFormat P)
    (cfg : Config)
    (t : Tagged P) : Prop where
  hosts : HostsKept t.endpoint
  filled : ∀ p, t.filled p → p < t.endpoint.nextPacket ∧
    IsOfKind fmt .data (t.endpoint.packets p)
  received : ∀ p, t.received p →
    p < t.endpoint.nextPacket ∧ ¬ t.filled p
  queued : QueuedIn t.received t.endpoint
  timers : TimersFor fmt cfg t.filled t.endpoint
  log : ∀ sent ∈ t.log, IsOfKind fmt sent.1 sent.2
  complete : t.log.map Prod.snd =
    t.endpoint.out.map Prod.fst

section Invariant

variable
    {fmt : PacketFormat P}
    {cfg : Config}
    {t t' : Tagged P}
    {e e' : Endpoint P}
    {c : ConnPtr}
    {p : PacketPtr}
    {kind : PacketKind}

/- What is handed out is noted, with its kind. -/
theorem KindsKept.log_handsOut
    {sent : List (P × BitVec 32)}
    (hKept : KindsKept fmt cfg t)
    (hOut : e'.out = t.endpoint.out ++ sent)
    (hSent : ∀ x ∈ sent.map Prod.fst, IsOfKind fmt kind x) :
    (∀ one ∈ (t.handsOut kind e').log,
      IsOfKind fmt one.1 one.2) ∧
    (t.handsOut kind e').log.map Prod.snd =
      e'.out.map Prod.fst := by
  rw [Tagged.handsOut, handedOut_of_append hOut]
  refine ⟨?_, ?_⟩
  · intro one hOne
    rcases List.mem_append.mp hOne with hOne | hOne
    · exact hKept.log one hOne
    · rcases List.mem_map.mp hOne with ⟨x, hx, rfl⟩
      exact hSent x hx
  · rw [List.map_append, hKept.complete, hOut,
      List.map_append, List.map_map]
    exact congrArg _ (List.map_id _)

/-
  A step that fills no buffer with data, and hands out packets
  of one kind.
-/
theorem KindsKept.handsOut
    {sent : List (P × BitVec 32)}
    (hKept : KindsKept fmt cfg t)
    (hHosts : HostsKept e')
    (hNext : t.endpoint.nextPacket ≤ e'.nextPacket)
    (hPackets : ∀ p, t.filled p →
      ∀ f : Field, f ≠ .computedTotalLen →
        fmt.getInteger f (e'.packets p) =
          fmt.getInteger f (t.endpoint.packets p))
    (hQueued : QueuedIn t.received e')
    (hTimers : TimersFor fmt cfg t.filled e')
    (hOut : e'.out = t.endpoint.out ++ sent)
    (hSent : ∀ x ∈ sent.map Prod.fst, IsOfKind fmt kind x) :
    KindsKept fmt cfg (t.handsOut kind e') := by
  rcases hKept.log_handsOut hOut hSent with ⟨hLog, hAll⟩
  refine ⟨hHosts, ?_, ?_, hQueued, hTimers, hLog, hAll⟩
  · intro p hFilled
    rcases hKept.filled p hFilled with ⟨hOld, hKind⟩
    exact ⟨Nat.lt_of_lt_of_le hOld hNext,
      hKind.congr (hPackets p hFilled)⟩
  · intro p hReceived
    rcases hKept.received p hReceived with ⟨hOld, hNot⟩
    exact ⟨Nat.lt_of_lt_of_le hOld hNext, hNot⟩

/- A step that hands out nothing. -/
theorem KindsKept.quiet
    (hKept : KindsKept fmt cfg t)
    (hHosts : HostsKept e')
    (hNext : e'.nextPacket = t.endpoint.nextPacket)
    (hPackets : e'.packets = t.endpoint.packets)
    (hQueued : QueuedIn t.received e')
    (hTimers : TimersFor fmt cfg t.filled e')
    (hOut : e'.out = t.endpoint.out) :
    KindsKept fmt cfg (t.handsOut kind e') := by
  have hOut' : e'.out = t.endpoint.out ++ [] := by
    rw [hOut, List.append_nil]
  apply hKept.handsOut hHosts (Nat.le_of_eq hNext.symm) ?_
    hQueued hTimers hOut' (fun x hx => by cases hx)
  intro p _ f _
  rw [hPackets]

/- A packet is filled with data and handed out. -/
theorem KindsKept.sends
    {call : Call P}
    (hKept : KindsKept fmt cfg t)
    (hCall : Calls fmt cfg t.endpoint call e')
    (hNot : ∀ x len, call ≠ .ingress x len)
    (hEffect : HandsOut fmt t.endpoint e') :
    KindsKept fmt cfg (t.sends e') := by
  have hNext := hCall.nextPacket_le
  have hQueued : QueuedIn t.received e' :=
    hCall.queuedIn hKept.queued
      (fun x len hEq => absurd hEq (hNot x len))
  have hFilled : ∀ p, t.filled p →
      e'.packets p = t.endpoint.packets p := by
    intro p hp
    cases hEffect with
    | nothing _ hPackets => rw [hPackets]
    | sent _ _ hPackets =>
        rw [hPackets, Function.update_of_ne
          (Nat.ne_of_lt (hKept.filled p hp).1)]
  have hSent : ∃ sent : List (P × BitVec 32),
      e'.out = t.endpoint.out ++ sent ∧
        ∀ x ∈ sent.map Prod.fst, IsOfKind fmt .data x := by
    cases hEffect with
    | nothing hOut =>
        exact ⟨[], by rw [hOut, List.append_nil],
          fun x hx => by cases hx⟩
    | @sent x hKind hOut =>
        refine ⟨_, hOut, ?_⟩
        intro y hy
        rw [List.mem_singleton.mp hy]
        exact hKind
  rcases hSent with ⟨sent, hOut, hKinds⟩
  rcases hKept.log_handsOut hOut hKinds with ⟨hLog, hAll⟩
  refine ⟨hCall.hostsKept hKept.hosts, ?_, ?_, hQueued, ?_,
    hLog, hAll⟩
  · rintro p (hOld | ⟨hGe, hLt⟩)
    · rcases hKept.filled p hOld with ⟨hLt, hKind⟩
      refine ⟨Nat.lt_of_lt_of_le hLt hNext, ?_⟩
      change IsOfKind fmt .data (e'.packets p)
      rw [hFilled p hOld]
      exact hKind
    · refine ⟨hLt, ?_⟩
      change IsOfKind fmt .data (e'.packets p)
      cases hEffect with
      | nothing _ _ hSame =>
          rw [hSame] at hLt
          exact absurd hGe (Nat.not_le_of_lt hLt)
      | sent hKind _ hPackets hSucc =>
          have hEq : p = t.endpoint.nextPacket := by
            rw [hSucc] at hLt
            exact Nat.le_antisymm (Nat.le_of_lt_succ hLt) hGe
          rw [hPackets, hEq, Function.update_self]
          exact hKind
  · intro p hReceived
    rcases hKept.received p hReceived with ⟨hOld, hNot⟩
    refine ⟨Nat.lt_of_lt_of_le hOld hNext, ?_⟩
    rintro (hFor | ⟨hGe, -⟩)
    · exact hNot hFor
    · exact Nat.not_le_of_lt hOld hGe
  · exact (hKept.timers.mono (fun _ hp => Or.inl hp)).step
      hKept.hosts hCall
      (fun _ hNew => Or.inr ⟨Nat.le_refl _, hNew⟩)

/- A packet that was received is processed. -/
theorem KindsKept.processes
    (hKept : KindsKept fmt cfg t)
    (hReceived : t.received p)
    (hIngress : runIngressPath fmt cfg p t.endpoint =
      .ok e') :
    KindsKept fmt cfg (t.handsOut (.ack (receivedNumber fmt cfg
      (t.endpoint.packets p))) e') := by
  rcases hKept.received p hReceived with ⟨hOld, hNot⟩
  have hBuffer := Nat.ne_of_lt hOld
  have hTouches := runIngressPath_touchesOne hBuffer hIngress
  have hResult := (runIngressPath_iff hBuffer).mp hIngress
  have hHosts := hResult.sameTable.hostsKept hKept.hosts
  have hPackets : ∀ q, t.filled q →
      ∀ f : Field, f ≠ .computedTotalLen →
        fmt.getInteger f (e'.packets q) =
          fmt.getInteger f (t.endpoint.packets q) := by
    intro q hq f hField
    refine hResult.get_of_ne ?_ (hKept.filled q hq).1 hField
    rintro rfl
    exact hNot hq
  have hSent : ∃ sent : List (P × BitVec 32),
      e'.out = t.endpoint.out ++ sent ∧
        ∀ x ∈ sent.map Prod.fst, IsOfKind fmt
          (.ack (receivedNumber fmt cfg
            (t.endpoint.packets p))) x := by
    cases hResult.replies hKept.hosts with
    | nothing hOut =>
        exact ⟨[], by rw [hOut, List.append_nil],
          fun x hx => by cases hx⟩
    | @ack x _ hKind hOut =>
        refine ⟨_, hOut, ?_⟩
        intro y hy
        rw [List.mem_singleton.mp hy]
        exact hKind
  rcases hSent with ⟨sent, hOut, hKinds⟩
  exact hKept.handsOut hHosts hResult.nextPacket_le hPackets
    (hTouches.queuedIn hKept.queued hReceived)
    (hKept.timers.processes hNot hResult) hOut hKinds

/- The buffer of a received packet is taken. -/
theorem KindsKept.polled
    (hKept : KindsKept fmt cfg t)
    (x : P) :
    KindsKept fmt cfg
      { t with
        endpoint := t.endpoint.polled x
        received := fun p =>
          t.received p ∨ p = t.endpoint.nextPacket } := by
  have hBooks : SameBooks fmt t.endpoint
      (t.endpoint.polled x) := by
    refine ⟨rfl, fun _ => rfl, .of_old (Nat.le_succ _) ?_⟩
    intro q hq
    exact polled_packets_of_ne x (Nat.ne_of_lt hq)
  refine ⟨⟨hKept.hosts.own, hKept.hosts.remote⟩, ?_, ?_, ?_,
    hKept.timers.of_same hBooks, hKept.log, hKept.complete⟩
  · intro p hp
    rcases hKept.filled p hp with ⟨hOld, hKind⟩
    refine ⟨Nat.lt_succ_of_lt hOld, ?_⟩
    rw [polled_packets_of_ne x (Nat.ne_of_lt hOld)]
    exact hKind
  · rintro p (hp | rfl)
    · rcases hKept.received p hp with ⟨hOld, hNot⟩
      exact ⟨Nat.lt_succ_of_lt hOld, hNot⟩
    · exact ⟨Nat.lt_succ_self _, fun hFilled =>
        Nat.lt_irrefl _ (hKept.filled _ hFilled).1⟩
  · exact QueuedIn.of_conns_eq
      (hKept.queued.mono (fun _ hp => Or.inl hp)) rfl

/- Timers fire for packets that were filled with data. -/
theorem KindsKept.fires
    (hKept : KindsKept fmt cfg t)
    (hCheck : checkTimers fmt t.endpoint = .ok e') :
    KindsKept fmt cfg (t.handsOut .data e') := by
  have hCall : Calls fmt cfg t.endpoint .checkTimers e' :=
    .checkTimers hCheck
  have hOut := checkTimersLoop_out hCheck
  have hTimers := hKept.timers.step hKept.hosts hCall
    (fun _ hNew => by
      rcases checkTimersLoop_frame hCheck with
        ⟨timers, out, rfl⟩
      exact absurd hNew (Nat.lt_irrefl _))
  rcases checkTimersLoop_frame hCheck with
    ⟨timers, out, rfl⟩
  have hFired : ∀ p ∈ firedPackets t.endpoint,
      t.filled p := by
    intro p hp
    cases hOn : cfg.reliableEnabled with
    | false =>
        rw [firedPackets, checkCalls, hKept.timers.off hOn]
          at hp
        cases hp
    | true =>
        rcases hKept.timers.timed hOn with
          ⟨active, free, hSlots, hArmed⟩
        rcases startedFor_active hSlots.pool hp with
          ⟨u, hU, rfl⟩
        exact hArmed u hU
  refine hKept.handsOut (hCall.hostsKept hKept.hosts)
    (Nat.le_refl _) (fun _ _ _ _ => rfl)
    (hKept.queued.of_conns_eq rfl) hTimers hOut ?_
  intro x hx
  rw [List.map_map] at hx
  rcases List.mem_map.mp hx with ⟨p, hp, rfl⟩
  exact (hKept.filled p (hFired p hp)).2

/- Other members of one connection are assigned. -/
theorem KindsKept.assigns
    {conn conn' : Connection}
    (hKept : KindsKept fmt cfg t)
    (hConn : t.endpoint.conns c = some conn)
    (hEntry : conn'.tableEntry c = conn.tableEntry c)
    (hBuffer : conn'.redeliveryBuffer = conn.redeliveryBuffer)
    (hQueue : ∀ x ∈ conn'.acceptQueue, x ∈ conn.acceptQueue) :
    KindsKept fmt cfg
      (t.handsOut kind (t.endpoint.setConn c conn')) :=
  hKept.quiet
    (SameTable.hostsKept (.setConn hConn hEntry) hKept.hosts)
    rfl rfl (hKept.queued.assign hConn rfl hQueue)
    (hKept.timers.of_same (.setConn hConn hBuffer)) rfl

/- What a call of the API keeps. -/
theorem KindsKept.call
    {call : Call P}
    (hReliable : cfg.reliableEnabled = true)
    (hKept : KindsKept fmt cfg t)
    (hCall : Calls fmt cfg t.endpoint call e') :
    KindsKept fmt cfg (t.after fmt cfg e' (.call call)) := by
  have hCalls := hCall
  cases hCall with
  | establish _ _ hEstablish =>
      exact hKept.sends hCalls (by simp)
        (nbEstablish_handsOut hReliable hKept.hosts hEstablish)
  | send hSend =>
      exact hKept.sends hCalls (by simp)
        (nbSend_handsOut hReliable hKept.hosts hSend)
  | @ingress _ x _ hIngress =>
      have hReceived := (hKept.polled x).processes
        (Or.inr rfl) hIngress
      simp only [polled_packets_self] at hReceived
      exact hReceived
  | checkTimers hCheck => exact hKept.fires hCheck
  | destablish hDestablish =>
      have hQueued : QueuedIn t.received e' :=
        hCalls.queuedIn hKept.queued
          (fun _ _ hEq => by cases hEq)
      have hTimers := hKept.timers.step hKept.hosts hCalls
        (fun _ hNew => by
          rcases nbDestablish_ok_iff.mp hDestablish with
            ⟨conn, -, rfl⟩
          exact absurd hNew (Nat.lt_irrefl _))
      have hHosts := hCalls.hostsKept hKept.hosts
      rcases nbDestablish_ok_iff.mp hDestablish with
        ⟨conn, -, rfl⟩
      exact hKept.quiet hHosts rfl rfl hQueued hTimers rfl
  | @tick now =>
      have hHosts : HostsKept (tick now t.endpoint) :=
        ⟨hKept.hosts.own, hKept.hosts.remote⟩
      exact hKept.quiet hHosts rfl rfl
        (hKept.queued.of_conns_eq rfl)
        (hKept.timers.of_same
          (.of_packets_eq rfl rfl rfl rfl)) rfl
  | read hRead =>
      rcases nbRead_frame hRead with ⟨conn, q, hConn, rfl⟩
      exact hKept.assigns hConn rfl rfl (fun _ hx => hx)

/- What one step of an endpoint keeps. -/
theorem Tags.kindsKept
    {move : TagMove P}
    (hReliable : cfg.reliableEnabled = true)
    (hKept : KindsKept fmt cfg t)
    (hTags : Tags fmt cfg t move t') :
    KindsKept fmt cfg t' := by
  cases hTags with
  | call hCall => exact hKept.call hReliable hCall
  | accepts hStep =>
      cases hStep with
      | opens hCall => exact hKept.call hReliable hCall
      | replays hReceived _ hIngress =>
          exact hKept.processes hReceived hIngress
      | dequeues hConn hQueue =>
          exact hKept.assigns hConn rfl rfl hQueue
      | signals hConn =>
          exact hKept.assigns hConn rfl rfl (fun _ hx => hx)

theorem kindsKept_start
    (fresh : NetState)
    (hConns : ∀ c, e.conns c = none)
    (hHead : e.timers.timersHead = none)
    (hOut : e.out = []) :
    KindsKept fmt cfg (.start (nbNetInit fresh e)) := by
  rcases timersFor_netInit fresh hConns hHead with
    ⟨hHosts, hTimers⟩
  refine ⟨hHosts, fun _ hp => hp.elim, fun _ hp => hp.elim, ?_,
    hTimers, ?_, ?_⟩
  · intro c conn x hConn
    cases (hConns c).symm.trans hConn
  · intro one hOne
    cases hOne
  · change [] = e.out.map Prod.fst
    rw [hOut]
    rfl

end Invariant

------------------------------------------------------------
-- Runs
------------------------------------------------------------

/- No ack that was handed out is for the number zero. -/
def Tagged.AcksNonzero
    (t : Tagged P) : Prop :=
  ∀ sent ∈ t.log, sent.1 ≠ .data → sent.1.number ≠ 0

section Runs

variable
    {fmt : PacketFormat P}
    {cfg : Config}
    {t t' : Tagged P}
    {e' : Endpoint P}
    {kind : PacketKind}

/- What is handed out of a kind, if anything is. -/
theorem Tagged.AcksNonzero.handsOut
    (hNonzero : t.AcksNonzero)
    (hKind : handedOut t.endpoint e' ≠ [] →
      kind ≠ .data → kind.number ≠ 0) :
    (t.handsOut kind e').AcksNonzero := by
  intro sent hSent hAck
  rcases List.mem_append.mp hSent with hOld | hNew
  · exact hNonzero sent hOld hAck
  · rcases List.mem_map.mp hNew with ⟨x, hx, rfl⟩
    exact hKind (List.ne_nil_of_mem hx) hAck

/- Only a packet that is acknowledged is answered. -/
theorem IngressResult.acknowledged
    {e : Endpoint P}
    {p : PacketPtr}
    (hHosts : HostsKept e)
    (hIngress : IngressResult fmt cfg p e e')
    (hSome : handedOut e e' ≠ []) :
    IsAcknowledged fmt cfg e (e.packets p) := by
  cases hIngress.replies hHosts with
  | nothing hOut => exact absurd (handedOut_of_eq hOut) hSome
  | ack hAcknowledged => exact hAcknowledged

/- What a step keeps that meets the condition. -/
theorem Tags.acksNonzero
    {move : TagMove P}
    (hKept : KindsKept fmt cfg t)
    (hNonzero : t.AcksNonzero)
    (hNumbered : ∀ x, t.processes move = some x →
      IsAcknowledged fmt cfg t.endpoint x →
        receivedNumber fmt cfg x ≠ 0)
    (hTags : Tags fmt cfg t move t') :
    t'.AcksNonzero := by
  have hData : ∀ e', (t.handsOut .data e').AcksNonzero :=
    fun e' => hNonzero.handsOut
      (fun _ hNe => absurd rfl hNe)
  cases hTags with
  | call hCall =>
      cases hCall with
      | @ingress _ x _ hIngress =>
          have hHosts : HostsKept (t.endpoint.polled x) :=
            ⟨hKept.hosts.own, hKept.hosts.remote⟩
          have hAcknowledged :=
            (ingress_iff.mp hIngress).acknowledged hHosts
          rw [polled_packets_self] at hAcknowledged
          exact hNonzero.handsOut (fun hSome _ =>
            hNumbered x rfl (hAcknowledged hSome))
      | _ => exact hData _
  | accepts hStep =>
      cases hStep with
      | replays _ hOld hIngress =>
          have hResult := (runIngressPath_iff
            (Nat.ne_of_lt hOld)).mp hIngress
          exact hNonzero.handsOut (fun hSome _ =>
            hNumbered _ rfl
              (hResult.acknowledged hKept.hosts hSome))
      | _ => exact hData _

/- Every call of the API is a sequence of steps. -/
theorem tags_of_apiCalls
    {call : ApiCall P}
    (hKept : KindsKept fmt cfg t)
    (hCall : ApiCalls fmt cfg t.endpoint call e') :
    ∃ moves t', Run (Tags fmt cfg) t moves t' ∧
      t'.endpoint = e' := by
  cases hCall with
  | @call _ call hCall =>
      refine ⟨_, _, .cons (.call hCall) (.nil _), ?_⟩
      cases call <;> rfl
  | accept hNe hFree hAccept =>
      rcases nbAccept_steps hKept.queued
          (fun p hp => (hKept.received p hp).1) hNe hFree
          hAccept with ⟨moves, hRun⟩
      clear hAccept hFree hNe
      generalize hStart : t.endpoint = e at hRun
      generalize hQueued : t.received = queued at hRun
      clear hKept
      induction hRun generalizing t with
      | nil e => exact ⟨[], t, .nil t, hStart⟩
      | @cons e₁ e₂ _ move _ hStep _ ih =>
          subst hStart hQueued
          let t₁ := t.after fmt cfg e₂ (.accepts move)
          have hFirst : Tags fmt cfg t (.accepts move) t₁ :=
            .accepts hStep
          have hAt : t₁.endpoint = e₂ ∧
              t₁.received = t.received := by
            cases move <;> exact ⟨rfl, rfl⟩
          rcases ih hAt.1 hAt.2 with ⟨moves, t', hRest, hEnd⟩
          exact ⟨_, t', .cons hFirst hRest, hEnd⟩

/-
  In every run of two endpoints that never acknowledge the
  number zero, all that either hands out is noted, and the
  other tells by the ack number how it was built.
-/
theorem toldApart_of_run
    {fresh : Side → NetState}
    {e : Side → Endpoint P}
    {labels : List (Side × TagMove P)}
    {s : Side → Tagged P}
    (hReliable : cfg.reliableEnabled = true)
    (hConns : ∀ i c, (e i).conns c = none)
    (hHead : ∀ i, (e i).timers.timersHead = none)
    (hOut : ∀ i, (e i).out = [])
    (hRun : Run (Guarded (AcksNumbered fmt cfg)
      (PairStep fmt cfg))
      (fun i => .start (nbNetInit (fresh i) (e i))) labels
      s) :
    ∀ i, (s i).log.map Prod.snd =
        (s i).endpoint.out.map Prod.fst ∧
      ∀ sent ∈ (s i).log,
        ToldApart fmt cfg sent.1 sent.2 := by
  have hStep : ∀ s₁ label s₂,
      (∀ i, KindsKept fmt cfg (s₁ i) ∧ (s₁ i).AcksNonzero) →
      Guarded (AcksNumbered fmt cfg) (PairStep fmt cfg) s₁
        label s₂ →
      ∀ i, KindsKept fmt cfg (s₂ i) ∧
        (s₂ i).AcksNonzero := by
    rintro s₁ ⟨j, move⟩ s₂ hInv ⟨hNumbered, t, hTags, rfl⟩ i
    rcases hInv j with ⟨hKept, hNonzero⟩
    by_cases hEq : i = j
    · subst hEq
      rw [Function.update_self]
      exact ⟨hTags.kindsKept hReliable hKept,
        hTags.acksNonzero hKept hNonzero hNumbered⟩
    · rw [Function.update_of_ne hEq]
      exact hInv i
  have hInv := hRun.invariant hStep (fun i =>
    ⟨kindsKept_start (fresh i) (hConns i) (hHead i) (hOut i),
      fun _ hSent => by cases hSent⟩)
  intro i
  rcases hInv i with ⟨hKept, hNonzero⟩
  refine ⟨hKept.complete, ?_⟩
  intro sent hSent
  exact (hKept.log sent hSent).toldApart
    (hNonzero sent hSent)

end Runs

------------------------------------------------------------
-- The Number Wraps
------------------------------------------------------------

def Side.other : Side → Side
| .left => .right
| .right => .left

/- What arrives is what the other endpoint handed out. -/
def ArrivesAsSent
    (s : Side → Tagged P)
    (label : Side × TagMove P) : Prop :=
  ∀ x len, label.2 = .call (.ingress x len) →
    ∃ kind, (kind, x) ∈ (s label.1.other).log

/-
  The left endpoint sent packets up to number `n`, which were
  all acknowledged.
-/
structure Alternating
    (cfg : Config)
    (ends : Ends)
    (c : ConnPtr)
    (n : BitVec 32)
    (free : List TimerPtr)
    (s : Side → Tagged P) : Prop where
  sender : ∃ conn, Idle cfg ends c n free
    (s .left).endpoint conn
  receiver : ∃ conn, IsOpen cfg ends.flip c
    (s .right).endpoint conn

/-
  The packet with number `n` was taken, and its ack `y` is
  under way.
-/
structure Answered
    (fmt : PacketFormat P)
    (cfg : Config)
    (ends : Ends)
    (c : ConnPtr)
    (n : BitVec 32)
    (u : TimerPtr)
    (free : List TimerPtr)
    (y : P)
    (s : Side → Tagged P) : Prop where
  sender : ∃ q conn, Awaits fmt cfg ends c n q u free
    (s .left).endpoint conn
  receiver : ∃ conn, IsOpen cfg ends.flip c
    (s .right).endpoint conn
  noted : (.ack n, y) ∈ (s .right).log
  gets : ends.Gets fmt y
  number : fmt.getWord .ackSequenceNumber y = n

section Wraps

variable
    {fmt : PacketFormat P}
    {cfg : Config}
    {ends : Ends}
    {c : ConnPtr}
    {n : BitVec 32}
    {u : TimerPtr}
    {free : List TimerPtr}
    {s : Side → Tagged P}
    (hReliable : cfg.reliableEnabled = true)
    (hChecksum : cfg.checksumEnabled = false)

include hChecksum in
theorem receivedNumber_of_unchecked
    (x : P) :
    receivedNumber fmt cfg x =
      fmt.getWord .sequenceNumber x := by
  simp only [receivedNumber, checkPacket, hChecksum,
    Bool.false_eq_true, if_false]
  exact congrArg (BitVec.setWidth 32)
    (PacketFormat.get_restoreTotalLen (by decide) x)

include hReliable hChecksum

/- The next packet is sent, taken and acknowledged. -/
theorem Alternating.answered
    (hStrategy : cfg.inorderStrategy = .noInorder)
    (hWrite : ∀ x, ∃ y, fmt.writePayload [] x = .ok y)
    (hAlternating : Alternating cfg ends c n (u :: free) s) :
    ∃ labels s' y, Run (Guarded ArrivesAsSent
        (PairStep fmt cfg)) s labels s' ∧
      Answered fmt cfg ends c (n + 1) u free y s' := by
  rcases hAlternating with
    ⟨⟨conn, hIdle⟩, ⟨conn₂, hOpen⟩⟩
  rcases hIdle.sends hReliable hChecksum hWrite with
    ⟨x, e₁, conn₁, hSend, hAwaits, hData, hOut₁⟩
  rcases hOpen.answers hReliable hChecksum hStrategy hData 0
    with ⟨y, e₂, conn₂', hIngress, hOpen', hGets, hAck, hOut₂⟩
  have hNumber : receivedNumber fmt cfg x = n + 1 := by
    rw [receivedNumber_of_unchecked hChecksum, hData.number]
  let t₁ := (s .left).after fmt cfg e₁ (.call (.send c []))
  let s₁ := Function.update s .left t₁
  let t₂ := (s₁ .right).after fmt cfg e₂
    (.call (.ingress x 0))
  have hRight : s₁ .right = s .right :=
    Function.update_of_ne (by decide) _ _
  have hLeft : s₁ .left = t₁ := Function.update_self _ _ _
  have hSent : (.data, x) ∈ t₁.log := by
    change (.data, x) ∈ (s .left).log ++
      (handedOut (s .left).endpoint e₁).map _
    rw [handedOut_of_append hOut₁]
    exact List.mem_append_right _ (List.mem_singleton_self _)
  have hFirst : Guarded ArrivesAsSent (PairStep fmt cfg) s
      (.left, .call (.send c [])) s₁ := by
    refine ⟨?_, t₁, .call (.send hSend), rfl⟩
    intro _ _ hEq
    cases hEq
  have hSecond : Guarded ArrivesAsSent (PairStep fmt cfg) s₁
      (.right, .call (.ingress x 0))
      (Function.update s₁ .right t₂) := by
    refine ⟨?_, t₂, ?_, rfl⟩
    · intro x' len hEq
      cases hEq
      refine ⟨.data, ?_⟩
      rw [show (Side.right).other = .left from rfl, hLeft]
      exact hSent
    · refine .call (.ingress ?_)
      rw [hRight]
      exact hIngress
  refine ⟨_, _, y, .cons hFirst (.cons hSecond (.nil _)),
    ⟨(s .left).endpoint.nextPacket, conn₁, ?_⟩,
    ⟨conn₂', ?_⟩, ?_, hGets, hAck⟩
  · rw [Function.update_of_ne (by decide), hLeft]
    exact hAwaits
  · rw [Function.update_self]
    exact hOpen'
  · rw [Function.update_self]
    change (.ack (n + 1), y) ∈ (s₁ .right).log ++
      (handedOut (s₁ .right).endpoint e₂).map
        (fun z => (PacketKind.ack (receivedNumber fmt cfg x),
          z))
    rw [hRight, handedOut_of_append hOut₂, hNumber]
    exact List.mem_append_right _ (List.mem_singleton_self _)

/- An ack for another number than zero arrives as one. -/
theorem Answered.acked
    {y : P}
    (hNe : n ≠ 0)
    (hAnswered : Answered fmt cfg ends c n u free y s) :
    ∃ labels s', Run (Guarded ArrivesAsSent
        (PairStep fmt cfg)) s labels s' ∧
      Alternating cfg ends c n (u :: free) s' := by
  rcases hAnswered.sender with ⟨q, conn, hAwaits⟩
  rcases hAnswered.receiver with ⟨conn₂, hOpen⟩
  rcases hAwaits.acked hReliable hChecksum hAnswered.gets
      hAnswered.number hNe 0 with
    ⟨e', conn', hIngress, hIdle, -⟩
  let t := (s .left).after fmt cfg e' (.call (.ingress y 0))
  have hStep : Guarded ArrivesAsSent (PairStep fmt cfg) s
      (.left, .call (.ingress y 0))
      (Function.update s .left t) := by
    refine ⟨?_, t, .call (.ingress hIngress), rfl⟩
    intro x len hEq
    cases hEq
    exact ⟨_, hAnswered.noted⟩
  refine ⟨_, _, .cons hStep (.nil _), ⟨conn', ?_⟩,
    ⟨conn₂, ?_⟩⟩
  · rw [Function.update_self]
    exact hIdle
  · rw [Function.update_of_ne (by decide)]
    exact hOpen

/- So any number below 2^32 is reached. -/
theorem Alternating.reaches
    {m : Nat}
    (hStrategy : cfg.inorderStrategy = .noInorder)
    (hWrite : ∀ x, ∃ y, fmt.writePayload [] x = .ok y)
    (hAlternating : Alternating cfg ends c (BitVec.ofNat 32 m)
      (u :: free) s)
    (k : Nat)
    (hWrap : m + k < 2 ^ 32) :
    ∃ labels s', Run (Guarded ArrivesAsSent
        (PairStep fmt cfg)) s labels s' ∧
      Alternating cfg ends c (BitVec.ofNat 32 (m + k))
        (u :: free) s' := by
  induction k with
  | zero => exact ⟨[], s, .nil s, hAlternating⟩
  | succ k ih =>
      rcases ih (Nat.lt_of_succ_lt hWrap) with
        ⟨labels₁, s₁, hRun₁, hMiddle⟩
      rcases hMiddle.answered hReliable hChecksum hStrategy
          hWrite with ⟨labels₂, s₂, y, hRun₂, hAnswered⟩
      have hNumber : BitVec.ofNat 32 (m + k) + 1 =
          BitVec.ofNat 32 (m + (k + 1)) :=
        (BitVec.ofNat_add (m + k) 1).symm
      have hNe : BitVec.ofNat 32 (m + k) + 1 ≠ 0 := by
        rw [hNumber]
        intro hZero
        have hNat := congrArg BitVec.toNat hZero
        rw [BitVec.toNat_ofNat, Nat.mod_eq_of_lt hWrap] at hNat
        exact Nat.succ_ne_zero _ hNat
      rcases hAnswered.acked hReliable hChecksum hNe with
        ⟨labels₃, s₃, hRun₃, hEnd⟩
      rw [hNumber] at hEnd
      exact ⟨_, s₃, (hRun₁.append hRun₂).append hRun₃, hEnd⟩

/- An ack for the number zero is taken for data. -/
theorem IsOpen.not_toldApart
    {e : Endpoint P}
    {conn : Connection}
    {y : P}
    (hOpen : IsOpen cfg ends c e conn)
    (hGets : ends.Gets fmt y)
    (hNumber : fmt.getWord .ackSequenceNumber y = 0) :
    ¬ ToldApart fmt cfg (.ack 0) y := by
  intro hTold
  have hFront := runFront_ok_iff.mpr
    (hOpen.routes_polled hChecksum hGets)
  have hSame : fmt.SameWire 0 y
      ((e.polled y).packets e.nextPacket) := by
    rw [polled_packets_self]
    exact ⟨fun _ _ => rfl, fun _ _ => rfl⟩
  have hAck : fmt.getWord .ackSequenceNumber
      (((e.polled y).setPacket e.nextPacket
        (receivedPacket fmt c y)).packets e.nextPacket) =
          0 := by
    rw [Endpoint.setPacket_packets_self,
      receivedPacket_word (by decide) (by decide), hNumber]
  have hConn : ((e.polled y).setPacket e.nextPacket
      (receivedPacket fmt c y)).conns c = some conn :=
    hOpen.live
  have hFlow : InorderModule.flowConnection fmt e.nextPacket
      ((e.polled y).setPacket e.nextPacket
        (receivedPacket fmt c y)) = c :=
    flowConnection_setPacket e.nextPacket c
      (fmt.restoreTotalLen y)
  generalize (e.polled y).setPacket e.nextPacket
    (receivedPacket fmt c y) = e₁ at hFront hAck hConn hFlow
  rcases completePacket_ok fmt hChecksum conn
      e₁.myLocalHostId e₁.myHostId (ackPacket fmt
        (fmt.getWord .sequenceNumber (e₁.packets e.nextPacket))
        (e₁.packets e₁.nextPacket)) with ⟨z, hZ⟩
  have hSend := (sendAck_ok_iff hReliable).mpr
    ⟨conn, z, hConn, hZ, rfl⟩
  have hTaken : hookIngress fmt cfg e.nextPacket .reliable
      e₁ = .ok (.hookContinue, e₁.requested.transmit fmt
        e₁.nextPacket z) := by
    change ReliableModule.hookIngress fmt cfg e.nextPacket e₁ =
      _
    rw [ReliableModule.hookIngress, hFlow,
      if_neg (not_not.mpr hAck)]
    dsimp only
    rw [hSend]
    rfl
  have hDrop := (hTold _ _ _ _ _ _ hSame hFront hTaken).mpr
    (by decide)
  cases hDrop

end Wraps

/- Host 1 with app 7 and host 2 with app 8. -/
def Side.host : Side → BitVec 32
| .left => 1
| .right => 2

def Side.app : Side → BitVec 32
| .left => 7
| .right => 8

def Side.ends
    (i : Side) : Ends where
  localApp := i.app
  remoteApp := i.other.app
  localHost := i.host.setWidth 64
  remoteHost := i.other.host.setWidth 64
  localApp_lt := by cases i <;> decide
  remoteApp_lt := by cases i <;> decide
  localHost_lt := by cases i <;> decide
  remoteHost_lt := by cases i <;> decide

def Side.endpoint
    (i : Side) : Endpoint PacketBuffer :=
  { bareEndpoint with myHostId := i.host }

def Side.started
    (i : Side) : Tagged PacketBuffer :=
  .start (nbNetInit blankNetState i.endpoint)

/- The call that establishes the connection to the other. -/
def Side.connects
    (i : Side) : Call PacketBuffer :=
  .establish 1 blankConnection i.other.host i.other.app i.app

def Side.establishes
    (i : Side) : Except Fault (Endpoint PacketBuffer) :=
  nbEstablish netPacketFormat reliableConfig 1 blankConnection
    i.other.host i.other.app i.app
    (nbNetInit blankNetState i.endpoint)

/- The reliable stack with a way to keep the order. -/
def reliably
    (strategy : InorderStrategy) : Config :=
  { reliableConfig with inorderStrategy := strategy }

def Side.opens
    (strategy : InorderStrategy)
    (i : Side) : Except Fault (Endpoint PacketBuffer) :=
  nbEstablish netPacketFormat (reliably strategy) 1
    blankConnection i.other.host i.other.app i.app
    (nbNetInit blankNetState i.endpoint)

/- Establishing the connection sends nothing. -/
theorem Side.opens_frame
    {strategy : InorderStrategy}
    {i : Side}
    {e : Endpoint PacketBuffer}
    (hOpens : i.opens strategy = .ok e) :
    e.timers = (nbNetInit blankNetState i.endpoint).timers ∧
      e.packets = (fun _ => blankBuffer) ∧
      e.out = [] := by
  rcases nbEstablish_ok_iff.mp hOpens with
    ⟨netState, conn', e₁, -, hSignal, rfl⟩
  cases hSignal with
  | wildcard => exact ⟨rfl, rfl, rfl⟩
  | unsignaled => exact ⟨rfl, rfl, rfl⟩
  | signals _ hOn => cases hOn

/- Establishing the connection starts no timer. -/
theorem Side.opens_idle
    (strategy : InorderStrategy)
    (i : Side) :
    ∃ e, i.opens strategy = .ok e ∧
      ∃ conn, Idle (reliably strategy) i.ends 1 1010
        (List.finRange maxTimerAllocs) e conn := by
  have hTable : (do
      let e ← i.opens strategy
      return ((e.conns 1).map (fun conn : Connection =>
          (conn.localAppId, conn.remoteAppId,
            conn.remoteHostId, conn.lastSentSequence)),
        e.myLocalHostId,
        e.netState.retrieveConnection .srcDstIdentifier
          i.ends.localApp i.ends.remoteApp
          i.ends.remoteHost)) =
      .ok (some (i.ends.localApp, i.ends.remoteApp,
        i.ends.remoteHost, 1010), i.ends.localHost, 1) := by
    cases strategy <;> cases i <;> decide +kernel
  rcases bind_eq_ok_iff.mp hTable with ⟨e, hFirst, hEnd⟩
  simp only [pure_eq_ok, Except.ok.injEq, Prod.mk.injEq,
    Option.map_eq_some_iff] at hEnd
  rcases hEnd with ⟨⟨conn, hConn, hLocal, hRemote, hHost,
    hLast⟩, hOwn, hFound⟩
  have hPool : e.timers.Represents []
      (List.finRange maxTimerAllocs) := by
    rw [(Side.opens_frame hFirst).1]
    exact TimerPool.initTimers_represents rfl
  exact ⟨e, hFirst, conn, ⟨hConn, hLocal, hRemote, hHost,
    hOwn, hFound, by decide⟩, hLast, hPool⟩

theorem Side.establishes_idle
    (i : Side) :
    ∃ e, i.establishes = .ok e ∧
      ∃ u free conn, Idle reliableConfig i.ends 1 1010
        (u :: free) e conn := by
  rcases i.opens_idle .noInorder with
    ⟨e, hOpens, conn, hIdle⟩
  cases hFree : List.finRange maxTimerAllocs with
  | nil =>
      have hNone := congrArg List.length hFree
      rw [List.length_finRange] at hNone
      cases hNone
  | cons u free =>
      rw [hFree] at hIdle
      exact ⟨e, hOpens, u, free, conn, hIdle⟩

/- Both connections are established, from the start. -/
theorem alternating_of_run :
    ∃ labels s u free, Run (Guarded ArrivesAsSent
        (PairStep netPacketFormat reliableConfig))
        Side.started labels s ∧
      Alternating reliableConfig Side.left.ends 1
        (BitVec.ofNat 32 1010) (u :: free) s := by
  rcases Side.left.establishes_idle with
    ⟨e₁, hFirst, u, free, conn₁, hIdle⟩
  rcases Side.right.establishes_idle with
    ⟨e₂, hSecond, _, _, conn₂, hIdle₂⟩
  let t₁ := Side.left.started.after netPacketFormat
    reliableConfig e₁ (.call Side.left.connects)
  let t₂ := Side.right.started.after netPacketFormat
    reliableConfig e₂ (.call Side.right.connects)
  let s₁ := Function.update Side.started .left t₁
  have hStep₁ : Guarded ArrivesAsSent (PairStep
      netPacketFormat reliableConfig) Side.started
      (.left, .call Side.left.connects) s₁ := by
    refine ⟨?_, t₁, .call (.establish (by decide) rfl hFirst),
      rfl⟩
    intro x len hEq
    cases hEq
  have hStep₂ : Guarded ArrivesAsSent (PairStep
      netPacketFormat reliableConfig) s₁
      (.right, .call Side.right.connects)
      (Function.update s₁ .right t₂) := by
    refine ⟨?_, t₂, .call (.establish (by decide) rfl hSecond),
      rfl⟩
    intro x len hEq
    cases hEq
  refine ⟨_, _, u, free,
    .cons hStep₁ (.cons hStep₂ (.nil _)), ⟨conn₁, ?_⟩,
    ⟨conn₂, ?_⟩⟩
  · rw [Function.update_of_ne (by decide),
      show s₁ .left = t₁ from Function.update_self _ _ _]
    exact hIdle
  · rw [Function.update_self]
    exact hIdle₂.isOpen

/-
  After 2^32 - 1011 packets the next one has number zero, and
  the ack it gets is taken for data.
-/
theorem not_forall_toldApart :
    ¬ ∀ (fmt : PacketFormat PacketBuffer) cfg
        (fresh : Side → NetState)
        (e : Side → Endpoint PacketBuffer) labels s,
      cfg.reliableEnabled = true →
      (∀ i c, (e i).conns c = none) →
      (∀ i, (e i).timers.timersHead = none) →
      (∀ i, (e i).out = []) →
      Run (Guarded ArrivesAsSent (PairStep fmt cfg))
        (fun i => .start (nbNetInit (fresh i) (e i))) labels
        s →
      ∀ i, ∀ sent ∈ (s i).log,
        ToldApart fmt cfg sent.1 sent.2 := by
  intro hAll
  have hWrite : ∀ x, ∃ y,
      netPacketFormat.writePayload [] x = .ok y :=
    fun x => ⟨_, if_pos x.payloadStart_le⟩
  rcases alternating_of_run with
    ⟨labels₁, s₁, u, free, hRun₁, hOpened⟩
  rcases hOpened.reaches rfl rfl rfl hWrite (2 ^ 32 - 1011)
      (by omega) with ⟨labels₂, s₂, hRun₂, hLast⟩
  rcases hLast.answered rfl rfl rfl hWrite with
    ⟨labels₃, s₃, y, hRun₃, hAnswered⟩
  have hZero : BitVec.ofNat 32 (1010 + (2 ^ 32 - 1011)) + 1 =
      0 := by
    decide
  rw [hZero] at hAnswered
  rcases hAnswered.sender with ⟨q, conn, hAwaits⟩
  have hTold := hAll netPacketFormat reliableConfig
    (fun _ => blankNetState) Side.endpoint _ s₃ rfl
    (fun _ _ => rfl) (fun _ => rfl) (fun _ => rfl)
    ((hRun₁.append hRun₂).append hRun₃) .right _
    hAnswered.noted
  exact hAwaits.isOpen.not_toldApart rfl rfl hAnswered.gets
    hAnswered.number hTold

/- A packet of the user is taken for data. -/
theorem toldApart_of_run_one :
    ∃ (s : Side → Tagged PacketBuffer) (x : PacketBuffer),
      (PacketKind.data, x) ∈ (s .left).log ∧
        ToldApart netPacketFormat reliableConfig .data x := by
  have hWrite : ∀ x, ∃ y,
      netPacketFormat.writePayload [] x = .ok y :=
    fun x => ⟨_, if_pos x.payloadStart_le⟩
  rcases Side.left.establishes_idle with
    ⟨e₁, hFirst, u, free, conn, hIdle⟩
  rcases hIdle.sends rfl rfl hWrite with
    ⟨x, e₂, conn', hSend, -, -, hOut⟩
  let t₁ := Side.left.started.after netPacketFormat
    reliableConfig e₁ (.call Side.left.connects)
  let s₁ := Function.update Side.started .left t₁
  have hLeft : s₁ .left = t₁ := Function.update_self _ _ _
  let t₂ := (s₁ .left).after netPacketFormat reliableConfig
    e₂ (.call (.send 1 []))
  let s₂ := Function.update s₁ .left t₂
  have hStep₁ : Guarded (AcksNumbered netPacketFormat
      reliableConfig) (PairStep netPacketFormat
      reliableConfig) Side.started
      (.left, .call Side.left.connects) s₁ := by
    refine ⟨?_, t₁, .call (.establish (by decide) rfl hFirst),
      rfl⟩
    intro x hx
    cases hx
  have hStep₂ : Guarded (AcksNumbered netPacketFormat
      reliableConfig) (PairStep netPacketFormat
      reliableConfig) s₁ (.left, .call (.send 1 [])) s₂ := by
    refine ⟨?_, t₂, .call (.send (n := 0) ?_), rfl⟩
    · intro x hx
      cases hx
    · rw [hLeft]
      exact hSend
  have hNoted : (PacketKind.data, x) ∈ (s₂ .left).log := by
    rw [show s₂ .left = t₂ from Function.update_self _ _ _]
    change _ ∈ (s₁ .left).log ++
      (handedOut (s₁ .left).endpoint e₂).map _
    have hOut' : e₂.out = t₁.endpoint.out ++ _ := hOut
    rw [hLeft, handedOut_of_append hOut']
    exact List.mem_append_right _ (List.mem_singleton_self _)
  have hRun : Run (Guarded (AcksNumbered netPacketFormat
      reliableConfig) (PairStep netPacketFormat
      reliableConfig))
      (fun i => .start (nbNetInit blankNetState i.endpoint))
      _ s₂ :=
    .cons hStep₁ (.cons hStep₂ (.nil s₂))
  have hTold := toldApart_of_run rfl (fun _ _ => rfl)
    (fun _ => rfl) (fun _ => rfl) hRun
  exact ⟨s₂, x, hNoted, (hTold .left).2 _ hNoted⟩

end NetBlocks
