import NetBlocks.Core.CallEffects
import NetBlocks.Core.Arrival

/-
  What is sent on one connection while it is open, in order,
  and the numbers and payloads these packets carry.

  Main declarations:
    * `SentLog`
    * `SentOn` and `SentOn.numbered`
-/

namespace NetBlocks

open Except TransitionSystem

variable {P : Type}

------------------------------------------------------------
-- The Packets of a Connection
------------------------------------------------------------

/- An endpoint some run from `nb__net_init` leads to. -/
def Reached
    (fmt : PacketFormat P)
    (cfg : Config)
    (e : Endpoint P) : Prop :=
  ∃ (fresh : NetState) (e₀ : Endpoint P)
      (labels : List (Call P)),
    (∀ c, e₀.conns c = none) ∧
      Run (Calls fmt cfg) (nbNetInit fresh e₀) labels e

/- What was handed to the transport between two endpoints. -/
def handedOut
    (e e' : Endpoint P) : List P :=
  (e'.out.drop e.out.length).map Prod.fst

/- Packets in the order sent, each with its payload. -/
abbrev SentLog (P : Type) := List (P × List Byte)

/- The payloads of a log that are not empty. -/
def SentLog.payloads
    (log : SentLog P) : List (Except Fault (List Byte)) :=
  log.flatMap (fun sent => payloadOf sent.2)

theorem SentLog.payloads_snoc
    (log : SentLog P)
    (y : P)
    (buff : List Byte) :
    SentLog.payloads (log ++ [(y, buff)]) =
      log.payloads ++ payloadOf buff := by
  simp [SentLog.payloads]

/-
  `SentOn c e log` holds of an endpoint `e` with an open
  connection at `c`, when `log` lists what was handed to the
  transport by the `nb__establish` that opened it, which has
  no payload, and by every `nb__send` on it since. Anything
  may be called in between except freeing it.
-/
inductive SentOn
    (fmt : PacketFormat P)
    (cfg : Config)
    (c : ConnPtr) : Endpoint P → SentLog P → Prop
| opens {e e' : Endpoint P} {fresh : Connection}
    {h a sa : BitVec 32} :
    Reached fmt cfg e →
    Calls fmt cfg e (.establish c fresh h a sa) e' →
    SentOn fmt cfg c e'
      ((handedOut e e').map (fun x => (x, [])))
| sends {e e' : Endpoint P} {log : SentLog P}
    {buff : List Byte} :
    SentOn fmt cfg c e log →
    Calls fmt cfg e (.send c buff) e' →
    SentOn fmt cfg c e'
      (log ++ (handedOut e e').map (fun x => (x, buff)))
| calls {e e' : Endpoint P} {log : SentLog P}
    {call : Call P} :
    SentOn fmt cfg c e log →
    (∀ buff, call ≠ .send c buff) →
    call ≠ .destablish c →
    Calls fmt cfg e call e' →
    SentOn fmt cfg c e' log

------------------------------------------------------------
-- Their Numbers
------------------------------------------------------------

section Numbers

variable
    {fmt : PacketFormat P}
    {cfg : Config}
    {c : ConnPtr}
    {e e' : Endpoint P}
    {conn : Connection}

theorem Reached.hostsKept
    (hReached : Reached fmt cfg e) :
    HostsKept e := by
  rcases hReached with ⟨fresh, e₀, labels, hNone, hRun⟩
  refine hRun.invariant (fun _ _ _ hHosts hCall =>
    hCall.hostsKept hHosts) (HostsKept.netInit fresh ?_)
  intro d x hx
  rw [Endpoint.describe, hNone d] at hx
  cases hx

/- Sending hands out one packet. -/
theorem handedOut_sent
    (timers : TimerPool)
    (x : P) :
    handedOut e (e.requested.sent fmt cfg c conn e.nextPacket
      timers x) = [x] := by
  have hOut : (e.requested.sent fmt cfg c conn e.nextPacket
      timers x).out =
        e.out ++ [(x, fmt.getWord .computedTotalLen x)] := by
    rw [← Endpoint.setPacket_packets_self e e.nextPacket x]
    simp [Endpoint.sent, Endpoint.transmit,
      Endpoint.sendPacket, Endpoint.setConn,
      Endpoint.requested]
  rw [handedOut, hOut, List.drop_left]
  rfl

/-
  A packet that is sent carries the next number, and what the
  modules before wrote. Its size is the length in its header.
-/
theorem Sends.carries
    {y x : P}
    {t : Option TimerPtr}
    {timers : TimerPool}
    {buff : List Byte}
    (hNumbered : cfg.inorderStrategy ≠ .noInorder ∨
      cfg.reliableEnabled = true)
    (hSends : Sends fmt cfg e conn e.nextPacket y x t timers)
    (hFits : HostsFit conn e.myLocalHostId)
    (hLength : fmt.headerLen + buff.length < 2 ^ 31)
    (hTotal : fmt.getWord .totalLen y =
      BitVec.ofNat 32 (fmt.headerLen + buff.length))
    (hComputed : fmt.getWord .computedTotalLen y =
      BitVec.ofNat 32 (fmt.headerLen + buff.length))
    (hPayload : buff ≠ [] →
      fmt.readPayload buff.length y = .ok buff) :
    fmt.Carries (conn.lastSentSequence + 1) buff x ∧
      fmt.getWord .computedTotalLen x =
        BitVec.ofNat 32 (fmt.headerLen + buff.length) := by
  have hSized : fmt.Sized y := by
    rw [PacketFormat.Sized,
      PacketFormat.toInt_getInteger rfl rfl, hComputed,
      toInt_length hLength]
    omega
  refine ⟨⟨hSends.sequenceNumber hFits hSized hNumbered, ?_,
    hLength, ?_⟩, ?_⟩
  · rw [PacketFormat.getWord, hSends.get hFits hSized rfl
      (by decide) (by decide) (by decide),
      ← PacketFormat.getWord, hTotal]
  · intro hNe
    rw [hSends.read hFits (by rw [hComputed,
      toInt_length hLength]), hPayload hNe]
  · rw [PacketFormat.getWord, hSends.get hFits hSized rfl
      (by decide) (by decide) (by decide),
      ← PacketFormat.getWord, hComputed]

/- The number after those of the first `n` packets. -/
theorem numberAt_eq
    {last : BitVec 32}
    {n : Nat}
    (hLast : last = 1010 + BitVec.ofNat 32 n) :
    last + 1 = numberAt n := by
  subst hLast
  apply BitVec.eq_of_toNat_eq
  simp [numberAt]
  omega

/-
  The log so far: the connection is open, its last number is
  that of the last packet, and each packet carries the number
  of its position and is as long as it says.
-/
structure Numbered
    (fmt : PacketFormat P)
    (c : ConnPtr)
    (e : Endpoint P)
    (log : SentLog P) : Prop where
  hosts : HostsKept e
  last : ∃ conn, e.conns c = some conn ∧
    conn.lastSentSequence =
      1010 + BitVec.ofNat 32 log.length
  sent : ∀ i x buff, log[i]? = some (x, buff) →
    fmt.Carries (numberAt i) buff x ∧
      fmt.getWord .computedTotalLen x =
        BitVec.ofNat 32 (fmt.headerLen + buff.length)

namespace Numbered

variable
    {log : SentLog P}

/- One more packet is at the end of the log. -/
theorem snoc
    {conn' : Connection}
    {x : P}
    {buff : List Byte}
    (hLog : Numbered fmt c e log)
    (hHosts : HostsKept e')
    (hConn' : e'.conns c = some conn')
    (hLast : conn'.lastSentSequence =
      1010 + BitVec.ofNat 32 (log.length + 1))
    (hCarries : fmt.Carries (numberAt log.length) buff x ∧
      fmt.getWord .computedTotalLen x =
        BitVec.ofNat 32 (fmt.headerLen + buff.length)) :
    Numbered fmt c e' (log ++ [(x, buff)]) where
  hosts := hHosts
  last := ⟨conn', hConn', by
    rw [hLast, List.length_append, List.length_singleton]⟩
  sent := by
    intro i y bytes hAt
    rw [List.getElem?_append] at hAt
    split at hAt
    · exact hLog.sent i y bytes hAt
    · next hGe =>
        have hEq : i - log.length = 0 := by
          by_contra hNe
          rw [List.getElem?_eq_none (by
            simp only [List.length_singleton]
            omega)] at hAt
          cases hAt
        have hi : i = log.length := by omega
        subst hi
        simp at hAt
        rw [← hAt.1, ← hAt.2]
        exact hCarries

theorem carries
    (hLog : Numbered fmt c e log)
    (i : Nat)
    (x : P)
    (buff : List Byte)
    (hAt : log[i]? = some (x, buff)) :
    fmt.Carries (numberAt i) buff x :=
  (hLog.sent i x buff hAt).1

end Numbered

/- The last number after one packet more. -/
theorem lastSent_succ
    {last last' : BitVec 32}
    {n : Nat}
    (hLast : last = 1010 + BitVec.ofNat 32 n)
    (hNext : last' = last + 1) :
    last' = 1010 + BitVec.ofNat 32 (n + 1) := by
  rw [hNext, hLast, BitVec.ofNat_add, BitVec.add_assoc]
  rfl

/- The connection as it was opened numbers from 1011 on. -/
theorem openedConn_last
    {fresh : Connection}
    {h a sa : BitVec 32}
    (hostLocalId : BitVec 64)
    (p : PacketPtr) :
    (openedConn cfg fresh hostLocalId h a sa
        p).lastSentSequence =
      if ¬ IsWildcard h a ∧ cfg.signalingEnabled = true then
        1011
      else
        1010 := by
  have hRouted : ∀ conn : Connection,
      (routedConn cfg sa conn).lastSentSequence =
        conn.lastSentSequence := by
    intro conn
    unfold routedConn
    split <;> rfl
  rw [openedConn, hRouted, signaledConn]
  by_cases hIs : IsWildcard h a
  · rw [if_pos hIs, if_neg (fun hBoth => hBoth.1 hIs)]
    rfl
  · rw [if_neg hIs]
    cases hOn : cfg.signalingEnabled with
    | true =>
        rw [if_pos rfl, if_pos ⟨hIs, rfl⟩]
        rfl
    | false =>
        rw [if_neg (by simp), if_neg (by simp)]
        rfl

/- Establishing hands out the signal, if there is one. -/
theorem nbEstablish_handedOut
    {fresh : Connection}
    {h a sa : BitVec 32}
    (hHosts : HostsKept e)
    (hEstablish : nbEstablish fmt cfg c fresh h a sa e =
      .ok e') :
    (¬ (¬ IsWildcard h a ∧ cfg.signalingEnabled = true) ∧
      handedOut e e' = []) ∨
    ((¬ IsWildcard h a ∧ cfg.signalingEnabled = true) ∧
      ∃ (e₀ : Endpoint P) (conn : Connection) (x : P)
          (t : Option TimerPtr) (timers : TimerPool),
        handedOut e e' = [x] ∧
        conn.lastSentSequence = 1010 ∧
        HostsFit conn e₀.myLocalHostId ∧
        Sends fmt cfg e₀ conn e₀.nextPacket
          (lengthPacket fmt 0 (e₀.packets e₀.nextPacket))
          x t timers) := by
  rcases nbEstablish_ok_iff.mp hEstablish with
    ⟨netState, conn', e₁, -, hSignal, rfl⟩
  let conn₀ := establishedConn cfg fresh (e.hostLocalId h) a sa
  let e₀ := e.registered c conn₀ netState
  change SignalResult fmt cfg c conn₀ h a e₀ conn' e₁
    at hSignal
  have hNothing : ∀ conn : Connection,
      handedOut e ((e₀.setConn c conn).setConn c
        (routedConn cfg sa conn')) = [] := by
    intro conn
    have hOut : ((e₀.setConn c conn).setConn c
        (routedConn cfg sa conn')).out = e.out := rfl
    rw [handedOut, hOut, List.drop_length]
    rfl
  cases hSignal with
  | wildcard hIs =>
      exact Or.inl ⟨fun hBoth => hBoth.1 hIs, hNothing _⟩
  | unsignaled _ hOff =>
      exact Or.inl ⟨by simp [hOff], hNothing _⟩
  | @signals conn₁ x t timers hNot hOn hEq hSends =>
      refine Or.inr ⟨⟨hNot, hOn⟩, e₀, conn₁, x, t, timers,
        handedOut_sent (e := e₀) timers x, by rw [hEq]; rfl,
        ?_, hSends⟩
      rw [hEq]
      exact ⟨Nat.lt_trans (lookup_lt _ _) (by decide),
        Nat.lt_trans hHosts.own (by decide)⟩

/- The log of a connection that was just opened. -/
theorem numbered_opens
    {fresh : Connection}
    {h a sa : BitVec 32}
    (hNumbered : cfg.inorderStrategy ≠ .noInorder ∨
      cfg.reliableEnabled = true)
    (hHosts : HostsKept e)
    (hCall : Calls fmt cfg e (.establish c fresh h a sa) e') :
    Numbered fmt c e'
      ((handedOut e e').map (fun x => (x, []))) := by
  have hHosts' := hCall.hostsKept hHosts
  cases hCall with
  | establish _ _ hEstablish =>
      have hConn : e'.conns c = some (openedConn cfg fresh
          (e.hostLocalId h) h a sa e.nextPacket) := by
        rw [nbEstablish_conns hEstablish,
          Function.update_self]
      rcases nbEstablish_handedOut hHosts hEstablish with
        ⟨hQuiet, hOut⟩ | ⟨hSignals, e₀, conn, x, t,
          timers, hOut, hLast, hFits, hSends⟩
      · rw [hOut]
        refine ⟨hHosts', ⟨_, hConn, ?_⟩, ?_⟩
        · rw [openedConn_last, if_neg hQuiet]
          rfl
        · intro i y buff hAt
          simp at hAt
      · rw [hOut]
        refine ⟨hHosts', ⟨_, hConn, ?_⟩, ?_⟩
        · rw [openedConn_last, if_pos hSignals]
          rfl
        · have hLength : fmt.headerLen +
              ([] : List Byte).length < 2 ^ 31 :=
            Nat.lt_trans (Nat.lt_succ_self _)
              fmt.headerLen_lt
          have hCarries := hSends.carries hNumbered hFits
            hLength lengthPacket_total
            lengthPacket_computed
            (fun hNe => absurd rfl hNe)
          rw [hLast] at hCarries
          intro i y buff hAt
          cases i with
          | zero =>
              cases hAt
              exact hCarries
          | succ i => simp at hAt

/- A packet is sent on the connection. -/
theorem Numbered.sends
    {log : SentLog P}
    {buff : List Byte}
    (hNumbered : cfg.inorderStrategy ≠ .noInorder ∨
      cfg.reliableEnabled = true)
    (hLog : Numbered fmt c e log)
    (hCall : Calls fmt cfg e (.send c buff) e') :
    Numbered fmt c e'
      (log ++ (handedOut e e').map (fun x => (x, buff))) := by
  have hHosts' := hCall.hostsKept hLog.hosts
  cases hCall with
  | send hSend =>
      rcases nbSend_ok_iff.mp hSend with
        ⟨conn, y, x, t, timers, hConn, hWrite, hSends, -,
          rfl⟩
      rcases hLog.last with ⟨conn', hConn', hLast⟩
      cases hConn.symm.trans hConn'
      have hWritten : ∀ f, fmt.getInteger f y =
          fmt.getInteger f (lengthPacket fmt buff.length
            (e.packets e.nextPacket)) := fun f =>
        fmt.write_get f _ _ y hWrite
      have hCarries := hSends.carries hNumbered
        (hLog.hosts.fits hConn)
        (fmt.write_length _ _ y hWrite)
        (by rw [PacketFormat.getWord, hWritten,
          ← PacketFormat.getWord, lengthPacket_total])
        (by rw [PacketFormat.getWord, hWritten,
          ← PacketFormat.getWord, lengthPacket_computed])
        (fun _ => fmt.write_read _ _ y hWrite)
      rw [numberAt_eq hLast] at hCarries
      rw [handedOut_sent]
      exact hLog.snoc hHosts'
        (Endpoint.setConn_conns_self _ _ _)
        (lastSent_succ hLast rfl) hCarries

/- Anything else leaves the numbers alone. -/
theorem Numbered.calls
    {log : SentLog P}
    {call : Call P}
    (hLog : Numbered fmt c e log)
    (hNot : ∀ buff, call ≠ .send c buff)
    (hOpen : call ≠ .destablish c)
    (hCall : Calls fmt cfg e call e') :
    Numbered fmt c e' log := by
  rcases hLog.last with ⟨conn, hConn, hLast⟩
  rcases hCall.kept hConn hOpen with
    ⟨conn', hConn', -, -, -, -, hSends | ⟨-, hSame⟩⟩
  · exact absurd hSends.1.choose_spec (hNot _)
  · exact ⟨hCall.hostsKept hLog.hosts,
      ⟨conn', hConn', hSame.trans hLast⟩, hLog.sent⟩

/- Every packet sent carries the number of its position. -/
theorem SentOn.numbered
    {log : SentLog P}
    (hNumbered : cfg.inorderStrategy ≠ .noInorder ∨
      cfg.reliableEnabled = true)
    (hSent : SentOn fmt cfg c e log) :
    Numbered fmt c e log := by
  induction hSent with
  | opens hReached hCall =>
      exact numbered_opens hNumbered hReached.hostsKept hCall
  | sends _ hCall ih => exact ih.sends hNumbered hCall
  | calls _ hNot hOpen hCall ih =>
      exact ih.calls hNot hOpen hCall

end Numbers

end NetBlocks
