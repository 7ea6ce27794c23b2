import NetBlocks.Core.SentLog
import NetBlocks.Correctness.ConnectionTable

/-
  With `drop_out_of_order`, a packet is delivered when it was
  sent later than every packet accepted before it, as long as
  the 32-bit numbers do not wrap around.

  Main declarations:
    * `FromLog` and `DeliversNewest`
    * `NumbersLast`
    * `deliversNewest_iff`
-/

namespace NetBlocks

open Except TransitionSystem

variable {P : Type}

------------------------------------------------------------
-- Receptions of a Log
------------------------------------------------------------

/-
  What arrives over the wire is one of the packets sent, and
  any of them may be lost, duplicated, or overtaken.
-/
def FromLog
    (fmt : PacketFormat P)
    (log : SentLog P)
    (_ : Reception P) : ReceptionLabel P → Prop
| .packet i x => ∃ y buff, log[i]? = some (y, buff) ∧
    fmt.SameWire (fmt.getWord .totalLen y).toInt y x
| .read _ => True

/- The receiving connection was just opened. -/
def FreshReception
    (fmt : PacketFormat P)
    (cfg : Config)
    (c : ConnPtr)
    (r : Reception P) : Prop :=
  r.inserted = [] ∧ r.arrived = [] ∧ r.accepted = [] ∧
    ∃ e fresh h a sa, Calls fmt cfg e
      (.establish c fresh h a sa) r.endpoint

/-
  In every reception of the log, a packet with a payload is
  inserted exactly if it was sent later than every packet
  accepted before it; and what arrives in the order sent,
  without a loss, is inserted in full.
-/
structure DeliversNewest
    (fmt : PacketFormat P)
    (cfg : Config)
    (c : ConnPtr)
    (start : Reception P)
    (log : SentLog P) : Prop where
  newest : ∀ labels r i x r' y buff,
    Run (Guarded (FromLog fmt log) (Receives fmt cfg c))
      start labels r →
    log[i]? = some (y, buff) →
    fmt.SameWire (fmt.getWord .totalLen y).toInt y x →
    buff ≠ [] →
    Receives fmt cfg c r (.packet i x) r' →
    r'.inserted =
      if ∀ j ∈ r.accepted, j < i then
        r.inserted ++ [.ok buff]
      else
        r.inserted
  lossless : ∀ labels r n,
    Run (Guarded (FromLog fmt log) (Receives fmt cfg c))
      start labels r →
    r.arrived = List.range n →
    r.inserted = SentLog.payloads (log.take n)

/-
  No packet of the log has a number that wrapped around. The
  first such number is zero, which no packet is accepted
  with, so an empty packet may be last with it. Without any
  payload there is nothing to deliver.
-/
def NumbersLast
    (log : SentLog P) : Prop :=
  (∀ (i : Nat) y buff, log[i]? = some (y, buff) →
    1011 + i < 2 ^ 32 ∨ 1011 + i = 2 ^ 32 ∧ buff = []) ∨
  ∀ (i : Nat) y buff, log[i]? = some (y, buff) → buff = []

------------------------------------------------------------
-- One Arrival
------------------------------------------------------------

section Arrivals

variable
    {fmt : PacketFormat P}
    {cfg : Config}
    {c : ConnPtr}
    {r r' : Reception P}
    {i : Nat}
    {x : P}
    {number : BitVec 32}
    {buff : List Byte}
    {conn : Connection}

/-
  What the arrival of one packet does, by its number and the
  last one accepted.
-/
theorem Receives.dropOutOfOrder
    (hDrop : cfg.inorderStrategy = .dropOutOfOrder)
    (hConn : r.endpoint.conns c = some conn)
    (hCarries : fmt.Carries number buff x)
    (hReceives : Receives fmt cfg c r (.packet i x) r') :
    (conn.lastRecvSequence < number ∧
      (∃ conn', r'.endpoint.conns c = some conn' ∧
        conn'.lastRecvSequence = number) ∧
      r'.accepted = r.accepted ++ [i] ∧
      r'.inserted = r.inserted ++ payloadOf buff) ∨
    (¬ conn.lastRecvSequence < number ∧
      (∃ conn', r'.endpoint.conns c = some conn' ∧
        conn'.lastRecvSequence = conn.lastRecvSequence) ∧
      r'.accepted = r.accepted ∧
      r'.inserted = r.inserted) := by
  rcases hReceives.effect hConn with
    ⟨status, w, taken, hEffect, -, hAccepted, hInserted⟩
  have hPlace := hEffect.place
  rw [hDrop, NetBlocks.place, hCarries.number] at hPlace
  by_cases hNewer : conn.lastRecvSequence < number
  · have hView : conn.inorderView.lastRecvSequence <
        number := hNewer
    rw [if_pos hView] at hPlace
    cases hPlace
    have hOwn : fmt.Carries number buff ((r.endpoint.polled
        (receivedPacket fmt c x)).packets
          r.endpoint.nextPacket) := by
      rw [polled_packets_self]
      exact hCarries.received c
    refine Or.inl ⟨hNewer, ⟨_, hEffect.conn, rfl⟩,
      hAccepted, ?_⟩
    rw [hInserted [buff] (.cons ⟨number, hOwn⟩ .nil)]
    exact congrArg _ (List.append_nil _)
  · have hView : ¬ conn.inorderView.lastRecvSequence <
        number := hNewer
    rw [if_neg hView] at hPlace
    cases hPlace
    refine Or.inr ⟨hNewer, ⟨_, hEffect.conn, rfl⟩,
      hAccepted, ?_⟩
    rw [hInserted [] .nil]
    exact List.append_nil _

/- Reading keeps the last number accepted. -/
theorem Receives.read_kept
    {maxLen : Int}
    (hConn : r.endpoint.conns c = some conn)
    (hReceives : Receives fmt cfg c r (.read maxLen) r') :
    (∃ conn', r'.endpoint.conns c = some conn' ∧
      conn'.lastRecvSequence = conn.lastRecvSequence) ∧
    r'.accepted = r.accepted ∧ r'.arrived = r.arrived ∧
      r'.inserted = r.inserted := by
  cases hReceives with
  | read hRead =>
      rcases nbRead_frame hRead with
        ⟨conn₁, queue, hConn₁, rfl⟩
      cases hConn.symm.trans hConn₁
      exact ⟨⟨_, Endpoint.setConn_conns_self _ _ _, rfl⟩,
        rfl, rfl, rfl⟩

end Arrivals

------------------------------------------------------------
-- Numbers and Positions
------------------------------------------------------------

/- The first number that wrapped around is zero. -/
theorem numberAt_wrap
    {i : Nat}
    (hWrap : 1011 + i = 2 ^ 32) :
    numberAt i = 0 := by
  rw [numberAt, hWrap]
  rfl

/-
  The last number accepted, as the number of the latest of
  the accepted positions.
-/
def IsLatest
    (accepted : List Nat)
    (last : BitVec 32) : Prop :=
  (accepted = [] ∧ last = 0) ∨
    ∃ m ∈ accepted, (∀ j ∈ accepted, j ≤ m) ∧
      1011 + m < 2 ^ 32 ∧ last = numberAt m

section Latest

variable
    {accepted : List Nat}
    {last : BitVec 32}
    {i : Nat}

theorem IsLatest.lt_iff
    (hLatest : IsLatest accepted last)
    (hWrap : 1011 + i < 2 ^ 32) :
    last < numberAt i ↔ ∀ j ∈ accepted, j < i := by
  rw [BitVec.lt_def, numberAt_toNat hWrap]
  rcases hLatest with ⟨rfl, rfl⟩ | ⟨m, hm, hMax, hLast, rfl⟩
  · constructor
    · intro _ j hj
      cases hj
    · intro _
      have hZero : (0 : BitVec 32).toNat = 0 := rfl
      omega
  · rw [numberAt_toNat hLast]
    constructor
    · intro hLt j hj
      have hLe := hMax j hj
      omega
    · intro hAll
      have hLt := hAll m hm
      omega

/- A newer packet becomes the latest. -/
theorem IsLatest.snoc
    (hLatest : IsLatest accepted last)
    (hWrap : 1011 + i < 2 ^ 32)
    (hNewer : last < numberAt i) :
    IsLatest (accepted ++ [i]) (numberAt i) := by
  have hAll := (hLatest.lt_iff hWrap).mp hNewer
  refine Or.inr ⟨i, by simp, ?_, hWrap, rfl⟩
  intro j hj
  rcases List.mem_append.mp hj with hOld | hNew
  · exact Nat.le_of_lt (hAll j hOld)
  · rw [List.mem_singleton.mp hNew]

end Latest

------------------------------------------------------------
-- Receptions Without a Wrap
------------------------------------------------------------

/-
  What holds while packets of the log arrive: the last number
  is that of the latest packet accepted, and packets that
  arrived in the order sent were inserted.
-/
structure KeepsNewest
    (c : ConnPtr)
    (log : SentLog P)
    (r : Reception P) : Prop where
  latest : ∃ conn, r.endpoint.conns c = some conn ∧
    IsLatest r.accepted conn.lastRecvSequence
  arrived : ∀ j ∈ r.accepted, j ∈ r.arrived
  inserted : ∀ n, r.arrived = List.range n →
    r.inserted = SentLog.payloads (log.take n)

section Newest

variable
    {fmt : PacketFormat P}
    {cfg : Config}
    {c : ConnPtr}
    {start r r' : Reception P}
    {log : SentLog P}
    {i : Nat}
    {x y : P}
    {buff : List Byte}

/- One packet more arrived in the order sent. -/
theorem arrived_range
    {arrived : List Nat}
    {n : Nat}
    (hRange : arrived ++ [i] = List.range n) :
    n = i + 1 ∧ arrived = List.range i := by
  cases n with
  | zero => simp at hRange
  | succ n =>
      rw [List.range_succ] at hRange
      rcases List.append_inj' hRange rfl with ⟨hArrived, hi⟩
      cases hi
      exact ⟨rfl, hArrived⟩

theorem payloads_take_succ
    (hAt : log[i]? = some (y, buff)) :
    SentLog.payloads (log.take (i + 1)) =
      SentLog.payloads (log.take i) ++ payloadOf buff := by
  rw [List.take_add_one, hAt, Option.toList_some,
    SentLog.payloads_snoc]

/- A fresh connection accepted nothing. -/
theorem FreshReception.latest
    (hFresh : FreshReception fmt cfg c start) :
    ∃ conn, start.endpoint.conns c = some conn ∧
      conn.inputQueue = [] ∧ conn.lastRecvSequence = 0 := by
  rcases hFresh with ⟨-, -, -, e, fresh, h, a, sa, hCall⟩
  cases hCall with
  | establish _ _ hEstablish =>
      refine ⟨_, by rw [nbEstablish_conns hEstablish,
        Function.update_self], ?_⟩
      have hView := openedConn_inorderView cfg fresh
        (e.hostLocalId h) h a sa e.nextPacket
      exact ⟨congrArg InorderView.inputQueue hView,
        congrArg InorderView.lastRecvSequence hView⟩

theorem keepsNewest_fresh
    (hFresh : FreshReception fmt cfg c start) :
    KeepsNewest c log start := by
  rcases hFresh.latest with ⟨conn, hConn, -, hLast⟩
  rcases hFresh with ⟨hInserted, hArrived, hAccepted, -⟩
  refine ⟨⟨conn, hConn, Or.inl ⟨hAccepted, hLast⟩⟩, ?_, ?_⟩
  · rw [hAccepted]
    intro j hj
    cases hj
  · intro n hRange
    rw [hArrived] at hRange
    have hZero : n = 0 := by
      simpa using congrArg List.length hRange.symm
    rw [hInserted, hZero]
    rfl

/- What a packet with a payload does to what was inserted. -/
theorem KeepsNewest.newest
    (hDrop : cfg.inorderStrategy = .dropOutOfOrder)
    (hKeeps : KeepsNewest c log r)
    (hCarries : fmt.Carries (numberAt i) buff x)
    (hWrap : 1011 + i < 2 ^ 32)
    (hNonempty : buff ≠ [])
    (hReceives : Receives fmt cfg c r (.packet i x) r') :
    r'.inserted =
      if ∀ j ∈ r.accepted, j < i then
        r.inserted ++ [.ok buff]
      else
        r.inserted := by
  rcases hKeeps.latest with ⟨conn, hConn, hLatest⟩
  have hIff := hLatest.lt_iff hWrap
  rcases hReceives.dropOutOfOrder hDrop hConn hCarries with
    ⟨hNewer, -, -, hInserted⟩ | ⟨hOld, -, -, hInserted⟩
  · rw [if_pos (hIff.mp hNewer), hInserted, payloadOf,
      if_neg hNonempty]
  · rw [if_neg (fun hAll => hOld (hIff.mpr hAll)), hInserted]

/- Arrivals keep the invariant while no number wrapped. -/
theorem KeepsNewest.step
    {label : ReceptionLabel P}
    (hDrop : cfg.inorderStrategy = .dropOutOfOrder)
    (hCarries : ∀ (i : Nat) y buff, log[i]? = some (y, buff) →
      fmt.Carries (numberAt i) buff y)
    (hNumbers : ∀ (i : Nat) y buff,
      log[i]? = some (y, buff) →
        1011 + i < 2 ^ 32 ∨ 1011 + i = 2 ^ 32 ∧ buff = [])
    (hKeeps : KeepsNewest c log r)
    (hFrom : FromLog fmt log r label)
    (hReceives : Receives fmt cfg c r label r') :
    KeepsNewest c log r' := by
  rcases hKeeps.latest with ⟨conn, hConn, hLatest⟩
  cases label with
  | read maxLen =>
      rcases hReceives.read_kept hConn with
        ⟨⟨conn', hConn', hLast⟩, hAccepted, hArrived,
          hInserted⟩
      refine ⟨⟨conn', hConn', ?_⟩, ?_, ?_⟩
      · rw [hAccepted, hLast]
        exact hLatest
      · rw [hAccepted, hArrived]
        exact hKeeps.arrived
      · rw [hArrived, hInserted]
        exact hKeeps.inserted
  | packet i x =>
      rcases hFrom with ⟨y, buff, hAt, hSame⟩
      have hX := (hCarries i y buff hAt).of_sameWire hSame
      have hArrived : r'.arrived = r.arrived ++ [i] := by
        cases hReceives
        rfl
      -- in the order sent, everything accepted is older
      have hOlder : ∀ n, r'.arrived = List.range n →
          n = i + 1 ∧ r.arrived = List.range i ∧
            ∀ j ∈ r.accepted, j < i := by
        intro n hRange
        rw [hArrived] at hRange
        rcases arrived_range hRange with ⟨hLength, hBefore⟩
        refine ⟨hLength, hBefore, ?_⟩
        intro j hj
        have hMem := hKeeps.arrived j hj
        rw [hBefore] at hMem
        exact List.mem_range.mp hMem
      rcases hReceives.dropOutOfOrder hDrop hConn hX with
        ⟨hNewer, ⟨conn', hConn', hLast⟩, hAccepted,
          hInserted⟩ | ⟨hOld, ⟨conn', hConn', hLast⟩,
            hAccepted, hInserted⟩
      · have hWrap : 1011 + i < 2 ^ 32 := by
          rcases hNumbers i y buff hAt with hLt | ⟨hEq, -⟩
          · exact hLt
          · rw [numberAt_wrap hEq] at hNewer
            exact absurd hNewer (BitVec.not_lt_zero)
        refine ⟨⟨conn', hConn', ?_⟩, ?_, ?_⟩
        · rw [hAccepted, hLast]
          exact hLatest.snoc hWrap hNewer
        · rw [hAccepted, hArrived]
          intro j hj
          rcases List.mem_append.mp hj with hj | hj
          · exact List.mem_append_left _ (hKeeps.arrived j hj)
          · exact List.mem_append_right _ hj
        · intro n hRange
          rcases hOlder n hRange with ⟨rfl, hRange', -⟩
          rw [payloads_take_succ hAt, hInserted,
            hKeeps.inserted i hRange']
      · refine ⟨⟨conn', hConn', ?_⟩, ?_, ?_⟩
        · rw [hAccepted, hLast]
          exact hLatest
        · rw [hAccepted, hArrived]
          intro j hj
          exact List.mem_append_left _ (hKeeps.arrived j hj)
        · intro n hRange
          rcases hOlder n hRange with ⟨rfl, hRange', hAll⟩
          have hEmpty : buff = [] := by
            rcases hNumbers i y buff hAt with hLt | ⟨-, hNil⟩
            · exact absurd ((hLatest.lt_iff hLt).mpr hAll)
                hOld
            · exact hNil
          rw [payloads_take_succ hAt, hInserted,
            hKeeps.inserted i hRange', payloadOf,
            if_pos hEmpty, List.append_nil]

/- Without a payload nothing is ever inserted. -/
theorem inserted_step
    {label : ReceptionLabel P}
    (hDrop : cfg.inorderStrategy = .dropOutOfOrder)
    (hCarries : ∀ (i : Nat) y buff, log[i]? = some (y, buff) →
      fmt.Carries (numberAt i) buff y)
    (hEmpty : ∀ (i : Nat) y buff, log[i]? = some (y, buff) →
      buff = [])
    (hBefore : (∃ conn, r.endpoint.conns c = some conn) ∧
      r.inserted = [])
    (hFrom : FromLog fmt log r label)
    (hReceives : Receives fmt cfg c r label r') :
    (∃ conn, r'.endpoint.conns c = some conn) ∧
      r'.inserted = [] := by
  rcases hBefore with ⟨⟨conn, hConn⟩, hNone⟩
  cases label with
  | read maxLen =>
      rcases hReceives.read_kept hConn with
        ⟨⟨conn', hConn', -⟩, -, -, hInserted⟩
      exact ⟨⟨conn', hConn'⟩, hInserted.trans hNone⟩
  | packet i x =>
      rcases hFrom with ⟨y, buff, hAt, hSame⟩
      have hX := (hCarries i y buff hAt).of_sameWire hSame
      rcases hReceives.dropOutOfOrder hDrop hConn hX with
        ⟨-, ⟨conn', hConn', -⟩, -, hInserted⟩ |
          ⟨-, ⟨conn', hConn', -⟩, -, hInserted⟩
      · refine ⟨⟨conn', hConn'⟩, ?_⟩
        rw [hInserted, hNone, payloadOf,
          if_pos (hEmpty i y buff hAt)]
        rfl
      · exact ⟨⟨conn', hConn'⟩, hInserted.trans hNone⟩

theorem payloads_of_empty
    {log : SentLog P}
    (hEmpty : ∀ sent ∈ log, sent.2 = []) :
    log.payloads = [] := by
  rw [SentLog.payloads, List.flatMap_eq_nil_iff]
  intro sent hSent
  rw [payloadOf, if_pos (hEmpty sent hSent)]

/- Numbers that did not wrap are compared like positions. -/
theorem deliversNewest_of_numbersLast
    (hDrop : cfg.inorderStrategy = .dropOutOfOrder)
    (hCarries : ∀ (i : Nat) y buff, log[i]? = some (y, buff) →
      fmt.Carries (numberAt i) buff y)
    (hFresh : FreshReception fmt cfg c start)
    (hNumbers : NumbersLast log) :
    DeliversNewest fmt cfg c start log := by
  rcases hNumbers with hNumbers | hEmpty
  · have hKeeps : ∀ labels r,
        Run (Guarded (FromLog fmt log) (Receives fmt cfg c))
          start labels r → KeepsNewest c log r := by
      intro labels r hRun
      exact hRun.invariant
        (fun _ _ _ hKeeps hStep => hKeeps.step hDrop hCarries
          hNumbers hStep.1 hStep.2)
        (keepsNewest_fresh hFresh)
    refine ⟨?_, ?_⟩
    · intro labels r i x r' y buff hRun hAt hSame hNonempty
        hReceives
      have hWrap : 1011 + i < 2 ^ 32 := by
        rcases hNumbers i y buff hAt with hLt | ⟨-, hNil⟩
        · exact hLt
        · exact absurd hNil hNonempty
      exact (hKeeps labels r hRun).newest hDrop
        ((hCarries i y buff hAt).of_sameWire hSame) hWrap
        hNonempty hReceives
    · intro labels r n hRun hRange
      exact (hKeeps labels r hRun).inserted n hRange
  · refine ⟨?_, ?_⟩
    · intro labels r i x r' y buff _ hAt _ hNonempty
      exact absurd (hEmpty i y buff hAt) hNonempty
    · intro labels r n hRun _
      rcases hFresh.latest with ⟨conn, hConn, -⟩
      have hStep : ∀ r₁ label r₂,
          (∃ conn, r₁.endpoint.conns c = some conn) ∧
            r₁.inserted = [] →
          Guarded (FromLog fmt log) (Receives fmt cfg c) r₁
            label r₂ →
          (∃ conn, r₂.endpoint.conns c = some conn) ∧
            r₂.inserted = [] :=
        fun _ _ _ hBefore hStep => inserted_step hDrop
          hCarries hEmpty hBefore hStep.1 hStep.2
      have hNone := (hRun.invariant hStep
        ⟨⟨conn, hConn⟩, hFresh.1⟩).2
      rw [hNone, payloads_of_empty]
      intro sent hSent
      rcases List.getElem?_of_mem (List.mem_of_mem_take hSent)
        with ⟨i, hi⟩
      exact hEmpty i sent.1 sent.2 hi

/- A packet sent arrives as it is. -/
theorem sameWire_refl
    (len : Int)
    (y : P) :
    fmt.SameWire len y y :=
  ⟨fun _ _ => rfl, fun _ _ => rfl⟩

/-
  Two packets of the log arrive at a fresh connection, one
  after the other.
-/
theorem arrivals_of_two
    {j : Nat}
    {z : P}
    {bytes : List Byte}
    (hDrop : cfg.inorderStrategy = .dropOutOfOrder)
    (hFresh : FreshReception fmt cfg c start)
    (hJ : log[j]? = some (z, bytes))
    (hZ : fmt.Carries (numberAt j) bytes z)
    (hPositive : numberAt j ≠ 0)
    (i : Nat)
    (y : P) :
    ∃ r r', Run (Guarded (FromLog fmt log)
        (Receives fmt cfg c)) start [.packet j z] r ∧
      Receives fmt cfg c r (.packet i y) r' ∧
      r.accepted = [j] ∧
      ∃ conn, r.endpoint.conns c = some conn ∧
        conn.lastRecvSequence = numberAt j := by
  rcases hFresh.latest with ⟨conn, hConn, hQueue, hLast⟩
  rcases receives_of_room hConn (by rw [hQueue]; decide) j z
    with ⟨r, conn₁, hFirst, hConn₁, hLength⟩
  rw [hQueue] at hLength
  have hRoom : conn₁.inputQueue.length + 34 ≤
      maxDataQueueElems := by
    simp only [List.length_nil, maxDataQueueElems] at *
    omega
  rcases receives_of_room hConn₁ hRoom i y with
    ⟨r', conn₂, hSecond, -, -⟩
  have hNewer : conn.lastRecvSequence < numberAt j := by
    rw [hLast, BitVec.lt_def]
    exact Nat.pos_of_ne_zero (fun hZero =>
      hPositive (BitVec.eq_of_toNat_eq hZero))
  rcases hFirst.dropOutOfOrder hDrop hConn hZ with
    ⟨-, hAfter, hAccepted, -⟩ | ⟨hOld, -⟩
  · refine ⟨r, r', .cons ⟨⟨z, bytes, hJ, sameWire_refl _ z⟩,
      hFirst⟩ (.nil r), hSecond, ?_, hAfter⟩
    rw [hAccepted, hFresh.2.2.1]
    rfl
  · exact absurd hNewer hOld

/-
  A packet with a wrapped number is too late after the last
  number, or makes an older packet look newer.
-/
theorem numbersLast_of_deliversNewest
    (hDrop : cfg.inorderStrategy = .dropOutOfOrder)
    (hCarries : ∀ (i : Nat) y buff, log[i]? = some (y, buff) →
      fmt.Carries (numberAt i) buff y)
    (hFresh : FreshReception fmt cfg c start)
    (hDelivers : DeliversNewest fmt cfg c start log) :
    NumbersLast log := by
  by_contra hNot
  rw [NumbersLast, not_or] at hNot
  rcases hNot with ⟨hWrapped, hPayload⟩
  push Not at hWrapped hPayload
  rcases hWrapped with ⟨w, y, buff, hW, hGe, hWrap⟩
  by_cases hLate : ∃ (k : Nat) (z : P) (bytes : List Byte),
      log[k]? = some (z, bytes) ∧ bytes ≠ [] ∧
        2 ^ 32 ≤ 1011 + k
  · -- the packet before the wrap has the largest number
    rcases hLate with ⟨k, z, bytes, hK, hNonempty, hLate⟩
    have hTop : 2 ^ 32 - 1012 < log.length := by
      have hLt := (List.getElem?_eq_some_iff.mp hK).1
      omega
    have hTopAt : log[2 ^ 32 - 1012]? =
        some (log[2 ^ 32 - 1012].1, log[2 ^ 32 - 1012].2) :=
      List.getElem?_eq_getElem hTop
    have hNumber : numberAt (2 ^ 32 - 1012) =
        BitVec.ofNat 32 (2 ^ 32 - 1) := rfl
    rcases arrivals_of_two hDrop hFresh hTopAt
        (hCarries _ _ _ hTopAt) (by rw [hNumber]; decide) k z
      with ⟨r, r', hRun, hReceives, hAccepted, conn, hConn,
        hLast⟩
    have hInserted := hDelivers.newest _ r k z r' z bytes hRun
      hK (sameWire_refl _ z) hNonempty hReceives
    rw [hAccepted, if_pos (by simp; omega)] at hInserted
    rcases hReceives.dropOutOfOrder hDrop hConn
        (hCarries k z bytes hK) with
      ⟨hNewer, -⟩ | ⟨-, -, -, hSame⟩
    · rw [hLast, hNumber, BitVec.lt_def] at hNewer
      have hMax := (numberAt k).isLt
      simp only [BitVec.toNat_ofNat] at hNewer
      omega
    · rw [hSame] at hInserted
      simp at hInserted
  · -- the second number after the wrap is one
    rcases hPayload with ⟨k, z, bytes, hK, hNonempty⟩
    have hEarly : 1011 + k < 2 ^ 32 := by
      by_contra hGe
      exact hLate ⟨k, z, bytes, hK, hNonempty, by omega⟩
    have hNe : 1011 + w ≠ 2 ^ 32 := by
      intro hEq
      exact hLate ⟨w, y, buff, hW, hWrap hEq, by omega⟩
    have hNext : 2 ^ 32 - 1010 < log.length := by
      have hLt := (List.getElem?_eq_some_iff.mp hW).1
      omega
    have hNextAt : log[2 ^ 32 - 1010]? =
        some (log[2 ^ 32 - 1010].1, log[2 ^ 32 - 1010].2) :=
      List.getElem?_eq_getElem hNext
    have hNumber : numberAt (2 ^ 32 - 1010) = 1 := rfl
    rcases arrivals_of_two hDrop hFresh hNextAt
        (hCarries _ _ _ hNextAt) (by rw [hNumber]; decide) k z
      with ⟨r, r', hRun, hReceives, hAccepted, conn, hConn,
        hLast⟩
    have hInserted := hDelivers.newest _ r k z r' z bytes hRun
      hK (sameWire_refl _ z) hNonempty hReceives
    rw [hAccepted, if_neg (by simp; omega)] at hInserted
    rcases hReceives.dropOutOfOrder hDrop hConn
        (hCarries k z bytes hK) with
      ⟨-, -, -, hMore⟩ | ⟨hOld, -⟩
    · rw [hInserted, payloadOf, if_neg hNonempty] at hMore
      simp at hMore
    · apply hOld
      rw [hLast, hNumber, BitVec.lt_def,
        numberAt_toNat (by omega)]
      have hOne : (1 : BitVec 32).toNat = 1 := rfl
      omega

/-
  The packets with a payload that are newer than everything
  accepted are exactly the ones inserted, if and only if the
  numbers of the connection last.
-/
theorem deliversNewest_iff
    {d : ConnPtr}
    {e : Endpoint P}
    (hDrop : cfg.inorderStrategy = .dropOutOfOrder)
    (hSent : SentOn fmt cfg d e log)
    (hFresh : FreshReception fmt cfg c start) :
    DeliversNewest fmt cfg c start log ↔ NumbersLast log := by
  have hCarries := (hSent.numbered
    (Or.inl (by simp [hDrop]))).carries
  exact ⟨numbersLast_of_deliversNewest hDrop hCarries hFresh,
    deliversNewest_of_numbersLast hDrop hCarries hFresh⟩

end Newest

------------------------------------------------------------
-- More Packets than Numbers
------------------------------------------------------------

/- The small stack with numbers, and late packets dropped. -/
def dropConfig : Config :=
  { plainConfig .srcDstIdentifier with
    inorderStrategy := .dropOutOfOrder }

/- A connection of app 7 to app 8 at host 9. -/
def establishDropping
    (e : Endpoint PacketBuffer) :
    Except Fault (Endpoint PacketBuffer) :=
  nbEstablish netPacketFormat dropConfig 1 blankConnection
    9 8 7 e

/-
  `n` packets of one byte were sent on the connection, and
  the buffers still to be used are blank.
-/
structure SentBytes
    (n : Nat)
    (e : Endpoint PacketBuffer)
    (log : SentLog PacketBuffer) : Prop where
  sent : SentOn netPacketFormat dropConfig 1 e log
  length : log.length = n
  bytes : ∀ (i : Nat) y buff, log[i]? = some (y, buff) →
    buff = [1]
  blank : ∀ p, e.nextPacket ≤ p → e.packets p = blankBuffer

theorem sentBytes_zero
    {e : Endpoint PacketBuffer}
    (hEstablish : establishDropping bareStack = .ok e) :
    SentBytes 0 e [] := by
  have hReached : Reached netPacketFormat dropConfig
      bareStack :=
    ⟨blankNetState, bareEndpoint, [], fun _ => rfl, .nil _⟩
  have hHosts := hReached.hostsKept
  have hCall : Calls netPacketFormat dropConfig bareStack
      (.establish 1 blankConnection 9 8 7) e :=
    .establish (by decide) rfl hEstablish
  have hSent := SentOn.opens hReached hCall
  rcases nbEstablish_handedOut hHosts hEstablish with
    ⟨-, hOut⟩ | ⟨⟨-, hOn⟩, -⟩
  · rw [hOut] at hSent
    refine ⟨hSent, rfl, ?_, ?_⟩
    · intro i y buff hAt
      simp at hAt
    · intro p _
      rcases nbEstablish_ok_iff.mp hEstablish with
        ⟨netState, conn', e₁, -, hSignal, rfl⟩
      cases hSignal with
      | wildcard => rfl
      | unsignaled => rfl
      | signals _ hOn => cases hOn
  · cases hOn

/- One more packet can always be sent. -/
theorem SentBytes.succ
    {n : Nat}
    {e : Endpoint PacketBuffer}
    {log : SentLog PacketBuffer}
    (hBytes : SentBytes n e log) :
    ∃ e' log', SentBytes (n + 1) e' log' := by
  rcases (hBytes.sent.numbered (Or.inl (by decide))).last with
    ⟨conn, hConn, -⟩
  have hWrite : ∃ y, netPacketFormat.writePayload [1]
      (lengthPacket netPacketFormat 1
        (e.packets e.nextPacket)) = .ok y := by
    rw [hBytes.blank _ (Nat.le_refl _)]
    have hRoom : payloadStart + [(1 : Byte)].length ≤
        (lengthPacket netPacketFormat 1 blankBuffer).size := by
      decide +kernel
    change ∃ y, (lengthPacket netPacketFormat 1 blankBuffer
      ).writePayload [1] = .ok y
    rw [PacketBuffer.writePayload, if_pos hRoom]
    exact ⟨_, rfl⟩
  rcases hWrite with ⟨y, hY⟩
  have hComplete : ∀ z, ∃ x, completePacket netPacketFormat
      dropConfig conn e.myLocalHostId e.myHostId z = .ok x :=
    fun z => ⟨_, rfl⟩
  rcases hComplete (armPacket netPacketFormat dropConfig none
      (sequencePacket netPacketFormat dropConfig conn y)) with
    ⟨x, hX⟩
  let e' := e.requested.sent netPacketFormat dropConfig 1 conn
    e.nextPacket e.timers x
  have hSend : nbSend netPacketFormat dropConfig 1 [1] e =
      .ok (1, e') :=
    nbSend_ok_iff.mpr ⟨conn, y, x, none, e.timers, hConn,
      hY, ⟨rfl, hX⟩, rfl, rfl⟩
  have hSent := hBytes.sent.sends (.send hSend)
  rw [handedOut_sent] at hSent
  refine ⟨e', _, hSent, ?_, ?_, ?_⟩
  · simp [hBytes.length]
  · intro i z buff hAt
    rw [List.getElem?_append] at hAt
    split at hAt
    · exact hBytes.bytes i z buff hAt
    · have hMem := List.mem_of_getElem? hAt
      simp only [List.map_cons, List.map_nil,
        List.mem_singleton, Prod.mk.injEq] at hMem
      exact hMem.2
  · intro p hp
    have hNe : p ≠ e.nextPacket :=
      Nat.ne_of_gt (Nat.lt_of_succ_le hp)
    rw [show e'.packets p = e.packets p from
      Endpoint.setPacket_packets_of_ne _ _ hNe]
    exact hBytes.blank p (Nat.le_of_succ_le hp)

/- Any number of packets can be sent. -/
theorem SentBytes.exists
    {e : Endpoint PacketBuffer}
    (hEstablish : establishDropping bareStack = .ok e)
    (n : Nat) :
    ∃ e' log, SentBytes n e' log := by
  induction n with
  | zero => exact ⟨e, [], sentBytes_zero hEstablish⟩
  | succ n ih =>
      rcases ih with ⟨e₁, log, hBytes⟩
      exact hBytes.succ

/- A reception by a connection that was just established. -/
def receptionOf
    (e : Endpoint PacketBuffer) : Reception PacketBuffer where
  endpoint := e
  inserted := []
  arrived := []
  accepted := []

theorem freshReception_of_establish
    {e : Endpoint PacketBuffer}
    (hEstablish : establishDropping bareStack = .ok e) :
    FreshReception netPacketFormat dropConfig 1
      (receptionOf e) :=
  ⟨rfl, rfl, rfl, bareStack, blankConnection, 9, 8, 7,
    .establish (by decide) rfl hEstablish⟩

/-
  After 2^32 - 1011 packets the numbers start from zero, and
  the packets that follow are dropped.
-/
theorem not_forall_deliversNewest :
    ¬ ∀ (fmt : PacketFormat PacketBuffer) cfg c d e log start,
      cfg.inorderStrategy = .dropOutOfOrder →
      SentOn fmt cfg d e log →
      FreshReception fmt cfg c start →
      DeliversNewest fmt cfg c start log := by
  intro hAll
  have hTable : (do
      let e ← establishDropping bareStack
      return (e.conns 1).isSome) = .ok true := by
    decide +kernel
  rcases bind_eq_ok_iff.mp hTable with ⟨e, hEstablish, -⟩
  rcases SentBytes.exists hEstablish (2 ^ 32 - 1010) with
    ⟨e', log, hBytes⟩
  have hFresh := freshReception_of_establish hEstablish
  have hCarries := (hBytes.sent.numbered
    (Or.inl (by decide))).carries
  have hLength := hBytes.length
  have hAt : ∀ i (hi : i < log.length),
      log[i]? = some (log[i].1, log[i].2) :=
    fun i hi => List.getElem?_eq_getElem hi
  have hPayload : ∀ i (hi : i < log.length),
      log[i].2 ≠ [] := by
    intro i hi
    rw [hBytes.bytes i _ _ (hAt i hi)]
    exact List.cons_ne_nil _ _
  have hDelivers := hAll netPacketFormat dropConfig 1 1 e' log
    _ rfl hBytes.sent hFresh
  have hDrop : dropConfig.inorderStrategy =
      .dropOutOfOrder := rfl
  have hNumbers := numbersLast_of_deliversNewest hDrop
    hCarries hFresh hDelivers
  rcases hNumbers with hNumbers | hEmpty
  · have hWrapped : 2 ^ 32 - 1011 < log.length := by omega
    rcases hNumbers _ _ _ (hAt _ hWrapped) with
      hLt | ⟨-, hNil⟩
    · omega
    · exact hPayload _ hWrapped hNil
  · have hFirst : 0 < log.length := by omega
    exact hPayload _ hFirst (hEmpty _ _ _ (hAt _ hFirst))

/- Two packets were sent, and their numbers last. -/
theorem deliversNewest_iff_two :
    ∃ (e : Endpoint PacketBuffer)
        (log : SentLog PacketBuffer)
        (start : Reception PacketBuffer),
      log.length = 2 ∧
      SentOn netPacketFormat dropConfig 1 e log ∧
      FreshReception netPacketFormat dropConfig 1 start ∧
      (DeliversNewest netPacketFormat dropConfig 1 start log ↔
        NumbersLast log) := by
  have hTable : (do
      let e ← establishDropping bareStack
      return (e.conns 1).isSome) = .ok true := by
    decide +kernel
  rcases bind_eq_ok_iff.mp hTable with ⟨e, hEstablish, -⟩
  rcases SentBytes.exists hEstablish 2 with ⟨e', log, hBytes⟩
  have hFresh := freshReception_of_establish hEstablish
  exact ⟨e', log, receptionOf e, hBytes.length, hBytes.sent,
    hFresh, deliversNewest_iff rfl hBytes.sent hFresh⟩

end NetBlocks
