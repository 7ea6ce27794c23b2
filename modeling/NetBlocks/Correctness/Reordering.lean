import NetBlocks.Core.SentLog
import NetBlocks.Runtime.IpcTransport
import NetBlocks.Correctness.DropOutOfOrder

/-
  With `hold_forever`, the reordering the IPC transport
  simulates is undone: what arrives is inserted in the order
  it was sent.

  Main declarations:
    * `Ready` and `Shelved`
    * `Undone`
    * `reordering_undone`
-/

namespace NetBlocks

open Except TransitionSystem

variable {P : Type}

------------------------------------------------------------
-- Between Two Swaps
------------------------------------------------------------

/-
  The connection is between two blocks of the order written:
  it got the first `n` packets and waits for the next one. A
  packet that is still shelved is never looked at, since its
  number is below those to come.
-/
def Ready
    (c : ConnPtr)
    (n : Nat)
    (e : Endpoint P) : Prop :=
  ∃ conn, e.conns c = some conn ∧
    conn.lastRecvSequence =
      (if n = 0 then 0 else numberAt (n - 1)) ∧
    conn.maxOooSequence.toNat ≤ 1010 + n

/-
  The connection got the first `n` packets, and the one after
  the next, which is shelved at `p`.
-/
structure ShelvedAt
    (fmt : PacketFormat P)
    (c : ConnPtr)
    (n : Nat)
    (bytes : List Byte)
    (p : PacketPtr)
    (e : Endpoint P) : Prop where
  conn : ∃ conn, e.conns c = some conn ∧
    conn.lastRecvSequence = numberAt (n - 1) ∧
    conn.maxOooSequence = numberAt (n + 1) ∧
    conn.inorderBuffer (slot (numberAt (n + 1))) = some p
  old : p < e.nextPacket
  carries : fmt.Carries (numberAt (n + 1)) bytes (e.packets p)

section Blocks

variable
    {fmt : PacketFormat P}
    {cfg : Config}
    {c : ConnPtr}
    {r r' : Reception P}
    {i n : Nat}
    {x : P}
    {buff bytes : List Byte}
    {conn : Connection}

/- The packet that arrived carries what it was sent with. -/
theorem own_carries
    {number : BitVec 32}
    {e : Endpoint P}
    (hCarries : fmt.Carries number buff x) :
    fmt.Carries number buff
      ((e.polled (receivedPacket fmt c x)).packets
        e.nextPacket) := by
  rw [polled_packets_self]
  exact hCarries.received c

/-
  The next packet is delivered. Any packet counts as the next
  one on a fresh connection.
-/
theorem Ready.accepts
    {k : Nat}
    (hHold : cfg.inorderStrategy = .holdForever)
    (hReady : Ready c n r.endpoint)
    (hNext : n = 0 ∨ k = n)
    (hWrap : 1011 + (k + 1) < 2 ^ 32)
    (hCarries : fmt.Carries (numberAt k) buff x)
    (hReceives : Receives fmt cfg c r (.packet i x) r') :
    Ready c (k + 1) r'.endpoint ∧
      r'.arrived = r.arrived ++ [i] ∧
      r'.inserted = r.inserted ++ payloadOf buff := by
  rcases hReady with ⟨conn, hConn, hLast, hMax⟩
  rcases hReceives.effect hConn with
    ⟨status, w, taken, hEffect, hArrived, -, hInserted⟩
  have hPlace := hEffect.place
  have hExpected : conn.inorderView.lastRecvSequence = 0 ∨
      numberAt k = conn.inorderView.lastRecvSequence + 1 := by
    change conn.lastRecvSequence = 0 ∨
      numberAt k = conn.lastRecvSequence + 1
    rw [hLast]
    by_cases hZero : n = 0
    · exact Or.inl (if_pos hZero)
    · right
      rw [if_neg hZero, numberAt_succ]
      congr 1
      omega
  have hDone : ¬ numberAt k + 1 ≤
      conn.inorderView.maxOooSequence := by
    rw [numberAt_succ, BitVec.le_def, numberAt_toNat hWrap]
    change ¬ _ ≤ conn.maxOooSequence.toNat
    omega
  rw [hHold, hCarries.number,
    place_expected hExpected hDone] at hPlace
  cases hPlace
  refine ⟨⟨_, hEffect.conn, ?_, ?_⟩, hArrived, ?_⟩
  · rw [if_neg (Nat.succ_ne_zero k)]
    rfl
  · change conn.maxOooSequence.toNat ≤ _
    omega
  · rw [hInserted [buff]
      (.cons ⟨_, own_carries hCarries⟩ .nil)]
    exact congrArg _ (List.append_nil _)

/- What is shelved of an arrival that is not expected. -/
theorem shelves
    (hHold : cfg.inorderStrategy = .holdForever)
    (hConn : r.endpoint.conns c = some conn)
    (hStarted : conn.lastRecvSequence ≠ 0)
    {number : BitVec 32}
    (hOther : number ≠ conn.lastRecvSequence + 1)
    (hCarries : fmt.Carries number buff x)
    (hReceives : Receives fmt cfg c r (.packet i x) r') :
    (∃ conn', r'.endpoint.conns c = some conn' ∧
      conn'.lastRecvSequence = conn.lastRecvSequence ∧
      conn'.maxOooSequence =
        (if conn.maxOooSequence < number then
          number
        else
          conn.maxOooSequence) ∧
      conn'.inorderBuffer (slot number) =
        some r.endpoint.nextPacket) ∧
    r.endpoint.nextPacket < r'.endpoint.nextPacket ∧
    fmt.Carries number buff
      (r'.endpoint.packets r.endpoint.nextPacket) ∧
    r'.arrived = r.arrived ++ [i] ∧
    r'.inserted = r.inserted := by
  rcases hReceives.effect hConn with
    ⟨status, w, taken, hEffect, hArrived, -, hInserted⟩
  have hPlace := hEffect.place
  have hOther' : number ≠
      conn.inorderView.lastRecvSequence + 1 := hOther
  have hStarted' : conn.inorderView.lastRecvSequence ≠ 0 :=
    hStarted
  rw [hHold, hCarries.number,
    place_other hStarted' hOther'] at hPlace
  cases hPlace
  refine ⟨⟨_, hEffect.conn, rfl, rfl,
    Function.update_self _ _ _⟩, ?_,
    hEffect.carries (own_carries hCarries), hArrived, ?_⟩
  · rw [hEffect.next]
    exact Nat.lt_succ_self _
  · rw [hInserted [] .nil]
    exact List.append_nil _

/- A packet from before stays on the shelf for good. -/
theorem Ready.shelvesOld
    {k : Nat}
    (hHold : cfg.inorderStrategy = .holdForever)
    (hReady : Ready c n r.endpoint)
    (hOld : k < n)
    (hWrap : 1011 + n < 2 ^ 32)
    (hCarries : fmt.Carries (numberAt k) buff x)
    (hReceives : Receives fmt cfg c r (.packet i x) r') :
    Ready c n r'.endpoint ∧
      r'.arrived = r.arrived ++ [i] ∧
      r'.inserted = r.inserted := by
  rcases hReady with ⟨conn, hConn, hLast, hMax⟩
  have hPositive : n ≠ 0 := by omega
  rw [if_neg hPositive] at hLast
  have hStarted : conn.lastRecvSequence ≠ 0 := by
    rw [hLast]
    intro hZero
    have hNat := congrArg BitVec.toNat hZero
    rw [numberAt_toNat (by omega)] at hNat
    have hNone : (0 : BitVec 32).toNat = 0 := rfl
    omega
  have hOther : numberAt k ≠ conn.lastRecvSequence + 1 := by
    rw [hLast, numberAt_succ]
    intro hEq
    have hNat := congrArg BitVec.toNat hEq
    rw [numberAt_toNat (by omega),
      numberAt_toNat (by omega)] at hNat
    omega
  rcases shelves hHold hConn hStarted hOther hCarries
      hReceives with
    ⟨⟨conn', hConn', hLast', hMax', -⟩, -, -, hArrived,
      hInserted⟩
  refine ⟨⟨conn', hConn', ?_, ?_⟩, hArrived, hInserted⟩
  · rw [if_neg hPositive, hLast', hLast]
  · rw [hMax']
    split
    · rw [numberAt_toNat (by omega)]
      omega
    · exact hMax

/- The packet after the next one is shelved. -/
theorem Ready.shelvesNext
    (hHold : cfg.inorderStrategy = .holdForever)
    (hReady : Ready c n r.endpoint)
    (hPositive : n ≠ 0)
    (hWrap : 1011 + (n + 1) < 2 ^ 32)
    (hCarries : fmt.Carries (numberAt (n + 1)) buff x)
    (hReceives : Receives fmt cfg c r (.packet i x) r') :
    (∃ p, ShelvedAt fmt c n buff p r'.endpoint) ∧
      r'.arrived = r.arrived ++ [i] ∧
      r'.inserted = r.inserted := by
  rcases hReady with ⟨conn, hConn, hLast, hMax⟩
  rw [if_neg hPositive] at hLast
  have hStarted : conn.lastRecvSequence ≠ 0 := by
    rw [hLast]
    intro hZero
    have hNat := congrArg BitVec.toNat hZero
    rw [numberAt_toNat (by omega)] at hNat
    have hNone : (0 : BitVec 32).toNat = 0 := rfl
    omega
  have hOther : numberAt (n + 1) ≠
      conn.lastRecvSequence + 1 := by
    rw [hLast, numberAt_succ]
    intro hEq
    have hNat := congrArg BitVec.toNat hEq
    rw [numberAt_toNat hWrap,
      numberAt_toNat (by omega)] at hNat
    omega
  have hLarger : conn.maxOooSequence < numberAt (n + 1) := by
    rw [BitVec.lt_def, numberAt_toNat hWrap]
    omega
  rcases shelves hHold hConn hStarted hOther hCarries
      hReceives with
    ⟨⟨conn', hConn', hLast', hMax', hSlot⟩, hOld, hCarries',
      hArrived, hInserted⟩
  refine ⟨⟨r.endpoint.nextPacket, ⟨conn', hConn', ?_, ?_,
    hSlot⟩, hOld, hCarries'⟩, hArrived, hInserted⟩
  · rw [hLast', hLast]
  · rw [hMax', if_pos hLarger]

/- The missing packet is delivered with the one shelved. -/
theorem ShelvedAt.drains
    {p : PacketPtr}
    (hHold : cfg.inorderStrategy = .holdForever)
    (hShelved : ShelvedAt fmt c n bytes p r.endpoint)
    (hPositive : n ≠ 0)
    (hWrap : 1011 + (n + 2) < 2 ^ 32)
    (hCarries : fmt.Carries (numberAt n) buff x)
    (hReceives : Receives fmt cfg c r (.packet i x) r') :
    Ready c (n + 2) r'.endpoint ∧
      r'.arrived = r.arrived ++ [i] ∧
      r'.inserted =
        r.inserted ++ (payloadOf buff ++ payloadOf bytes) := by
  rcases hShelved.conn with ⟨conn, hConn, hLast, hMax, hSlot⟩
  rcases hReceives.effect hConn with
    ⟨status, w, taken, hEffect, hArrived, -, hInserted⟩
  have hPlace := hEffect.place
  have hExpected : conn.inorderView.lastRecvSequence = 0 ∨
      numberAt n = conn.inorderView.lastRecvSequence + 1 := by
    right
    change numberAt n = conn.lastRecvSequence + 1
    rw [hLast, numberAt_succ]
    congr 1
    omega
  have hMore : numberAt n + 1 ≤
      conn.inorderView.maxOooSequence := by
    change numberAt n + 1 ≤ conn.maxOooSequence
    rw [hMax, numberAt_succ]
    exact BitVec.le_refl _
  have hHeld : conn.inorderView.inorderBuffer
      (slot (numberAt n + 1)) = some p := by
    rw [numberAt_succ]
    exact hSlot
  have hDone : ¬ numberAt n + 1 + 1 ≤
      conn.inorderView.maxOooSequence := by
    change ¬ numberAt n + 1 + 1 ≤ conn.maxOooSequence
    rw [hMax, numberAt_succ, numberAt_succ, BitVec.le_def,
      numberAt_toNat (by omega), numberAt_toNat (by omega)]
    omega
  rw [hHold, hCarries.number,
    place_expected_one hExpected hMore hHeld hDone] at hPlace
  cases hPlace
  have hShelf : fmt.Carries (numberAt (n + 1)) bytes
      ((r.endpoint.polled (receivedPacket fmt c x)).packets
        p) := by
    rw [polled_packets_of_ne _ (Nat.ne_of_lt hShelved.old)]
    exact hShelved.carries
  refine ⟨⟨_, hEffect.conn, ?_, ?_⟩, hArrived, ?_⟩
  · change numberAt n + 1 = _
    rw [if_neg (by omega), numberAt_succ]
    rfl
  · change conn.maxOooSequence.toNat ≤ _
    rw [hMax, numberAt_toNat (by omega)]
    omega
  · rw [hInserted [buff, bytes]
      (.cons ⟨_, own_carries hCarries⟩
        (.cons ⟨_, hShelf⟩ .nil))]
    simp

/- Reading leaves what is shelved and what is expected. -/
theorem Ready.reads
    {maxLen : Int}
    (hReady : Ready c n r.endpoint)
    (hReceives : Receives fmt cfg c r (.read maxLen) r') :
    Ready c n r'.endpoint := by
  rcases hReady with ⟨conn, hConn, hLast, hMax⟩
  cases hReceives with
  | read hRead =>
      rcases nbRead_frame hRead with
        ⟨conn₁, queue, hConn₁, rfl⟩
      cases hConn.symm.trans hConn₁
      exact ⟨_, Endpoint.setConn_conns_self _ _ _, hLast,
        hMax⟩

theorem ShelvedAt.reads
    {p : PacketPtr}
    {maxLen : Int}
    (hShelved : ShelvedAt fmt c n bytes p r.endpoint)
    (hReceives : Receives fmt cfg c r (.read maxLen) r') :
    ShelvedAt fmt c n bytes p r'.endpoint := by
  rcases hShelved with
    ⟨⟨conn, hConn, hLast, hMax, hSlot⟩, hOld, hCarries⟩
  cases hReceives with
  | read hRead =>
      rcases nbRead_frame hRead with
        ⟨conn₁, queue, hConn₁, rfl⟩
      cases hConn.symm.trans hConn₁
      exact ⟨⟨_, Endpoint.setConn_conns_self _ _ _, hLast,
        hMax, hSlot⟩, hOld, hCarries⟩

end Blocks

------------------------------------------------------------
-- The Order Written
------------------------------------------------------------

/- The packets arrive in the order written, each once. -/
def FromSocket
    (fmt : PacketFormat P)
    (written : List (P × BitVec 32))
    (r : Reception P) : ReceptionLabel P → Prop
| .packet i x => i = r.arrived.length ∧
    ∃ y len, written[i]? = some (y, len) ∧
      fmt.SameWire (fmt.getWord .totalLen y).toInt y x
| .read _ => True

/-
  How far a reception is in the order written: between two
  blocks, after the second packet of the whole log, which a
  fresh connection takes for the first, or inside any other
  swapped block.
-/
inductive Undone
    (fmt : PacketFormat P)
    (c : ConnPtr)
    (log swapped : SentLog P)
    (r : Reception P) : Prop
| between {front rest back rest' : SentLog P} :
    log = front ++ rest →
    swapped = back ++ rest' →
    Reordered rest rest' →
    back.length = front.length →
    r.arrived.length = front.length →
    Ready c front.length r.endpoint →
    r.inserted = front.payloads →
    Undone fmt c log swapped r
| jumped {a b : P × List Byte} {rest rest' : SentLog P} :
    log = a :: b :: rest →
    swapped = b :: a :: rest' →
    Reordered rest rest' →
    r.arrived.length = 1 →
    Ready c 2 r.endpoint →
    r.inserted = payloadOf b.2 →
    Undone fmt c log swapped r
| inside {front rest back rest' : SentLog P}
    {a b : P × List Byte} {p : PacketPtr} :
    log = front ++ a :: b :: rest →
    swapped = back ++ b :: a :: rest' →
    Reordered rest rest' →
    back.length = front.length →
    r.arrived.length = front.length + 1 →
    front.length ≠ 0 →
    ShelvedAt fmt c front.length b.2 p r.endpoint →
    r.inserted = front.payloads →
    Undone fmt c log swapped r

section Order

variable
    {fmt : PacketFormat P}
    {cfg : Config}
    {c : ConnPtr}
    {log swapped : SentLog P}
    {start r r' : Reception P}
    {i : Nat}
    {x : P}

/- The packet that arrives is the next of the order. -/
theorem swapped_next
    {back rest' : SentLog P}
    {a sent : P × List Byte}
    (hSwapped : swapped = back ++ a :: rest')
    (hLength : i = back.length)
    (hAt : swapped[i]? = some sent) :
    sent = a := by
  subst hSwapped hLength
  simpa using hAt.symm

/- Where a packet of the log is. -/
theorem log_at
    {front rest : SentLog P}
    {a : P × List Byte}
    (hLog : log = front ++ a :: rest) :
    log[front.length]? = some a := by
  subst hLog
  simp

/- An arrival takes a reception on in the order written. -/
theorem Undone.arrives
    {sent : P × List Byte}
    (hHold : cfg.inorderStrategy = .holdForever)
    (hCarries : ∀ (i : Nat) y buff, log[i]? = some (y, buff) →
      fmt.Carries (numberAt i) buff y)
    (hFirst : ∀ y buff, log[0]? = some (y, buff) → buff = [])
    (hWrap : log.length + 1011 < 2 ^ 32)
    (hUndone : Undone fmt c log swapped r)
    (hNext : i = r.arrived.length)
    (hAt : swapped[i]? = some sent)
    (hSame : fmt.SameWire
      (fmt.getWord .totalLen sent.1).toInt sent.1 x)
    (hReceives : Receives fmt cfg c r (.packet i x) r') :
    Undone fmt c log swapped r' := by
  have hX : ∀ k, log[k]? = some sent →
      fmt.Carries (numberAt k) sent.2 x := fun k hK =>
    (hCarries k sent.1 sent.2 hK).of_sameWire hSame
  cases hUndone with
  | @between front rest back rest' hLog hSwapped hOrder
      hLengths hCount hReady hInserted =>
      have hIndex : i = back.length := by omega
      cases hOrder with
      | nil =>
          rw [hSwapped, hIndex, List.append_nil,
            List.getElem?_length] at hAt
          cases hAt
      | @keep a rest rest' hOrder =>
          cases swapped_next hSwapped hIndex hAt
          have hLt : front.length < log.length := by
            simp [hLog]
          rcases hReady.accepts hHold (Or.inr rfl) (by omega)
              (hX _ (log_at hLog)) hReceives with
            ⟨hReady', hArrived, hInserted'⟩
          have hLog' : log = (front ++ [sent]) ++ rest := by
            rw [hLog, List.append_assoc]
            rfl
          have hSwapped' : swapped =
              (back ++ [sent]) ++ rest' := by
            rw [hSwapped, List.append_assoc]
            rfl
          refine .between hLog' hSwapped' hOrder ?_ ?_ ?_ ?_
          · simp [hLengths]
          · simp [hArrived, hCount]
          · rw [List.length_append, List.length_singleton]
            exact hReady'
          · rw [hInserted', hInserted, SentLog.payloads_snoc]
      | @swap a b rest rest' hOrder =>
          cases swapped_next hSwapped hIndex hAt
          have hLt : front.length + 1 < log.length := by
            simp [hLog]
          have hSecond : log[front.length + 1]? =
              some sent := by
            simp [hLog]
          by_cases hZero : front.length = 0
          · rw [hZero] at hReady hSecond hLt
            rcases hReady.accepts hHold (Or.inl rfl)
                (by omega) (hX _ hSecond) hReceives with
              ⟨hReady', hArrived, hInserted'⟩
            have hFront : front = [] :=
              List.length_eq_zero_iff.mp hZero
            have hBack : back = [] :=
              List.length_eq_zero_iff.mp (by omega)
            subst hFront hBack
            refine .jumped hLog hSwapped hOrder ?_ hReady' ?_
            · simp [hArrived, hCount]
            · rw [hInserted', hInserted]
              rfl
          · rcases hReady.shelvesNext hHold hZero (by omega)
                (hX _ hSecond) hReceives with
              ⟨⟨p, hShelved⟩, hArrived, hInserted'⟩
            refine .inside hLog hSwapped hOrder hLengths ?_
              hZero hShelved (hInserted'.trans hInserted)
            simp [hArrived, hCount]
  | @jumped a b rest rest' hLog hSwapped hOrder hCount hReady
      hInserted =>
      have hSwapped' : swapped = [b] ++ a :: rest' := hSwapped
      have hIndex : i = [b].length := by
        rw [hNext, hCount]
        rfl
      cases swapped_next hSwapped' hIndex hAt
      have hLt : 2 ≤ log.length := by simp [hLog]
      have hZero : log[0]? = some sent := by simp [hLog]
      rcases hReady.shelvesOld hHold (by omega) (by omega)
          (hX _ hZero) hReceives with
        ⟨hReady', hArrived, hInserted'⟩
      have hLog' : log = [sent, b] ++ rest := hLog
      have hSwapped₂ : swapped = [b, sent] ++ rest' :=
        hSwapped
      refine .between hLog' hSwapped₂ hOrder rfl ?_ hReady' ?_
      · simp [hArrived, hCount]
      · rw [hInserted', hInserted]
        have hEmpty := hFirst sent.1 sent.2 hZero
        simp [SentLog.payloads, hEmpty, payloadOf]
  | @inside front rest back rest' a b p hLog hSwapped hOrder
      hLengths hCount hPositive hShelved hInserted =>
      have hSwapped' : swapped =
          (back ++ [b]) ++ a :: rest' := by
        rw [hSwapped, List.append_assoc]
        rfl
      have hIndex : i = (back ++ [b]).length := by
        rw [List.length_append, List.length_singleton]
        omega
      cases swapped_next hSwapped' hIndex hAt
      have hLt : front.length + 1 < log.length := by
        simp [hLog]
      rcases hShelved.drains hHold hPositive (by omega)
          (hX _ (log_at hLog)) hReceives with
        ⟨hReady', hArrived, hInserted'⟩
      have hLog' : log = (front ++ [sent, b]) ++ rest := by
        rw [hLog, List.append_assoc]
        rfl
      have hSwapped₂ : swapped =
          (back ++ [b, sent]) ++ rest' := by
        rw [hSwapped, List.append_assoc]
        rfl
      refine .between hLog' hSwapped₂ hOrder ?_ ?_ ?_ ?_
      · simp [hLengths]
      · simp [hArrived, hCount]
      · rw [List.length_append]
        exact hReady'
      · rw [hInserted', hInserted]
        simp [SentLog.payloads]

theorem Undone.reads
    {maxLen : Int}
    (hUndone : Undone fmt c log swapped r)
    (hReceives : Receives fmt cfg c r (.read maxLen) r') :
    Undone fmt c log swapped r' := by
  have hKept : r'.arrived = r.arrived ∧
      r'.inserted = r.inserted := by
    cases hReceives
    exact ⟨rfl, rfl⟩
  cases hUndone with
  | between hLog hSwapped hOrder hLengths hCount hReady
      hInserted =>
      exact .between hLog hSwapped hOrder hLengths
        (by rw [hKept.1, hCount]) (hReady.reads hReceives)
        (hKept.2.trans hInserted)
  | jumped hLog hSwapped hOrder hCount hReady hInserted =>
      exact .jumped hLog hSwapped hOrder
        (by rw [hKept.1, hCount]) (hReady.reads hReceives)
        (hKept.2.trans hInserted)
  | inside hLog hSwapped hOrder hLengths hCount hPositive
      hShelved hInserted =>
      exact .inside hLog hSwapped hOrder hLengths
        (by rw [hKept.1, hCount]) hPositive
        (hShelved.reads hReceives)
        (hKept.2.trans hInserted)

/- A fresh connection is ready for the first packet. -/
theorem ready_fresh
    (hHold : cfg.inorderStrategy = .holdForever)
    (hFresh : FreshReception fmt cfg c start) :
    Ready c 0 start.endpoint := by
  rcases hFresh with ⟨-, -, -, e, fresh, h, a, sa, hCall⟩
  cases hCall with
  | establish _ _ hEstablish =>
      refine ⟨_, by rw [nbEstablish_conns hEstablish,
        Function.update_self], ?_⟩
      have hView := openedConn_inorderView cfg fresh
        (e.hostLocalId h) h a sa e.nextPacket
      have hMax := congrArg InorderView.maxOooSequence hView
      have hZero : (establishedConn cfg fresh
          (e.hostLocalId h) a sa).maxOooSequence = 0 :=
        if_pos hHold
      refine ⟨congrArg InorderView.lastRecvSequence hView, ?_⟩
      rw [show (openedConn cfg fresh (e.hostLocalId h) h a sa
        e.nextPacket).maxOooSequence = 0 from
          hMax.trans hZero]
      exact Nat.zero_le _

/-
  Whatever the outcomes of `rand`, the payloads are inserted
  in the order sent, each exactly once.
-/
theorem reordering_undone
    {d : ConnPtr}
    {e : Endpoint P}
    {t t' : IpcTransport P}
    {rand : Nat → Nat × Nat}
    {labels : List (ReceptionLabel P)}
    (hHold : cfg.inorderStrategy = .holdForever)
    (hHeader : 0 < fmt.headerLen)
    (hSent : SentOn fmt cfg d e log)
    (hFirst : ∀ y buff, log[0]? = some (y, buff) → buff = [])
    (hWrap : log.length + 1011 < 2 ^ 32)
    (hDrop : t.simulatePacketDrop = false)
    (hNone : t.outOfOrderLen = 0)
    (hWritten : t.written = [])
    (hSend : IpcTransport.sendAll rand
      (log.map (fun sent =>
        (sent.1, fmt.getWord .computedTotalLen sent.1))) t =
          .ok t')
    (hFresh : FreshReception fmt cfg c start)
    (hRun : Run (Guarded
        (FromSocket fmt t'.deinit.written)
        (Receives fmt cfg c)) start labels r)
    (hAll : r.arrived.length = t'.deinit.written.length) :
    r.inserted = log.payloads := by
  have hNumbered := hSent.numbered (Or.inl (by simp [hHold]))
  have hSizes : ∀ sent ∈ log.map (fun sent =>
      (sent.1, fmt.getWord .computedTotalLen sent.1)),
      sent.2 ≠ 0 := by
    intro sent hMem
    rcases List.mem_map.mp hMem with ⟨⟨y, buff⟩, hIn, rfl⟩
    rcases List.getElem?_of_mem hIn with ⟨k, hK⟩
    rcases hNumbered.sent k y buff hK with ⟨hCarries, hSize⟩
    intro hZero
    have hLt := hCarries.length_lt
    have hNat := congrArg BitVec.toNat (hSize.symm.trans hZero)
    rw [BitVec.toNat_ofNat, Nat.mod_eq_of_lt (by omega)]
      at hNat
    have hNoneLeft : (0 : BitVec 32).toNat = 0 := rfl
    omega
  rcases IpcTransport.sendAll_reordered hDrop hSizes hSend with
    ⟨ys, hYs, hOrder⟩
  rw [if_neg (not_not.mpr hNone), List.nil_append] at hOrder
  rcases hOrder.of_map with ⟨swapped, hSwap, rfl⟩
  rw [hWritten, List.nil_append] at hYs
  have hStep : ∀ r₁ label r₂,
      Undone fmt c log swapped r₁ →
      Guarded (FromSocket fmt t'.deinit.written)
        (Receives fmt cfg c) r₁ label r₂ →
      Undone fmt c log swapped r₂ := by
    rintro r₁ label r₂ hUndone ⟨hFrom, hReceives⟩
    cases label with
    | read maxLen => exact hUndone.reads hReceives
    | packet i x =>
        rcases hFrom with ⟨hNext, y, len, hAt, hSame⟩
        rw [hYs, List.getElem?_map,
          Option.map_eq_some_iff] at hAt
        rcases hAt with ⟨sent, hAt, hEq⟩
        cases hEq
        exact hUndone.arrives hHold hNumbered.carries hFirst
          hWrap hNext hAt hSame hReceives
  have hLog : log = [] ++ log := rfl
  have hSwapped : swapped = [] ++ swapped := rfl
  have hBegin : Undone fmt c log swapped start :=
    .between hLog hSwapped hSwap rfl
      (by rw [hFresh.2.1]; rfl) (ready_fresh hHold hFresh)
      hFresh.1
  rw [hYs, List.length_map] at hAll
  cases hRun.invariant hStep hBegin with
  | @between front rest back rest' hLog hSwapped hRest
      hLengths hCount _ hInserted =>
      have hNil : rest'.length = 0 := by
        rw [hSwapped, List.length_append] at hAll
        omega
      rw [hRest.length_eq] at hNil
      rw [hInserted, hLog, List.length_eq_zero_iff.mp hNil,
        List.append_nil]
  | jumped _ hSwapped _ hCount =>
      rw [hSwapped, hCount] at hAll
      simp at hAll
  | inside _ hSwapped _ hLengths hCount =>
      rw [hSwapped, hCount] at hAll
      simp only [List.length_append, List.length_cons]
        at hAll
      omega

end Order

------------------------------------------------------------
-- A Swapped Signal
------------------------------------------------------------

/- The small stack with signals, and late packets shelved. -/
def holdConfig : Config :=
  { plainConfig .srcDstIdentifier with
    inorderStrategy := .holdForever
    signalingEnabled := true }

/- The transport as it starts, set to reorder packets. -/
def idleTransport : IpcTransport PacketBuffer where
  simulateOutOfOrder := true
  simulatePacketDrop := false
  outOfOrderStore := blankBuffer
  outOfOrderLen := 0
  written := []

/- The first of two packets is held back. -/
theorem sendAll_two
    {x y : PacketBuffer}
    {len len' : BitVec 32}
    (hLen : len ≠ 0)
    (hMtu : len.toNat ≤ ipcMtu) :
    IpcTransport.sendAll (fun k => (0, k))
        [(x, len), (y, len')] idleTransport =
      .ok { idleTransport with
        outOfOrderStore := x
        written := [(y, len'), (x, len)] } := by
  have hFirst : idleTransport.sendPacket 0 0 x len =
      .ok { idleTransport with
        outOfOrderStore := x
        outOfOrderLen := len } := by
    rw [IpcTransport.sendPacket, if_neg (by decide),
      if_pos (by decide), if_pos hMtu]
  rw [IpcTransport.sendAll, hFirst, ok_bind,
    IpcTransport.sendAll, IpcTransport.sendPacket,
    if_neg (by simp [idleTransport]),
    if_neg (fun hHold => hLen hHold.1),
    ok_bind, IpcTransport.sendAll, IpcTransport.flush]
  exact congrArg Except.ok (if_pos hLen)

/- A signal that is overtaken by the first payload. -/
theorem reordering_undone_two :
    ∃ (log : SentLog PacketBuffer)
        (t' : IpcTransport PacketBuffer)
        (r : Reception PacketBuffer),
      log.length = 2 ∧
      IpcTransport.sendAll (fun k => (0, k))
        (log.map (fun sent => (sent.1,
          netPacketFormat.getWord .computedTotalLen sent.1)))
        idleTransport = .ok t' ∧
      t'.deinit.written.map Prod.fst =
        log.reverse.map Prod.fst ∧
      r.inserted = log.payloads := by
  have hTable : (do
      let e₁ ← nbEstablish netPacketFormat holdConfig 1
        blankConnection 9 8 7 bareStack
      let (n, _) ← nbSend netPacketFormat holdConfig 1 [5] e₁
      return n) = .ok 1 := by
    decide +kernel
  rcases bind_eq_ok_iff.mp hTable with
    ⟨e₁, hEstablish, hRest⟩
  rcases bind_eq_ok_iff.mp hRest with ⟨⟨n, e₂⟩, hSend, -⟩
  have hReached : Reached netPacketFormat holdConfig
      bareStack :=
    ⟨blankNetState, bareEndpoint, [], fun _ => rfl, .nil _⟩
  have hCall : Calls netPacketFormat holdConfig bareStack
      (.establish 1 blankConnection 9 8 7) e₁ :=
    .establish (by decide) rfl hEstablish
  have hSent := (SentOn.opens hReached hCall).sends
    (.send hSend)
  rcases nbEstablish_handedOut hReached.hostsKept hEstablish
    with ⟨hQuiet, -⟩ | ⟨-, -, -, x, -, -, hOut, -⟩
  · exact absurd ⟨by decide, rfl⟩ hQuiet
  rcases nbSend_ok_iff.mp hSend with
    ⟨conn, _, y, _, timers, hConn, -, -, -, rfl⟩
  rw [hOut, handedOut_sent] at hSent
  have hNumbered := hSent.numbered (Or.inl (by decide))
  have hSize := (hNumbered.sent 0 x [] rfl).2
  have hLen : netPacketFormat.getWord .computedTotalLen x ≠
      0 := by
    rw [hSize]
    decide
  have hMtu : (netPacketFormat.getWord .computedTotalLen
      x).toNat ≤ ipcMtu := by
    rw [hSize]
    decide
  let len := netPacketFormat.getWord .computedTotalLen y
  have hFresh : FreshReception netPacketFormat holdConfig 1
      (receptionOf e₁) :=
    ⟨rfl, rfl, rfl, bareStack, blankConnection, 9, 8, 7,
      hCall⟩
  rcases hFresh.latest with ⟨conn₀, hConn₀, hQueue, -⟩
  rcases receives_of_room hConn₀ (by rw [hQueue]; decide) 0 y
    with ⟨r₁, conn₁, hFirst, hConn₁, hLength⟩
  rw [hQueue] at hLength
  have hRoom : conn₁.inputQueue.length + 34 ≤
      maxDataQueueElems := by
    simp only [List.length_nil, maxDataQueueElems] at *
    omega
  rcases receives_of_room hConn₁ hRoom 1 x with
    ⟨r₂, conn₂, hSecond, -, -⟩
  have hArrived₁ : r₁.arrived = [0] := by
    cases hFirst
    rfl
  have hArrived₂ : r₂.arrived = r₁.arrived ++ [1] := by
    cases hSecond
    rfl
  let log : SentLog PacketBuffer := [(x, []), (y, [5])]
  have hSendAll : IpcTransport.sendAll (fun k => (0, k))
      (log.map (fun sent => (sent.1,
        netPacketFormat.getWord .computedTotalLen sent.1)))
      idleTransport = .ok _ :=
    sendAll_two hLen hMtu
  have hEmpty : ∀ z buff, log[0]? = some (z, buff) →
      buff = [] := by
    intro z buff hAt
    cases hAt
    rfl
  have hWrap : log.length + 1011 < 2 ^ 32 := by simp [log]
  have hNext : 1 = r₁.arrived.length := by
    rw [hArrived₁]
    rfl
  have hCount : r₂.arrived.length = 2 := by
    rw [hArrived₂, hArrived₁]
    rfl
  let written : List (PacketBuffer × BitVec 32) :=
    [(y, len),
      (x, netPacketFormat.getWord .computedTotalLen x)]
  have hGuard₁ : FromSocket netPacketFormat written
      (receptionOf e₁) (.packet 0 y) :=
    ⟨rfl, y, len, rfl, sameWire_refl _ y⟩
  have hGuard₂ : FromSocket netPacketFormat written r₁
      (.packet 1 x) :=
    ⟨hNext, x, _, rfl, sameWire_refl _ x⟩
  have hRun : Run (Guarded (FromSocket netPacketFormat written)
      (Receives netPacketFormat holdConfig 1))
      (receptionOf e₁) [.packet 0 y, .packet 1 x] r₂ :=
    .cons ⟨hGuard₁, hFirst⟩
      (.cons ⟨hGuard₂, hSecond⟩ (.nil r₂))
  exact ⟨log, _, r₂, rfl, hSendAll, rfl,
    reordering_undone rfl (by decide) hSent hEmpty hWrap rfl
      rfl rfl hSendAll hFresh hRun hCount⟩

end NetBlocks
