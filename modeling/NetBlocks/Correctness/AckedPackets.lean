import NetBlocks.Correctness.InorderPrefix

/-
  What an ack promises. The reliable module acknowledges a
  packet before the inorder module looks at it, so an
  acknowledged payload may be dropped, shelved where it is
  never looked for, or overwritten. As long as none of these
  happens it is in the input queue, or waits in its slot.

  Main declarations:
    * `IsKept` and `AcksKept`
    * `LosesNothing`
    * `Shelving` and `Shelving.step`
    * `acksKept_of_run`
-/

namespace NetBlocks

open Except TransitionSystem

variable {P : Type}

------------------------------------------------------------
-- Payloads That Are Kept
------------------------------------------------------------

/-
  The payload of a number was put into the input queue, or
  its packet waits in its slot for the numbers before.
-/
inductive IsKept
    (fmt : PacketFormat P)
    (cfg : Config)
    (c : ConnPtr)
    (ch : Channel P)
    (number : BitVec 32)
    (bytes : List Byte) : Prop
| inserted :
    (number, .ok bytes) ∈ ch.inserted →
    IsKept fmt cfg c ch number bytes
| shelved {conn : Connection} {q : PacketPtr} :
    ch.receiver.conns c = some conn →
    conn.lastRecvSequence < number →
    conn.inorderView.slots cfg.inorderStrategy
      (slot number) = some q →
    fmt.Carries number bytes (ch.receiver.packets q) →
    IsKept fmt cfg c ch number bytes

/- Payloads that were acknowledged are kept. -/
def AcksKept
    (fmt : PacketFormat P)
    (cfg : Config)
    (c : ConnPtr)
    (ch : Channel P) : Prop :=
  ∀ i y bytes, ch.log[i]? = some (y, bytes) → bytes ≠ [] →
    numberAt i ∈ ch.acked →
      IsKept fmt cfg c ch (numberAt i) bytes

/- A packet without a payload, or with one that was queued. -/
def Settled
    (fmt : PacketFormat P)
    (ch : Channel P)
    (x : P) : Prop :=
  fmt.sentLen x = 0 ∨
    ∃ payload, (fmt.getWord .sequenceNumber x, payload) ∈
      ch.inserted

/-
  A data packet that is not delivered at once is newer than
  the last one delivered, and what it displaces from its slot
  has the same number, unless they are settled anyway.
-/
def LosesNothing
    (fmt : PacketFormat P)
    (cfg : Config)
    (c : ConnPtr)
    (ch : Channel P) : ChannelMove P → Prop
| .sender _ => True
| .receiver move => ∀ p e conn,
    move.processes ch.receiver = some (p, e) →
    dataReceiver fmt cfg p e = some c →
    ch.receiver.conns c = some conn →
    ¬ IsAccepted cfg.inorderStrategy
      (fmt.getWord .sequenceNumber (e.packets p)) conn →
    (conn.lastRecvSequence <
        fmt.getWord .sequenceNumber (e.packets p) ∨
      Settled fmt ch (e.packets p)) ∧
    ∀ q, conn.inorderView.slots cfg.inorderStrategy
        (slot (fmt.getWord .sequenceNumber (e.packets p))) =
          some q →
      fmt.getWord .sequenceNumber (e.packets q) =
        fmt.getWord .sequenceNumber (e.packets p) ∨
      Settled fmt ch (e.packets q)

/-
  With `hold_forever`, nothing is acknowledged before a packet
  is delivered, and no shelved number was not sent.
-/
structure Shelving
    (cfg : Config)
    (c : ConnPtr)
    (ch : Channel P) : Prop where
  started : ∀ conn, ch.receiver.conns c = some conn →
    conn.lastRecvSequence = 0 → ch.acked = []
  largest : cfg.inorderStrategy = .holdForever →
    ∀ conn, ch.receiver.conns c = some conn →
      conn.maxOooSequence.toNat < 1011 + ch.log.length

section Kept

variable
    {fmt : PacketFormat P}
    {cfg : Config}
    {d c : ConnPtr}
    {ch ch' : Channel P}
    {move : ChannelMove P}
    {i : Nat}
    {x y : P}
    {bytes : List Byte}

/- A packet at a position carries what was sent there. -/
theorem SentLog.IsAt.carries
    {log : SentLog P}
    (hAt : log.IsAt fmt i x)
    (hSent : log[i]? = some (y, bytes)) :
    fmt.Carries (numberAt i) bytes x := by
  rcases hAt with ⟨_, _, hSent', hCarries⟩
  cases hSent.symm.trans hSent'
  exact hCarries

/- A settled packet with a payload had it queued. -/
theorem Settled.inserted
    (hWrap : ch.log.length + 1011 < 2 ^ 32)
    (hInv : ChannelInvariant fmt cfg d c ch)
    (hSettled : Settled fmt ch x)
    (hAt : ch.log.IsAt fmt i x)
    (hSent : ch.log[i]? = some (y, bytes))
    (hNe : bytes ≠ []) :
    (numberAt i, .ok bytes) ∈ ch.inserted := by
  have hCarries := hAt.carries hSent
  rcases hSettled with hEmpty | ⟨payload, hQueued⟩
  · rw [hCarries.sentLen] at hEmpty
    exact absurd (List.length_eq_zero_iff.mp
      (Int.natCast_eq_zero.mp hEmpty)) hNe
  · rw [hCarries.number] at hQueued
    rcases hInv.inserted with ⟨positions, hLt, hInserted⟩
    have hAt' := hInserted ▸ hQueued
    rcases mem_insertionsAt_iff.mp hAt' with
      ⟨k, hk, y', bytes', hSent', -, hNumber, rfl⟩
    have hi := (List.getElem?_eq_some_iff.mp hSent).1
    have hPosition := hLt k hk
    have hEq : i = k := numberAt_inj (by omega) (by omega)
      hNumber
    subst hEq
    cases hSent.symm.trans hSent'
    exact hQueued

/- The loop stops before the numbers wrap. -/
theorem Drained.follower_toNat
    {s : BitVec 32}
    {v w : InorderView}
    {taken : List PacketPtr}
    (hDrained : Drained s v taken w)
    (hFirst : s.toNat + 1 < 2 ^ 32)
    (hLast : v.maxOooSequence.toNat + 1 < 2 ^ 32)
    {n : Nat}
    (hn : n < taken.length) :
    (follower s n).toNat = s.toNat + n + 1 := by
  have hFits : s.toNat + n + 1 < 2 ^ 32 := by
    induction n with
    | zero => exact hFirst
    | succ n ih =>
        have hBefore : n < taken.length :=
          Nat.lt_of_succ_lt hn
        have hHeld := BitVec.le_def.mp (hDrained.held n _
          (List.getElem?_eq_getElem hBefore)).1
        rw [follower, BitVec.toNat_add, BitVec.toNat_ofNat]
          at hHeld
        have hLower := ih hBefore
        omega
  rw [follower, BitVec.toNat_add, BitVec.toNat_ofNat]
  omega

/- The last number delivered is what the loop counted to. -/
theorem Drained.last_toNat
    {s : BitVec 32}
    {v w : InorderView}
    {taken : List PacketPtr}
    (hDrained : Drained s v taken w)
    (hFirst : s.toNat + 1 < 2 ^ 32)
    (hLast : v.maxOooSequence.toNat + 1 < 2 ^ 32) :
    w.lastRecvSequence.toNat = s.toNat + taken.length := by
  rw [hDrained.lastRecv]
  cases hLength : taken.length with
  | zero => simp
  | succ n =>
      have hNumber := hDrained.follower_toNat hFirst hLast
        (n := n) (by omega)
      exact hNumber

/-
  A shelved packet with a number behind `s` was taken, or is
  still shelved, behind what was delivered.
-/
theorem Drained.shelved
    {s n : BitVec 32}
    {v w : InorderView}
    {taken : List PacketPtr}
    {q : PacketPtr}
    (hDrained : Drained s v taken w)
    (hFirst : s.toNat + 1 < 2 ^ 32)
    (hLast : v.maxOooSequence.toNat + 1 < 2 ^ 32)
    (hBehind : s < n)
    (hSlot : v.inorderBuffer (slot n) = some q) :
    q ∈ taken ∨
      w.lastRecvSequence < n ∧
        w.inorderBuffer (slot n) = some q := by
  by_cases hTaken :
      ∃ m < taken.length, slot n = slot (follower s m)
  · left
    rcases hTaken with ⟨m, hm, hEq⟩
    have hHeld := (hDrained.held m _
      (List.getElem?_eq_getElem hm)).2
    rw [← hEq, hSlot] at hHeld
    cases hHeld
    exact List.getElem_mem hm
  · right
    have hOther : ∀ m < taken.length,
        slot n ≠ slot (follower s m) :=
      fun m hm hEq => hTaken ⟨m, hm, hEq⟩
    refine ⟨?_, by rw [hDrained.others _ hOther, hSlot]⟩
    rw [BitVec.lt_def, hDrained.last_toNat hFirst hLast]
    have hLt := BitVec.lt_def.mp hBehind
    by_contra hNot
    let m := n.toNat - s.toNat - 1
    have hm : m < taken.length := by omega
    have hNumber := hDrained.follower_toNat hFirst hLast hm
    have hEq : follower s m = n := by
      apply BitVec.eq_of_toNat_eq
      omega
    exact hOther m hm (congrArg slot hEq.symm)

/- Shelving a number that was sent keeps the largest one. -/
theorem shelve_largest
    {number : BitVec 32}
    {v : InorderView}
    {n : Nat}
    (hNumber : number.toNat < n)
    (hLargest : v.maxOooSequence.toNat < n)
    (p : PacketPtr) :
    (shelve number p v).maxOooSequence.toNat < n := by
  rw [shelve]
  dsimp only
  split
  · exact hNumber
  · exact hLargest

theorem Shelving.step
    (hStrategy : cfg.inorderStrategy ≠ .noInorder)
    (hReliable : cfg.reliableEnabled = true)
    (hWrap : ch.log.length + 1011 < 2 ^ 32)
    (hInv : ChannelInvariant fmt cfg d c ch)
    (hShelving : Shelving cfg c ch)
    (hStep : ChannelSteps fmt cfg d c ch move ch') :
    Shelving cfg c ch' := by
  rcases hStep.log_eq with ⟨more, hLog⟩
  have hGrown : ch.log.length ≤ ch'.log.length := by
    rw [hLog, List.length_append]
    omega
  cases hStep.effect hReliable hInv with
  | @quiet _ conn conn' hConn hConn' hView _ hAcked =>
      have hLast : conn'.lastRecvSequence =
          conn.lastRecvSequence :=
        congrArg InorderView.lastRecvSequence hView
      have hLargest : conn'.maxOooSequence =
          conn.maxOooSequence :=
        congrArg InorderView.maxOooSequence hView
      refine ⟨?_, ?_⟩
      · intro conn₁ hConn₁ hZero
        cases hConn'.symm.trans hConn₁
        rw [hAcked]
        exact hShelving.started conn hConn
          (hLast.symm.trans hZero)
      · intro hHold conn₁ hConn₁
        cases hConn'.symm.trans hConn₁
        have hBefore := hShelving.largest hHold conn hConn
        rw [hLargest]
        omega
  | @data m p e i conn conn' w status taken positions
      _ _ hPlaced =>
      have hConn := hPlaced.before
      have hConn' := hPlaced.after
      have hView := hPlaced.view
      have hPlace := hPlaced.place
      have hLast : conn'.lastRecvSequence =
          w.lastRecvSequence :=
        congrArg InorderView.lastRecvSequence hView
      have hLargest : conn'.maxOooSequence =
          w.maxOooSequence :=
        congrArg InorderView.maxOooSequence hView
      have hi := hPlaced.own.lt
      have hNumber := numberAt_toNat (i := i) (by omega)
      have hNe : numberAt i ≠ 0 :=
        numberAt_ne_zero (by omega)
      by_cases hAccepted :
          IsAccepted cfg.inorderStrategy (numberAt i) conn
      · rcases place_accepted hStrategy hAccepted hPlace with
          ⟨-, ⟨hDrop, hW⟩ | ⟨hHold, hDrained⟩⟩
        · refine ⟨?_, ?_⟩
          · intro conn₁ hConn₁ hZero
            cases hConn'.symm.trans hConn₁
            rw [hLast, hW] at hZero
            exact absurd hZero hNe
          · intro hHold
            rw [hDrop] at hHold
            cases hHold
        · have hBefore : conn.inorderView.maxOooSequence.toNat <
              1011 + ch.log.length :=
            hShelving.largest hHold conn hConn
          refine ⟨?_, ?_⟩
          · intro conn₁ hConn₁ hZero
            cases hConn'.symm.trans hConn₁
            have hNat := hDrained.last_toNat (by omega)
              (by change conn.inorderView.maxOooSequence.toNat
                    + 1 < 2 ^ 32
                  omega)
            rw [← hLast, hZero, hNumber] at hNat
            have hNone : (0 : BitVec 32).toNat = 0 := rfl
            omega
          · intro _ conn₁ hConn₁
            cases hConn'.symm.trans hConn₁
            rw [hLargest, hDrained.maxOoo]
            exact Nat.lt_of_lt_of_le hBefore (by omega)
      · rcases place_not_accepted hAccepted hPlace with
          ⟨-, -, ⟨hDrop, rfl⟩ | ⟨hHold, rfl⟩⟩
        · refine ⟨?_, ?_⟩
          · intro conn₁ hConn₁ hZero
            cases hConn'.symm.trans hConn₁
            refine absurd ?_ hAccepted
            rw [hDrop]
            change conn.lastRecvSequence < numberAt i
            rw [show conn.lastRecvSequence = 0 from
              hLast.symm.trans hZero, BitVec.lt_def, hNumber]
            exact Nat.lt_of_lt_of_le (by decide)
              (Nat.le_add_right 1011 i)
          · intro hHold
            rw [hDrop] at hHold
            cases hHold
        · refine ⟨?_, ?_⟩
          · intro conn₁ hConn₁ hZero
            cases hConn'.symm.trans hConn₁
            refine absurd ?_ hAccepted
            rw [hHold]
            exact Or.inl (hLast.symm.trans hZero)
          · intro _ conn₁ hConn₁
            cases hConn'.symm.trans hConn₁
            rw [hLargest]
            have hBefore := hShelving.largest hHold conn hConn
            exact shelve_largest (by omega)
              (show conn.inorderView.maxOooSequence.toNat < _
                from Nat.lt_of_lt_of_le hBefore (by omega)) p

/- What is delivered with a packet is queued. -/
theorem inserted_of_arrived
    {arrived : List PacketPtr}
    {packets : PacketPtr → P}
    {positions : List Nat}
    {q : PacketPtr}
    (hWrap : ch.log.length + 1011 < 2 ^ 32)
    (hAt : List.Forall₂
      (fun q k => ch.log.IsAt fmt k (packets q))
      arrived positions)
    (hInserted : ch'.inserted = ch.inserted ++
      ch.log.insertionsAt positions)
    (hSent : ch.log[i]? = some (y, bytes))
    (hNe : bytes ≠ [])
    (hq : q ∈ arrived)
    (hCarries : fmt.Carries (numberAt i) bytes (packets q)) :
    (numberAt i, .ok bytes) ∈ ch'.inserted := by
  rw [hInserted]
  apply List.mem_append_right
  refine mem_insertionsAt_iff.mpr
    ⟨i, ?_, y, bytes, hSent, hNe, rfl, rfl⟩
  clear hInserted
  induction hAt with
  | nil => cases hq
  | cons hFirst _ ih =>
      rcases List.mem_cons.mp hq with rfl | hq
      · rw [hFirst.position_eq hWrap hSent hCarries.number]
        exact List.mem_cons_self
      · exact List.mem_cons_of_mem _ (ih hq)

/-
  What was kept is kept when a packet is delivered at once:
  what was shelved is behind it, or it is the same one.
-/
theorem IsKept.accepted
    {p : PacketPtr}
    {e : Endpoint P}
    {k : Nat}
    {conn conn' : Connection}
    {w : InorderView}
    {status : HookStatus}
    {taken : List PacketPtr}
    {positions : List Nat}
    (hStrategy : cfg.inorderStrategy ≠ .noInorder)
    (hWrap : ch.log.length + 1011 < 2 ^ 32)
    (hShelving : Shelving cfg c ch)
    (hStep : ChannelSteps fmt cfg d c ch move ch')
    (hPlaced : Placed fmt cfg c ch ch' k p e conn conn' status
      w taken positions)
    (hOld : ∀ j q, conn.inorderView.slots
      cfg.inorderStrategy j = some q →
        q < ch.receiver.nextPacket ∧
          e.packets q = ch.receiver.packets q)
    (hAccepted : IsAccepted cfg.inorderStrategy (numberAt k)
      conn)
    (hAcked : numberAt i ∈ ch.acked)
    (hSent : ch.log[i]? = some (y, bytes))
    (hNe : bytes ≠ [])
    (hKept : IsKept fmt cfg c ch (numberAt i) bytes) :
    IsKept fmt cfg c ch' (numberAt i) bytes := by
  cases hKept with
  | inserted hQueued =>
      refine .inserted ?_
      rw [hPlaced.inserted]
      exact List.mem_append_left _ hQueued
  | @shelved conn₁ q hConn₁ hBehind hSlot hCarries =>
      cases hPlaced.before.symm.trans hConn₁
      rcases place_accepted hStrategy hAccepted hPlaced.place
        with ⟨rfl, ⟨hDrop, -⟩ | ⟨hHold, hDrained⟩⟩
      · rw [hDrop] at hSlot
        cases hSlot
      · have hOldQ := hOld _ _ hSlot
        have hCarriesE : fmt.Carries (numberAt i) bytes
            (e.packets q) := hOldQ.2 ▸ hCarries
        rw [hHold] at hAccepted hSlot
        have hi := (List.getElem?_eq_some_iff.mp hSent).1
        have hk := hPlaced.own.lt
        have hNumber := numberAt_toNat (i := k) (by omega)
        have hLargest := hShelving.largest hHold conn
          hPlaced.before
        have hNext : numberAt k = conn.lastRecvSequence + 1 := by
          rcases hAccepted with hZero | hNext
          · rw [hShelving.started conn hPlaced.before hZero]
              at hAcked
            cases hAcked
          · exact hNext
        by_cases hSame : k = i
        · subst hSame
          exact .inserted (inserted_of_arrived hWrap
            hPlaced.arrived hPlaced.inserted hSent hNe
            List.mem_cons_self (hPlaced.own.carries hSent))
        · have hLater : numberAt k < numberAt i := by
            have hNat := numberAt_toNat (i := i) (by omega)
            have hLast := congrArg BitVec.toNat hNext
            rw [hNumber, BitVec.toNat_add] at hLast
            have hOne : (1 : BitVec 32).toNat = 1 := rfl
            rw [BitVec.lt_def] at hBehind ⊢
            omega
          rcases hDrained.shelved (by omega)
              (show conn.maxOooSequence.toNat + 1 < 2 ^ 32 by
                omega)
              hLater hSlot with hTaken | ⟨hStill, hSlot'⟩
          · exact .inserted (inserted_of_arrived hWrap
              hPlaced.arrived hPlaced.inserted hSent hNe
              (List.mem_cons_of_mem _ hTaken) hCarriesE)
          · have hLast : conn'.lastRecvSequence =
                w.lastRecvSequence :=
              congrArg InorderView.lastRecvSequence hPlaced.view
            refine .shelved hPlaced.after ?_ ?_
              (hStep.kept hOldQ.1 hCarries).2
            · rw [hLast]
              exact hStill
            · rw [hPlaced.view, slots_withQueue, hHold]
              exact hSlot'

/-
  What was kept is kept when a packet is dropped or shelved,
  unless its slot is given to another number.
-/
theorem IsKept.notAccepted
    {p : PacketPtr}
    {e : Endpoint P}
    {k : Nat}
    {conn conn' : Connection}
    {w : InorderView}
    {status : HookStatus}
    {taken : List PacketPtr}
    {positions : List Nat}
    (hWrap : ch.log.length + 1011 < 2 ^ 32)
    (hInv : ChannelInvariant fmt cfg d c ch)
    (hStep : ChannelSteps fmt cfg d c ch move ch')
    (hPlaced : Placed fmt cfg c ch ch' k p e conn conn' status
      w taken positions)
    (hNew : ∀ number bytes,
      fmt.Carries number bytes (e.packets p) →
        fmt.Carries number bytes (ch'.receiver.packets p))
    (hOld : ∀ j q, conn.inorderView.slots
      cfg.inorderStrategy j = some q →
        q < ch.receiver.nextPacket ∧
          e.packets q = ch.receiver.packets q)
    (hOther : ¬ IsAccepted cfg.inorderStrategy (numberAt k)
      conn)
    (hDisplaced : ∀ q, conn.inorderView.slots
        cfg.inorderStrategy (slot (numberAt k)) = some q →
      fmt.getWord .sequenceNumber (e.packets q) = numberAt k ∨
        Settled fmt ch (e.packets q))
    (hSent : ch.log[i]? = some (y, bytes))
    (hNe : bytes ≠ [])
    (hKept : IsKept fmt cfg c ch (numberAt i) bytes) :
    IsKept fmt cfg c ch' (numberAt i) bytes := by
  have hMono : ∀ sent, sent ∈ ch.inserted →
      sent ∈ ch'.inserted := by
    intro sent hMem
    rw [hPlaced.inserted]
    exact List.mem_append_left _ hMem
  cases hKept with
  | inserted hQueued => exact .inserted (hMono _ hQueued)
  | @shelved conn₁ q hConn₁ hBehind hSlot hCarries =>
      cases hPlaced.before.symm.trans hConn₁
      rcases place_not_accepted hOther hPlaced.place with
        ⟨-, -, ⟨hDrop, -⟩ | ⟨hHold, rfl⟩⟩
      · rw [hDrop] at hSlot
        cases hSlot
      · have hOldQ := hOld _ _ hSlot
        have hLast : conn'.lastRecvSequence =
            conn.lastRecvSequence :=
          congrArg InorderView.lastRecvSequence hPlaced.view
        have hBehind' : conn'.lastRecvSequence < numberAt i := by
          rw [hLast]
          exact hBehind
        have hSlots : conn'.inorderView.slots
            cfg.inorderStrategy = Function.update
              conn.inorderBuffer (slot (numberAt k))
                (some p) := by
          rw [hPlaced.view, slots_withQueue, hHold]
          rfl
        by_cases hEq : slot (numberAt i) = slot (numberAt k)
        · rcases hDisplaced q (hEq ▸ hSlot) with
            hNumber | hSettled
          · -- the same packet once more
            rw [hOldQ.2, hCarries.number] at hNumber
            have hSame := hPlaced.own.position_eq hWrap hSent (by
              rcases hPlaced.own with ⟨_, _, -, hOwn⟩
              rw [hOwn.number, hNumber])
            subst hSame
            refine .shelved hPlaced.after hBehind' ?_
              (hNew _ _ (hPlaced.own.carries hSent))
            rw [hSlots, Function.update_self]
          · refine .inserted (hMono _ (hSettled.inserted hWrap
              hInv ?_ hSent hNe))
            rw [hOldQ.2]
            exact ⟨y, bytes, hSent, hCarries⟩
        · refine .shelved hPlaced.after hBehind' ?_
            (hStep.kept hOldQ.1 hCarries).2
          rw [hHold] at hSlot
          rw [hSlots, Function.update_of_ne hEq]
          exact hSlot

/- The packet that arrives is kept, too. -/
theorem IsKept.arrives
    {p : PacketPtr}
    {e : Endpoint P}
    {conn conn' : Connection}
    {w : InorderView}
    {status : HookStatus}
    {taken : List PacketPtr}
    {positions : List Nat}
    (hStrategy : cfg.inorderStrategy ≠ .noInorder)
    (hWrap : ch.log.length + 1011 < 2 ^ 32)
    (hInv : ChannelInvariant fmt cfg d c ch)
    (hPlaced : Placed fmt cfg c ch ch' i p e conn conn' status
      w taken positions)
    (hNew : ∀ number bytes,
      fmt.Carries number bytes (e.packets p) →
        fmt.Carries number bytes (ch'.receiver.packets p))
    (hSettles : ¬ IsAccepted cfg.inorderStrategy (numberAt i)
        conn →
      conn.lastRecvSequence < numberAt i ∨
        Settled fmt ch (e.packets p))
    (hSent : ch.log[i]? = some (y, bytes))
    (hNe : bytes ≠ []) :
    IsKept fmt cfg c ch' (numberAt i) bytes := by
  have hCarries := hPlaced.own.carries hSent
  by_cases hAccepted :
      IsAccepted cfg.inorderStrategy (numberAt i) conn
  · rcases place_accepted hStrategy hAccepted hPlaced.place
      with ⟨rfl, -⟩
    exact .inserted (inserted_of_arrived hWrap hPlaced.arrived
      hPlaced.inserted hSent hNe List.mem_cons_self hCarries)
  · rcases hSettles hAccepted with hBehind | hSettled
    · rcases place_not_accepted hAccepted hPlaced.place with
        ⟨-, -, ⟨hDrop, -⟩ | ⟨hHold, rfl⟩⟩
      · rw [hDrop] at hAccepted
        exact absurd hBehind hAccepted
      · refine .shelved hPlaced.after ?_ ?_ (hNew _ _ hCarries)
        · rw [show conn'.lastRecvSequence =
            conn.lastRecvSequence from congrArg
              InorderView.lastRecvSequence hPlaced.view]
          exact hBehind
        · rw [hPlaced.view, slots_withQueue, hHold]
          exact Function.update_self _ _ _
    · refine .inserted ?_
      rw [hPlaced.inserted]
      exact List.mem_append_left _ (hSettled.inserted hWrap hInv
        hPlaced.own hSent hNe)

/- Every step that loses nothing keeps what is acknowledged. -/
theorem AcksKept.step
    (hStrategy : cfg.inorderStrategy ≠ .noInorder)
    (hReliable : cfg.reliableEnabled = true)
    (hWrap : ch'.log.length + 1011 < 2 ^ 32)
    (hInv : ChannelInvariant fmt cfg d c ch)
    (hShelving : Shelving cfg c ch)
    (hKept : AcksKept fmt cfg c ch)
    (hLoses : LosesNothing fmt cfg c ch move)
    (hStep : ChannelSteps fmt cfg d c ch move ch') :
    AcksKept fmt cfg c ch' := by
  rcases hStep.log_eq with ⟨more, hLog⟩
  have hLength : ch.log.length ≤ ch'.log.length := by
    rw [hLog, List.length_append]
    omega
  -- a number that was acknowledged is that of an old packet
  have hOlder : ∀ i y bytes, ch'.log[i]? = some (y, bytes) →
      numberAt i ∈ ch.acked → ch.log[i]? = some (y, bytes) := by
    intro i y bytes hSent hAcked
    rcases hInv.acked _ hAcked with ⟨k, hk, hEq⟩
    have hi := (List.getElem?_eq_some_iff.mp hSent).1
    have hSame : i = k := numberAt_inj (by omega) (by omega)
      hEq
    subst hSame
    rw [hLog, List.getElem?_append_left hk] at hSent
    exact hSent
  have hEffect := hStep.effect hReliable hInv
  intro i y bytes hSent hNe hAcked
  cases hEffect with
  | @quiet _ conn conn' hConn hConn' hView hInserted hSame =>
      rcases hInv.shelved with ⟨conn₀, hConn₀, hShelved⟩
      cases hConn.symm.trans hConn₀
      rw [hSame] at hAcked
      cases hKept i y bytes (hOlder i y bytes hSent hAcked) hNe
          hAcked with
      | inserted hQueued =>
          exact .inserted (hInserted ▸ hQueued)
      | @shelved conn₁ q hConn₁ hBehind hSlot hCarries =>
          cases hConn.symm.trans hConn₁
          refine .shelved hConn' ?_ ?_
            (hStep.kept (hShelved _ _ hSlot).1 hCarries).2
          · rw [show conn'.lastRecvSequence =
              conn.lastRecvSequence from congrArg
                InorderView.lastRecvSequence hView]
            exact hBehind
          · rw [hView, slots_withQueue]
            exact hSlot
  | @data m p e k conn conn' w status taken positions
      hProcesses hReceiver hPlaced =>
      rcases hInv.shelved with ⟨conn₀, hConn₀, hShelved⟩
      cases hPlaced.before.symm.trans hConn₀
      have hSameLog : ch'.log = ch.log := by
        cases hStep
        exact Channel.received_log _ _
      rw [hSameLog] at hSent hWrap
      have hOld : ∀ j q, conn.inorderView.slots
          cfg.inorderStrategy j = some q →
            q < ch.receiver.nextPacket ∧
              e.packets q = ch.receiver.packets q := by
        intro j q hq
        have hLt := (hShelved j q hq).1
        cases hStep with
        | receiver hMoves =>
            rcases hMoves.processed hProcesses with
              ⟨-, -, -, -, -, hPackets⟩
            exact ⟨hLt, hPackets q hLt⟩
      have hNew : ∀ number bytes,
          fmt.Carries number bytes (e.packets p) →
            fmt.Carries number bytes
              (ch'.receiver.packets p) := by
        intro number bytes hCarries
        have hLt : p < e.nextPacket := by
          cases hStep with
          | receiver hMoves =>
              exact (hMoves.processed hProcesses).1
        exact (hStep.kept_processed hProcesses hLt hCarries).2
      have hNumber : fmt.getWord .sequenceNumber
          (e.packets p) = numberAt k := by
        rcases hPlaced.own with ⟨_, _, -, hCarries⟩
        exact hCarries.number
      have hGuard := hLoses p e conn hProcesses hReceiver
        hPlaced.before
      rw [hNumber] at hGuard
      rw [hPlaced.acked] at hAcked
      by_cases hSame : i = k
      · subst hSame
        exact .arrives hStrategy hWrap hInv hPlaced hNew
          (fun hOther => (hGuard hOther).1) hSent hNe
      · have hBefore : numberAt i ∈ ch.acked := by
          rcases List.mem_append.mp hAcked with hIn | hIn
          · exact hIn
          · have hi := (List.getElem?_eq_some_iff.mp hSent).1
            have hk := hPlaced.own.lt
            exact absurd (numberAt_inj (by omega) (by omega)
              (List.mem_singleton.mp hIn)) hSame
        have hWas := hKept i y bytes hSent hNe hBefore
        by_cases hAccepted :
            IsAccepted cfg.inorderStrategy (numberAt k) conn
        · exact hWas.accepted hStrategy hWrap hShelving hStep
            hPlaced hOld hAccepted hBefore hSent hNe
        · exact hWas.notAccepted hWrap hInv hStep hPlaced hNew
            hOld hAccepted (hGuard hAccepted).2 hSent hNe

/- At the start nothing is acknowledged. -/
theorem JustStarted.shelving
    (hStart : JustStarted fmt cfg d c ch) :
    Shelving cfg c ch := by
  refine ⟨fun _ _ _ => hStart.acked, ?_⟩
  intro hHold conn hConn
  rcases hStart.receiver with
    ⟨r, -, fresh, h, a, sa, hCall⟩
  cases hCall with
  | establish _ _ hEstablish =>
      rw [nbEstablish_conns hEstablish, Function.update_self]
        at hConn
      cases hConn
      have hView := openedConn_inorderView cfg fresh
        (r.hostLocalId h) h a sa r.nextPacket
      have hZero := congrArg InorderView.maxOooSequence hView
      have hNone : (establishedConn cfg fresh (r.hostLocalId h)
          a sa).inorderView.maxOooSequence = 0 := by
        simp [establishedConn, hHold, Connection.inorderView]
      rw [hNone] at hZero
      rw [show (openedConn cfg fresh (r.hostLocalId h) h a sa
        r.nextPacket).maxOooSequence = 0 from hZero]
      exact Nat.lt_of_lt_of_le (by decide)
        (Nat.le_add_right 1011 _)

/-
  Over any network, an acknowledged payload is in the input
  queue or waits in its slot, as long as no payload is dropped
  as late and none displaced from its slot.
-/
theorem acksKept_of_run
    {start : Channel P}
    {moves : List (ChannelMove P)}
    (hStrategy : cfg.inorderStrategy ≠ .noInorder)
    (hReliable : cfg.reliableEnabled = true)
    (hStart : JustStarted fmt cfg d c start)
    (hRun : Run (Guarded (LosesNothing fmt cfg c)
      (ChannelSteps fmt cfg d c)) start moves ch)
    (hWrap : ch.log.length + 1011 < 2 ^ 32) :
    AcksKept fmt cfg c ch := by
  let kept : Channel P → Prop := fun ch₁ =>
    ChannelInvariant fmt cfg d c ch₁ ∧
      (ch₁.log.length + 1011 < 2 ^ 32 →
        Shelving cfg c ch₁ ∧ AcksKept fmt cfg c ch₁)
  have hStep : ∀ ch₁ move ch₂, kept ch₁ →
      Guarded (LosesNothing fmt cfg c)
        (ChannelSteps fmt cfg d c) ch₁ move ch₂ →
      kept ch₂ := by
    rintro ch₁ move ch₂ ⟨hInv, hBoth⟩ ⟨hLoses, hStep⟩
    refine ⟨hInv.step hReliable hStep, ?_⟩
    intro hLength
    rcases hStep.log_eq with ⟨more, hLog⟩
    have hBefore : ch₁.log.length + 1011 < 2 ^ 32 := by
      rw [hLog, List.length_append] at hLength
      omega
    rcases hBoth hBefore with ⟨hShelving, hKept⟩
    exact ⟨hShelving.step hStrategy hReliable hBefore hInv
      hStep, hKept.step hStrategy hReliable hLength hInv
        hShelving hLoses hStep⟩
  have hBegin : kept start := by
    refine ⟨hStart.invariant hReliable, fun _ =>
      ⟨hStart.shelving, ?_⟩⟩
    intro i y bytes _ _ hAcked
    rw [hStart.acked] at hAcked
    cases hAcked
  exact ((hRun.invariant hStep hBegin).2 hWrap).2

end Kept

/- The second packet arrives first, and is kept. -/
theorem acksKept_of_run_late :
    ∃ ch : Channel PacketBuffer, ch.log.length = 2 ∧
      ch.acked = [numberAt 1] ∧
      AcksKept netPacketFormat (reliably .holdForever) 1
        ch := by
  have hLoses : ∀ (ch : Channel PacketBuffer) m conn,
      ch.receiver.conns 1 = some conn →
      conn.inorderView = blankConnection.inorderView →
        LosesNothing netPacketFormat (reliably .holdForever) 1
          ch (.receiver m) := by
    intro ch m conn hConn hView p e conn₁ _ _ hConn₁ hOther
    cases hConn.symm.trans hConn₁
    have hLast : conn.lastRecvSequence = 0 :=
      congrArg InorderView.lastRecvSequence hView
    exact absurd (Or.inl hLast) hOther
  rcases exists_lateArrival .holdForever
      (fun _ _ => trivial) hLoses with
    ⟨start, moves, ch, hStart, hRun, hLength, hAcked, -⟩
  have hKept := acksKept_of_run (by decide) rfl hStart hRun
    (by rw [hLength]; decide)
  exact ⟨ch, hLength, hAcked, hKept⟩

end NetBlocks
