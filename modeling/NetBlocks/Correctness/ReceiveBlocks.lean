import NetBlocks.Lib.Runs
import NetBlocks.Runtime.Mlx5Transport

/-
  The blocks of receive buffers that the mlx5 transport gives
  to the NIC, over any sequence of completions and polls.

  Main declarations:
    * `ReceiveLink` and `ReceiveSteps`
    * `Repost` and `Repost.IsFree`
    * `ReceiveLink.Counted`
    * `reposts_used_of_run`
-/

namespace NetBlocks

open TransitionSystem

------------------------------------------------------------
-- The NIC and the Transport
------------------------------------------------------------

/-
  A block that is posted again: the blocks posted before it,
  the number of packets in them by then, and the packets that
  `nb__poll_packet` has returned.
-/
structure Repost where
  wr : IbvRecvWr
  postings : List IbvRecvWr
  filled : Nat
  returned : List Int

/-
  The transport with the NIC. The NIC puts packets in the
  slots of the posted blocks, in the order of `postings`, and
  announces them in the completions of a ring of eight.
-/
structure ReceiveLink where
  transport : Mlx5Transport
  postings : List IbvRecvWr
  filled : Nat
  completions : Nat
  returned : List Int
  reposts : List Repost

/-
  The completion that announces the packets up to a position:
  the block and the slot of the last one.
-/
def cqeAt
    (position : Nat) : Mlx5Cqe where
  wqeId := BitVec.ofNat 16 ((position + 33554431) / 512)
  wqeCounter := BitVec.ofNat 16 ((position + 33554431) % 512)

namespace ReceiveLink

/- The transport as it is set up, before any packet. -/
def start
    (sendBuffer recvBuffer : Int)
    (recvKey : BitVec 32) : ReceiveLink :=
  let t := Mlx5Transport.tryTransport sendBuffer recvBuffer
    recvKey
  { transport := t
    postings := t.firstWrs
    filled := 0
    completions := 0
    returned := []
    reposts := [] }

/- The NIC received more packets. -/
def completed
    (n : Nat)
    (l : ReceiveLink) : ReceiveLink :=
  { l with
    transport := { l.transport with
      recvCqeArr :=
        Function.update l.transport.recvCqeArr
          (l.completions % 8) (cqeAt (l.filled + n)) }
    filled := l.filled + n
    completions := l.completions + 1 }

/- What is known when blocks are posted one after another. -/
def repostsOf
    (l : ReceiveLink)
    (wrs : List IbvRecvWr) : List Repost :=
  wrs.mapIdx (fun i wr =>
    { wr := wr
      postings := l.postings ++ wrs.take i
      filled := l.filled
      returned := l.returned })

/- A call of `nb__poll_packet`. -/
def polled
    (headroom : Int)
    (l : ReceiveLink) : ReceiveLink :=
  let wrs := l.transport.pollRecv.1
  let poll := l.transport.pollPacket headroom
  { l with
    transport := poll.2.2
    postings := l.postings ++ wrs
    returned := l.returned ++ poll.1.toList
    reposts := l.reposts ++ l.repostsOf wrs }

end ReceiveLink

inductive ReceiveEvent where
| completes (n : Nat)
| polls

/- Packets arrive where blocks are posted, or are polled. -/
inductive ReceiveSteps
    (headroom : Int) :
    ReceiveLink → ReceiveEvent → ReceiveLink → Prop
| completes {l : ReceiveLink} {n : Nat} :
    1 ≤ n → n ≤ 4096 →
    l.filled + n ≤ 512 * l.postings.length →
    ReceiveSteps headroom l (.completes n) (l.completed n)
| polls {l : ReceiveLink} :
    ReceiveSteps headroom l .polls (l.polled headroom)

------------------------------------------------------------
-- Blocks That Are in Use
------------------------------------------------------------

/- The slot that a packet is received into. -/
def IbvRecvWr.slotAddr
    (position : Nat)
    (wr : IbvRecvWr) : Int :=
  wr.addr + ibvFrameSize * (position % 512 : Nat)

/- The block was posted as number `k`, and not since then. -/
def LastPosted
    (wr : IbvRecvWr)
    (postings : List IbvRecvWr)
    (k : Nat) : Prop :=
  postings[k]? = some wr ∧
    ∀ k', k < k' → postings[k']? ≠ some wr

/-
  Every packet that the block holds since it was posted last
  has been returned.
-/
def Repost.IsFree
    (headroom : Int)
    (r : Repost) : Prop :=
  ∀ j < r.filled, LastPosted r.wr r.postings (j / 512) →
    r.returned[j]? = some (r.wr.slotAddr j - headroom)

------------------------------------------------------------
-- Counting
------------------------------------------------------------

namespace ReceiveLink

/- The packets that `mlx5_try_recv` has counted so far. -/
def counted
    (l : ReceiveLink) : Nat :=
  l.returned.length + l.transport.pendingRecv

/-
  How the counters of the transport, the completions, and the
  blocks posted belong together. The completion in a place of
  the ring lags behind by the completions after it.
-/
structure Counted
    (headroom : Int)
    (l : ReceiveLink) : Prop where
  completions : ∃ position : Nat → Nat, ∀ i < 8,
    l.transport.recvCqeArr i = cqeAt (position i) ∧
      position i ≤ l.filled ∧
      l.filled ≤ position i +
        4096 * ((l.completions + 7 - i) % 8)
  cqeIdx : l.transport.cqeIdx < 8
  cycle : l.transport.recvIndexCycle =
    getRecvCycle (cqeAt l.counted)
  counted_le : l.counted ≤ l.filled
  blocks : l.counted =
    512 * l.reposts.length + l.transport.recvsToPost
  short : l.transport.recvsToPost < 512
  nextBlock : l.transport.recvIndexToPost =
    l.reposts.length % 8
  postings : l.postings =
    (List.range (8 + l.reposts.length)).map
      (fun k => l.transport.blockWr (k % 8))
  perSize : l.transport.perSize = ibvFrameSize * 512
  nextBuffer : l.transport.recvBufferIndex =
    l.returned.length % 4096
  returned : ∀ j addr, l.returned[j]? = some addr →
    addr = l.transport.recvBuffer +
      ibvFrameSize * (j % 4096 : Nat) - headroom
  used : ∀ r ∈ l.reposts, ¬ r.IsFree headroom

end ReceiveLink

section Counting

variable
    {headroom : Int}
    {l l' : ReceiveLink}
    {t : Mlx5Transport}
    {n p q : Nat}

/- The position of the last packet, up to wrapping. -/
theorem toNat_getRecvCycle
    (p : Nat) :
    (getRecvCycle (cqeAt p)).toNat =
      (p + 33554431) % 33554432 := by
  simp only [getRecvCycle, cqeAt, BitVec.toNat_ofNat]
  omega

theorem toNat_cycleDiff
    (hCqe : t.recvCqeArr t.cqeIdx = cqeAt p)
    (hCycle : t.recvIndexCycle = getRecvCycle (cqeAt q)) :
    t.cycleDiff.toNat =
      ((p + 33554431) % 33554432 + 33554432 -
        (q + 33554431) % 33554432) % 33554432 := by
  have hP := toNat_getRecvCycle p
  have hQ := toNat_getRecvCycle q
  rw [Mlx5Transport.cycleDiff, hCqe, hCycle,
    BitVec.toNat_umod, BitVec.toNat_sub, BitVec.toNat_add,
    hP, hQ]
  have hTotal : totalCycles.toNat = 33554432 := rfl
  rw [hTotal]
  omega

/-
  What `get_packet_count` counts is there: a completion that
  was overwritten, or was not written yet, counts nothing.
-/
theorem getPacketCount_counted
    (hCounted : l.Counted headroom) :
    ∃ n idx cycle,
      l.transport.getPacketCount = (n, { l.transport with
        cqeIdx := idx
        recvIndexCycle := cycle }) ∧
      idx < 8 ∧
      cycle = getRecvCycle (cqeAt (l.counted + n)) ∧
      l.counted + n ≤ l.filled := by
  rcases l.transport.getPacketCount_cases with
    hNone | ⟨hNe, hLe, hSome⟩
  · exact ⟨0, l.transport.cqeIdx, l.transport.recvIndexCycle,
      hNone, hCounted.cqeIdx, hCounted.cycle,
      hCounted.counted_le⟩
  · rcases hCounted.completions with ⟨position, hPosition⟩
    rcases hPosition l.transport.cqeIdx hCounted.cqeIdx with
      ⟨hCqe, hOld, hLag⟩
    have hDiff := toNat_cycleDiff hCqe hCounted.cycle
    have hPos : 0 < l.transport.cycleDiff.toNat :=
      Nat.pos_of_ne_zero (fun hZero =>
        hNe (BitVec.eq_of_toNat_eq hZero))
    have hLe' := hCounted.counted_le
    refine ⟨l.transport.cycleDiff.toNat, _, _, hSome,
      Nat.mod_lt _ (by decide), ?_, ?_⟩
    · rw [hCqe]
      apply BitVec.eq_of_toNat_eq
      rw [toNat_getRecvCycle, toNat_getRecvCycle, hDiff]
      omega
    · omega

------------------------------------------------------------
-- Posting
------------------------------------------------------------

/- A call of `nb__poll_packet`, up to `mlx5_try_recv`. -/
def ReceiveLink.received
    (l : ReceiveLink) : ReceiveLink :=
  { l with
    transport := l.transport.pollRecv.2
    postings := l.postings ++ l.transport.pollRecv.1
    reposts := l.reposts ++
      l.repostsOf l.transport.pollRecv.1 }

/-
  A block that is posted once its last packet is counted is
  in use: that packet was not returned yet.
-/
theorem repost_used
    {m : Nat}
    {r : Repost}
    (hWr : r.wr = t.blockWr (m % 8))
    (hPostings : r.postings =
      (List.range (8 + m)).map (fun k => t.blockWr (k % 8)))
    (hFilled : 512 * (m + 1) ≤ r.filled)
    (hReturned : r.returned.length < 512 * (m + 1)) :
    ¬ r.IsFree headroom := by
  intro hFree
  let j := 512 * m + 511
  have hBlock : j / 512 = m := by omega
  have hLast : LastPosted r.wr r.postings (j / 512) := by
    rw [hBlock, hWr, hPostings]
    constructor
    · rw [List.getElem?_map, List.getElem?_range (by omega)]
      rfl
    · intro k hLater hSame
      rw [List.getElem?_map] at hSame
      rcases Option.map_eq_some_iff.mp hSame with
        ⟨k', hk', hEq⟩
      rcases List.getElem?_eq_some_iff.mp hk' with
        ⟨hLt, hGet⟩
      rw [List.length_range] at hLt
      rw [List.getElem_range] at hGet
      have hId : k' % 8 = m % 8 :=
        congrArg IbvRecvWr.wrId hEq
      omega
  have hThere := hFree j (by omega) hLast
  have hIn := (List.getElem?_eq_some_iff.mp hThere).1
  omega

/- Counting packets and posting blocks keep the counters. -/
theorem ReceiveLink.Counted.received
    (hCounted : l.Counted headroom) :
    l.received.Counted headroom := by
  by_cases hPending : l.transport.pendingRecv = 0
  · rcases getPacketCount_counted hCounted with
      ⟨n, idx, cycle, hCount, hIdx, hCycle, hLe⟩
    have hNext : l.transport.recvIndexToPost < 8 := by
      rw [hCounted.nextBlock]
      exact Nat.mod_lt _ (by decide)
    have hPoll := Mlx5Transport.pollRecv_of_counted hPending
      hNext hCount
    have hBlocks := hCounted.blocks
    have hShort := hCounted.short
    have hNothing : l.counted = l.returned.length := by
      rw [ReceiveLink.counted, hPending]
      rfl
    -- the blocks that the new packets complete
    let k := (l.transport.recvsToPost + n) / 512
    let m := l.reposts.length
    have hWrs : l.transport.pollRecv.1 = (List.range k).map
        (fun i => l.transport.blockWr ((m + i) % 8)) := by
      rw [hPoll]
      apply List.map_congr_left
      intro i _
      rw [hCounted.nextBlock, Nat.mod_add_mod]
    have hLength : (l.repostsOf
        l.transport.pollRecv.1).length = k := by
      rw [ReceiveLink.repostsOf, List.length_mapIdx, hWrs,
        List.length_map, List.length_range]
    have hAppend : ∀ i, l.postings ++ (List.range i).map
        (fun i => l.transport.blockWr ((m + i) % 8)) =
        (List.range (8 + (m + i))).map
          (fun k => l.transport.blockWr (k % 8)) := by
      intro i
      have hRange : List.range (8 + (m + i)) =
          List.range (8 + m) ++
            (List.range i).map (8 + m + ·) := by
        rw [← Nat.add_assoc, List.range_add]
      rw [hCounted.postings, hRange, List.map_append,
        List.map_map]
      refine congrArg _ (List.map_congr_left ?_)
      intro i' _
      rw [Function.comp_apply, Nat.add_assoc,
        Nat.add_mod_left]
    have hTotal : l.received.counted = l.counted + n := by
      rw [hNothing]
      change l.returned.length +
        l.transport.pollRecv.2.pendingRecv = _
      rw [hPoll]
    have hReposts : l.received.reposts.length = m + k := by
      change (l.reposts ++ _).length = _
      rw [List.length_append, hLength]
    constructor
    · rcases hCounted.completions with ⟨position, hPosition⟩
      refine ⟨position, ?_⟩
      intro i hi
      change l.transport.pollRecv.2.recvCqeArr i = _ ∧ _
      rw [hPoll]
      exact hPosition i hi
    · change l.transport.pollRecv.2.cqeIdx < 8
      rw [hPoll]
      exact hIdx
    · rw [hTotal, ← hCycle]
      change l.transport.pollRecv.2.recvIndexCycle = cycle
      rw [hPoll]
    · rw [hTotal]
      exact hLe
    · rw [hTotal, hReposts]
      change _ = _ + l.transport.pollRecv.2.recvsToPost
      rw [hPoll]
      dsimp only
      omega
    · change l.transport.pollRecv.2.recvsToPost < 512
      rw [hPoll]
      exact Nat.mod_lt _ (by decide)
    · rw [hReposts]
      change l.transport.pollRecv.2.recvIndexToPost = _
      rw [hPoll]
      change (l.transport.recvIndexToPost + k) % 8 = _
      rw [hCounted.nextBlock, Nat.mod_add_mod]
    · rw [hReposts]
      change l.postings ++ l.transport.pollRecv.1 = _
      rw [hWrs, hAppend k]
      apply List.map_congr_left
      intro i _
      change l.transport.blockWr (i % 8) =
        l.transport.pollRecv.2.blockWr (i % 8)
      rw [hPoll]
      rfl
    · change l.transport.pollRecv.2.perSize = _
      rw [hPoll]
      exact hCounted.perSize
    · change l.transport.pollRecv.2.recvBufferIndex = _
      rw [hPoll]
      exact hCounted.nextBuffer
    · intro j addr hAddr
      change _ = l.transport.pollRecv.2.recvBuffer + _ - _
      rw [hPoll]
      exact hCounted.returned j addr hAddr
    · intro r hr
      rcases List.mem_append.mp hr with hOld | hNew
      · exact hCounted.used r hOld
      · rcases List.mem_mapIdx.mp hNew with ⟨i, hi, rfl⟩
        rw [hWrs, List.length_map, List.length_range] at hi
        refine repost_used (t := l.transport) (m := m + i)
          ?_ ?_ ?_ ?_
        · simp only [hWrs, List.getElem_map,
            List.getElem_range]
        · rw [← hAppend i]
          change l.postings ++ _ = _
          rw [hWrs, ← List.map_take, List.take_range,
            Nat.min_eq_left (Nat.le_of_lt hi)]
        · change 512 * (m + i + 1) ≤ l.filled
          omega
        · change l.returned.length < 512 * (m + i + 1)
          omega
  · have hSame : l.received = l := by
      have hPoll := Mlx5Transport.pollRecv_of_pending
        hPending
      rw [ReceiveLink.received, hPoll]
      change ReceiveLink.mk _ (l.postings ++ []) _ _ _
        (l.reposts ++ []) = l
      rw [List.append_nil, List.append_nil]
    rw [hSame]
    exact hCounted

/- A packet that is returned was counted before. -/
theorem ReceiveLink.polled_cases
    (headroom : Int)
    (l : ReceiveLink) :
    l.received.transport.pendingRecv = 0 ∧
        l.polled headroom = l.received ∨
      l.received.transport.pendingRecv ≠ 0 ∧
        l.polled headroom = { l.received with
          transport := {
            l.received.transport.getNextRecvBuffer.2 with
            pendingRecv :=
              l.received.transport.pendingRecv - 1 }
          returned := l.returned ++
            [l.received.transport.getNextRecvBuffer.1 -
              headroom] } := by
  by_cases hNone : l.transport.pollRecv.2.pendingRecv = 0
  · refine Or.inl ⟨hNone, ?_⟩
    have hPoll := Mlx5Transport.pollPacket_eq headroom
      l.transport
    rw [if_neg (not_not.mpr hNone)] at hPoll
    rw [ReceiveLink.polled, hPoll]
    change ReceiveLink.mk _ _ _ _ (l.returned ++ []) _ = _
    rw [List.append_nil]
    rfl
  · refine Or.inr ⟨hNone, ?_⟩
    have hPoll := Mlx5Transport.pollPacket_eq headroom
      l.transport
    rw [if_pos hNone] at hPoll
    rw [ReceiveLink.polled, hPoll]
    rfl

theorem ReceiveLink.Counted.polled
    (hCounted : l.Counted headroom) :
    (l.polled headroom).Counted headroom := by
  have hReceived := hCounted.received
  rcases l.polled_cases headroom with
    ⟨-, hSame⟩ | ⟨hPending, hReturns⟩
  · rw [hSame]
    exact hReceived
  · have hCount : (l.polled headroom).counted =
        l.received.counted := by
      rw [hReturns, ReceiveLink.counted,
        ReceiveLink.counted, List.length_append,
        List.length_singleton]
      change l.returned.length + 1 + (_ - 1) =
        l.returned.length + _
      omega
    constructor
    · rw [hReturns]
      exact hReceived.completions
    · rw [hReturns]
      exact hReceived.cqeIdx
    · rw [hCount, hReturns]
      exact hReceived.cycle
    · rw [hCount, hReturns]
      exact hReceived.counted_le
    · rw [hCount, hReturns]
      exact hReceived.blocks
    · rw [hReturns]
      exact hReceived.short
    · rw [hReturns]
      exact hReceived.nextBlock
    · rw [hReturns]
      exact hReceived.postings
    · rw [hReturns]
      exact hReceived.perSize
    · rw [hReturns, List.length_append,
        List.length_singleton]
      change (l.received.transport.recvBufferIndex + 1) %
        4096 = _
      rw [hReceived.nextBuffer, Nat.mod_add_mod]
      rfl
    · rw [hReturns]
      intro j addr hAddr
      by_cases hOld : j < l.returned.length
      · rw [List.getElem?_append_left hOld] at hAddr
        exact hReceived.returned j addr hAddr
      · rw [List.getElem?_append_right
          (Nat.le_of_not_lt hOld)] at hAddr
        rcases List.getElem?_eq_some_iff.mp hAddr with
          ⟨hLt, hGet⟩
        rw [List.length_singleton] at hLt
        have hLast : j = l.returned.length := by omega
        rw [List.getElem_singleton] at hGet
        rw [← hGet, hLast]
        change l.received.transport.recvBuffer +
          ibvFrameSize * l.received.transport.recvBufferIndex
            - headroom = _
        rw [hReceived.nextBuffer]
        rfl
    · rw [hReturns]
      exact hReceived.used

/- A completion announces the packets that were received. -/
theorem ReceiveLink.Counted.completed
    (hFew : n ≤ 4096)
    (hCounted : l.Counted headroom) :
    (l.completed n).Counted headroom := by
  refine ⟨?_, hCounted.cqeIdx, hCounted.cycle,
    Nat.le_trans hCounted.counted_le (Nat.le_add_right _ _),
    hCounted.blocks, hCounted.short, hCounted.nextBlock,
    hCounted.postings, hCounted.perSize, hCounted.nextBuffer,
    hCounted.returned, hCounted.used⟩
  rcases hCounted.completions with ⟨position, hPosition⟩
  refine ⟨Function.update position (l.completions % 8)
    (l.filled + n), ?_⟩
  intro i hi
  change Function.update l.transport.recvCqeArr
      (l.completions % 8) _ i = _ ∧
    _ ≤ l.filled + n ∧ l.filled + n ≤ _ +
      4096 * ((l.completions + 1 + 7 - i) % 8)
  by_cases hEq : i = l.completions % 8
  · rw [hEq, Function.update_self, Function.update_self]
    exact ⟨rfl, Nat.le_refl _, Nat.le_add_right _ _⟩
  · rw [Function.update_of_ne hEq, Function.update_of_ne hEq]
    rcases hPosition i hi with ⟨hCqe, hOld, hLag⟩
    refine ⟨hCqe, Nat.le_trans hOld (Nat.le_add_right _ _),
      ?_⟩
    -- one completion more lies behind this one
    have hBehind : (l.completions + 1 + 7 - i) % 8 =
        (l.completions + 7 - i) % 8 + 1 := by omega
    rw [hBehind]
    omega

theorem ReceiveLink.counted_start
    (sendBuffer recvBuffer : Int)
    (recvKey : BitVec 32) :
    (ReceiveLink.start sendBuffer recvBuffer recvKey).Counted
      headroom := by
  have hNone : cqeAt 0 = noneReceived := by decide
  refine ⟨⟨fun _ => 0, ?_⟩, Nat.succ_pos _, ?_,
    Nat.le_refl _, rfl, Nat.succ_pos _, rfl, rfl, rfl, rfl,
    (fun j addr hNone => by cases hNone),
    fun r hr => absurd hr List.not_mem_nil⟩
  · intro i _
    exact ⟨hNone.symm, Nat.le_refl _, Nat.zero_le _⟩
  · change getRecvCycle noneReceived = getRecvCycle (cqeAt 0)
    rw [hNone]

theorem ReceiveSteps.counted
    {event : ReceiveEvent}
    (hCounted : l.Counted headroom)
    (hStep : ReceiveSteps headroom l event l') :
    l'.Counted headroom := by
  cases hStep with
  | completes _ hFew _ => exact hCounted.completed hFew
  | polls => exact hCounted.polled

/-
  The packets are returned in the order in which they were
  received, each from the slot it was received into.
-/
theorem ReceiveLink.Counted.slotAddr
    {j : Nat}
    {addr : Int}
    {wr : IbvRecvWr}
    (hCounted : l.Counted headroom)
    (hAddr : l.returned[j]? = some addr)
    (hWr : l.postings[j / 512]? = some wr) :
    addr = wr.slotAddr j - headroom := by
  rw [hCounted.postings, List.getElem?_map,
    Option.map_eq_some_iff] at hWr
  rcases hWr with ⟨k, hk, rfl⟩
  rcases List.getElem?_eq_some_iff.mp hk with ⟨hLt, hGet⟩
  rw [List.getElem_range] at hGet
  rw [hCounted.returned j addr hAddr, ← hGet,
    IbvRecvWr.slotAddr, Mlx5Transport.blockWr,
    hCounted.perSize]
  simp only [ibvFrameSize]
  omega

/-
  In every state of a run: no block was free when it was
  posted again, so that all were exactly if none was, which is
  as long as fewer than 512 packets were counted.
-/
theorem reposts_used_of_run
    {sendBuffer recvBuffer : Int}
    {recvKey : BitVec 32}
    {events : List ReceiveEvent}
    (hRun : Run (ReceiveSteps headroom)
      (.start sendBuffer recvBuffer recvKey) events l) :
    (∀ r ∈ l.reposts, ¬ r.IsFree headroom) ∧
      ((∀ r ∈ l.reposts, r.IsFree headroom) ↔
        l.counted < 512) := by
  have hCounted : l.Counted headroom := hRun.invariant
    (fun _ _ _ hCounted hStep => hStep.counted hCounted)
    (ReceiveLink.counted_start sendBuffer recvBuffer recvKey)
  refine ⟨hCounted.used, ?_⟩
  have hBlocks := hCounted.blocks
  have hShort := hCounted.short
  constructor
  · intro hFree
    have hNone : l.reposts = [] := by
      rw [List.eq_nil_iff_forall_not_mem]
      intro r hr
      exact hCounted.used r hr (hFree r hr)
    rw [hNone, List.length_nil] at hBlocks
    omega
  · intro hFew r hr
    have hPos := List.length_pos_of_mem hr
    omega

end Counting

------------------------------------------------------------
-- The First Block
------------------------------------------------------------

/- One completion of 512 packets, and one poll. -/
def firstBlock : ReceiveLink :=
  ((ReceiveLink.start 0 4096 0).completed 512).polled 0

theorem firstBlock_run :
    Run (ReceiveSteps 0) (.start 0 4096 0)
      [.completes 512, .polls] firstBlock :=
  .cons (.completes (by decide) (by decide) (by decide))
    (.cons .polls (.nil _))

theorem firstBlock_counted :
    firstBlock.counted = 512 ∧ firstBlock.reposts.length = 1 ∧
      firstBlock.returned = [4096] := by
  decide +kernel

/- Its block is posted when one packet of it is returned. -/
theorem not_forall_isFree :
    ¬ ∀ headroom sendBuffer recvBuffer recvKey events l,
      Run (ReceiveSteps headroom)
        (.start sendBuffer recvBuffer recvKey) events l →
      ∀ r ∈ l.reposts, r.IsFree headroom := by
  intro hAll
  have hFree := hAll 0 0 4096 0 _ firstBlock firstBlock_run
  have hLength := firstBlock_counted.2.1
  rcases List.length_eq_one_iff.mp hLength with ⟨r, hOne⟩
  have hMem : r ∈ firstBlock.reposts := by
    rw [hOne]
    exact List.mem_singleton_self r
  have hCounted : firstBlock.Counted 0 :=
    firstBlock_run.invariant
      (fun _ _ _ hCounted hStep => hStep.counted hCounted)
      (ReceiveLink.counted_start 0 4096 0)
  exact hCounted.used r hMem (hFree r hMem)

theorem reposts_used_of_run_first :
    firstBlock.reposts ≠ [] ∧
      (∀ r ∈ firstBlock.reposts, ¬ r.IsFree 0) ∧
      ((∀ r ∈ firstBlock.reposts, r.IsFree 0) ↔
        firstBlock.counted < 512) := by
  refine ⟨?_, reposts_used_of_run firstBlock_run⟩
  exact List.ne_nil_of_length_pos
    (Nat.lt_of_lt_of_eq Nat.one_pos
      firstBlock_counted.2.1.symm)

end NetBlocks
