import Mathlib.Algebra.Group.Nat.Defs
import Mathlib.Tactic.Common

/-
  The mlx5 transport: the rotation of its send buffers, and
  the blocks of buffers that the NIC receives packets into.

  Main declarations:
    * `Mlx5Transport`
    * `Mlx5Transport.tryRecv`
    * `Mlx5Transport.pollPacket`
    * `Mlx5Transport.getNextSendBuffer`
-/

namespace NetBlocks

------------------------------------------------------------
-- The Transport
------------------------------------------------------------

/- `IBV_FRAME_SIZE` -/
def ibvFrameSize : Nat := 1024

/- `MLX5_MTU` -/
def mlx5Mtu : Nat := 1024

/- `total_cycles` -/
def totalCycles : BitVec 64 := 33554432

/-
  What is read of a `struct mlx5_cqe64`: the block and the
  slot in it that the last packet was received into, both in
  host order.
-/
structure Mlx5Cqe where
  wqeId : BitVec 16
  wqeCounter : BitVec 16
deriving DecidableEq, Repr

/- A `struct ibv_recv_wr`, with its one `struct ibv_sge`. -/
structure IbvRecvWr where
  wrId : Nat
  addr : Int
  length : Nat
  lkey : BitVec 32
deriving DecidableEq, Repr

/-
  `struct transport_t`, without the handles of the verbs
  library. `recvCqeArr` is the array of completions that the
  NIC writes, and `pendingRecv` the static variable of
  `nb_mlx5_transport.cc`.
-/
structure Mlx5Transport where
  sendBuffer : Int
  recvBuffer : Int
  recvKey : BitVec 32
  perSize : Nat
  sendBufferIndex : Nat
  recvBufferIndex : Nat
  recvCqeArr : Nat → Mlx5Cqe
  cqeIdx : Nat
  recvIndexCycle : BitVec 64
  recvIndexToPost : Nat
  recvsToPost : Nat
  pendingRecv : Nat

/- `get_recv_cycle` -/
def getRecvCycle
    (cqe : Mlx5Cqe) : BitVec 64 :=
  BitVec.ofNat 64
    (cqe.wqeId.toNat * 512 + cqe.wqeCounter.toNat)

/- The completions before any packet: a last slot is filled. -/
def noneReceived : Mlx5Cqe where
  wqeId := 65535
  wqeCounter := 511

namespace Mlx5Transport

/- The work request for a block of 512 receive buffers. -/
def blockWr
    (t : Mlx5Transport)
    (idx : Nat) : IbvRecvWr where
  wrId := idx
  addr := t.recvBuffer + t.perSize * idx
  length := t.perSize
  lkey := t.recvKey

/- `mlx5_try_transport`, as it leaves the transport. -/
def tryTransport
    (sendBuffer recvBuffer : Int)
    (recvKey : BitVec 32) : Mlx5Transport where
  sendBuffer := sendBuffer
  recvBuffer := recvBuffer
  recvKey := recvKey
  perSize := ibvFrameSize * 512
  sendBufferIndex := 0
  recvBufferIndex := 0
  recvCqeArr := fun _ => noneReceived
  cqeIdx := 0
  recvIndexCycle := getRecvCycle noneReceived
  recvIndexToPost := 0
  recvsToPost := 0
  pendingRecv := 0

/- The work requests that it posts. -/
def firstWrs
    (t : Mlx5Transport) : List IbvRecvWr :=
  (List.range 8).map t.blockWr

------------------------------------------------------------
-- Receiving
------------------------------------------------------------

/-
  How far the next completion is ahead of the packets counted,
  up to wrapping.
-/
def cycleDiff
    (t : Mlx5Transport) : BitVec 64 :=
  (getRecvCycle (t.recvCqeArr t.cqeIdx) + totalCycles -
    t.recvIndexCycle) % totalCycles

/- `get_packet_count` -/
def getPacketCount
    (t : Mlx5Transport) : Nat × Mlx5Transport :=
  if t.cycleDiff = 0 ∨ 4096 < t.cycleDiff.toNat then
    (0, t)
  else
    (t.cycleDiff.toNat, { t with
      cqeIdx := (t.cqeIdx + 1) % 8
      recvIndexCycle :=
        getRecvCycle (t.recvCqeArr t.cqeIdx) })

/- The transport once one more block is posted. -/
def blockPosted
    (t : Mlx5Transport) : Mlx5Transport :=
  { t with
    recvIndexToPost := (t.recvIndexToPost + 1) % 8
    recvsToPost := t.recvsToPost - 512 }

/-
  The loop of `mlx5_try_recv`, with the work requests that it
  posts. Every turn takes 512 off `recvs_to_post`, which
  bounds the turns.
-/
def postBlocks :
    Nat → Mlx5Transport → List IbvRecvWr × Mlx5Transport
| 0, t => ([], t)
| fuel + 1, t =>
    if 512 ≤ t.recvsToPost then
      let rest := postBlocks fuel t.blockPosted
      (t.blockWr t.recvIndexToPost :: rest.1, rest.2)
    else
      ([], t)

/- The transport with more packets counted. -/
def toPost
    (count : Nat)
    (t : Mlx5Transport) : Mlx5Transport :=
  { t with recvsToPost := t.recvsToPost + count }

/- `mlx5_try_recv`, with the work requests that it posts. -/
def tryRecv
    (t : Mlx5Transport) :
    Nat × List IbvRecvWr × Mlx5Transport :=
  let counted := t.getPacketCount
  let t := counted.2.toPost counted.1
  (counted.1, postBlocks t.recvsToPost t)

/- `mlx5_get_next_recv_buffer` -/
def getNextRecvBuffer
    (t : Mlx5Transport) : Int × Mlx5Transport :=
  (t.recvBuffer + ibvFrameSize * t.recvBufferIndex,
    { t with
      recvBufferIndex := (t.recvBufferIndex + 1) % 4096 })

/- The first half of `nb__poll_packet`. -/
def pollRecv
    (t : Mlx5Transport) :
    List IbvRecvWr × Mlx5Transport :=
  if t.pendingRecv = 0 then
    let received := t.tryRecv
    (received.2.1,
      { received.2.2 with pendingRecv := received.1 })
  else
    ([], t)

/-
  `nb__poll_packet`: the packet it returns, if any, and its
  size, and the transport as it leaves it.
-/
def pollPacket
    (headroom : Int)
    (t : Mlx5Transport) :
    Option Int × Nat × Mlx5Transport :=
  let t := t.pollRecv.2
  if t.pendingRecv ≠ 0 then
    let next := t.getNextRecvBuffer
    (some (next.1 - headroom), mlx5Mtu,
      { next.2 with pendingRecv := t.pendingRecv - 1 })
  else
    (none, 0, t)

------------------------------------------------------------
-- Sending
------------------------------------------------------------

/- `mlx5_get_next_send_buffer` -/
def getNextSendBuffer
    (t : Mlx5Transport) : Int × Mlx5Transport :=
  (t.sendBuffer + ibvFrameSize * t.sendBufferIndex,
    { t with
      sendBufferIndex := (t.sendBufferIndex + 1) % 512 })

------------------------------------------------------------
-- What the Loop Posts
------------------------------------------------------------

section Posts

variable {t : Mlx5Transport}

theorem getPacketCount_cases
    (t : Mlx5Transport) :
    t.getPacketCount = (0, t) ∨
      t.cycleDiff ≠ 0 ∧ t.cycleDiff.toNat ≤ 4096 ∧
        t.getPacketCount = (t.cycleDiff.toNat, { t with
          cqeIdx := (t.cqeIdx + 1) % 8
          recvIndexCycle :=
            getRecvCycle (t.recvCqeArr t.cqeIdx) }) := by
  unfold getPacketCount
  by_cases hNone : t.cycleDiff = 0 ∨ 4096 < t.cycleDiff.toNat
  · exact Or.inl (if_pos hNone)
  · rw [if_neg hNone]
    rw [not_or, Nat.not_lt] at hNone
    exact Or.inr ⟨hNone.1, hNone.2, rfl⟩

/-
  The loop posts the next blocks in rotation, one for every
  512 packets, and less than 512 remain.
-/
theorem postBlocks_eq
    (fuel : Nat)
    (hFuel : t.recvsToPost ≤ fuel)
    (hNext : t.recvIndexToPost < 8) :
    postBlocks fuel t =
      ((List.range (t.recvsToPost / 512)).map (fun i =>
          t.blockWr ((t.recvIndexToPost + i) % 8)),
        { t with
          recvIndexToPost :=
            (t.recvIndexToPost + t.recvsToPost / 512) % 8
          recvsToPost := t.recvsToPost % 512 }) := by
  induction fuel generalizing t with
  | zero =>
      have hZero : t.recvsToPost = 0 := by omega
      rw [postBlocks, hZero]
      refine Prod.ext rfl ?_
      change t = { t with
        recvIndexToPost := (t.recvIndexToPost + 0) % 8
        recvsToPost := 0 }
      rw [Nat.add_zero, Nat.mod_eq_of_lt hNext, ← hZero]
  | succ fuel ih =>
      rw [postBlocks]
      by_cases hMore : 512 ≤ t.recvsToPost
      · rw [if_pos hMore]
        have hCount : t.recvsToPost / 512 =
            (t.recvsToPost - 512) / 512 + 1 := by omega
        have hRest := ih (t := t.blockPosted)
          (by simp only [blockPosted]; omega)
          (Nat.mod_lt _ (by decide))
        dsimp only
        rw [hRest, hCount, List.range_succ_eq_map,
          List.map_cons, List.map_map]
        refine Prod.ext ?_ ?_
        · change _ :: _ = _ :: _
          rw [Nat.add_zero, Nat.mod_eq_of_lt hNext]
          refine congrArg _ (List.map_congr_left ?_)
          intro i _
          rw [blockPosted, Function.comp_apply,
            Nat.mod_add_mod, Nat.add_assoc, Nat.add_comm 1]
          rfl
        · change Mlx5Transport.mk .. = Mlx5Transport.mk ..
          simp only [blockPosted, Nat.mod_add_mod,
            Mlx5Transport.mk.injEq, true_and, and_true]
          omega
      · rw [if_neg hMore]
        have hZero : t.recvsToPost / 512 = 0 := by omega
        rw [hZero, Nat.add_zero, Nat.mod_eq_of_lt hNext,
          Nat.mod_eq_of_lt (Nat.lt_of_not_le hMore)]
        rfl

theorem pollRecv_of_pending
    (hPending : t.pendingRecv ≠ 0) :
    t.pollRecv = ([], t) :=
  if_neg hPending

/- A poll with nothing pending counts and posts. -/
theorem pollRecv_of_counted
    {n idx : Nat}
    {cycle : BitVec 64}
    (hPending : t.pendingRecv = 0)
    (hNext : t.recvIndexToPost < 8)
    (hCount : t.getPacketCount = (n, { t with
      cqeIdx := idx
      recvIndexCycle := cycle })) :
    t.pollRecv =
      ((List.range ((t.recvsToPost + n) / 512)).map (fun i =>
          t.blockWr ((t.recvIndexToPost + i) % 8)),
        { t with
          cqeIdx := idx
          recvIndexCycle := cycle
          recvIndexToPost := (t.recvIndexToPost +
            (t.recvsToPost + n) / 512) % 8
          recvsToPost := (t.recvsToPost + n) % 512
          pendingRecv := n }) := by
  let counted : Mlx5Transport := { t with
    cqeIdx := idx
    recvIndexCycle := cycle
    recvsToPost := t.recvsToPost + n }
  have hPosts := postBlocks_eq (t := counted)
    (t.recvsToPost + n) (Nat.le_refl _) hNext
  have hRecv : t.tryRecv =
      (n, postBlocks (t.recvsToPost + n) counted) := by
    unfold tryRecv
    rw [hCount]
    rfl
  rw [pollRecv, if_pos hPending, hRecv, hPosts]
  rfl

/- The second half of `nb__poll_packet`. -/
theorem pollPacket_eq
    (headroom : Int)
    (t : Mlx5Transport) :
    t.pollPacket headroom =
      if t.pollRecv.2.pendingRecv ≠ 0 then
        (some (t.pollRecv.2.getNextRecvBuffer.1 - headroom),
          mlx5Mtu,
          { t.pollRecv.2.getNextRecvBuffer.2 with
            pendingRecv := t.pollRecv.2.pendingRecv - 1 })
      else
        (none, 0, t.pollRecv.2) :=
  rfl

/-
  Polling counts, posts, and hands out packets. What does not
  depend on the members for these stays as it is.
-/
section Keeps

variable
    {α : Type}
    (f : Mlx5Transport → α)
    (hPosted : ∀ t, f (blockPosted t) = f t)
    (hCounted : ∀ (t : Mlx5Transport) idx cycle,
      f { t with cqeIdx := idx, recvIndexCycle := cycle } =
        f t)
    (hToPost : ∀ n t, f (toPost n t) = f t)
    (hPending : ∀ (t : Mlx5Transport) n,
      f { t with pendingRecv := n } = f t)

include hPosted in
theorem postBlocks_keeps
    (fuel : Nat)
    (t : Mlx5Transport) :
    f (postBlocks fuel t).2 = f t := by
  induction fuel generalizing t with
  | zero => rfl
  | succ fuel ih =>
      rw [postBlocks]
      split
      · exact (ih t.blockPosted).trans (hPosted t)
      · rfl

include hCounted in
theorem getPacketCount_keeps
    (t : Mlx5Transport) :
    f t.getPacketCount.2 = f t := by
  rcases t.getPacketCount_cases with hNone | ⟨-, -, hSome⟩
  · rw [hNone]
  · rw [hSome]
    exact hCounted t _ _

include hPosted hCounted hToPost hPending

theorem pollRecv_keeps
    (t : Mlx5Transport) :
    f t.pollRecv.2 = f t := by
  have hCount := getPacketCount_keeps f hCounted t
  rcases hEq : t.getPacketCount with ⟨n, counted⟩
  rw [hEq] at hCount
  have hPosts := postBlocks_keeps f hPosted
    (counted.recvsToPost + n) (counted.toPost n)
  rw [pollRecv]
  split
  · rw [tryRecv, hEq]
    exact (hPending _ _).trans
      (hPosts.trans ((hToPost n counted).trans hCount))
  · rfl

end Keeps

/- Polling leaves the send buffers alone. -/
theorem pollPacket_sendBufferIndex
    (headroom : Int)
    (t : Mlx5Transport) :
    (t.pollPacket headroom).2.2.sendBufferIndex =
      t.sendBufferIndex := by
  have hPoll := pollRecv_keeps sendBufferIndex
    (fun _ => rfl) (fun _ _ _ => rfl) (fun _ _ => rfl)
    (fun _ _ => rfl) t
  rw [pollPacket_eq]
  split
  · exact hPoll
  · exact hPoll

/- Packets are polled from the receive buffers in rotation. -/
theorem pollPacket_addr
    {headroom p : Int}
    {size : Nat}
    {t t' : Mlx5Transport}
    (hPoll : t.pollPacket headroom = (some p, size, t')) :
    p = t.recvBuffer - headroom +
        ibvFrameSize * t.recvBufferIndex ∧
      t'.recvBufferIndex = (t.recvBufferIndex + 1) % 4096 := by
  have hKept := pollRecv_keeps
    (fun t => (t.recvBuffer, t.recvBufferIndex))
    (fun _ => rfl) (fun _ _ _ => rfl) (fun _ _ => rfl)
    (fun _ _ => rfl) t
  have hBuffer := congrArg Prod.fst hKept
  have hIndex := congrArg Prod.snd hKept
  dsimp only at hBuffer hIndex
  rw [pollPacket_eq] at hPoll
  split at hPoll
  · cases hPoll
    simp only [getNextRecvBuffer, hBuffer, hIndex, and_true]
    omega
  · cases hPoll

end Posts

end Mlx5Transport

end NetBlocks
