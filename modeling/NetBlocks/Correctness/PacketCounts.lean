import Mathlib.Algebra.Order.Ring.Int
import NetBlocks.Correctness.ReceiveBlocks

/-
  Counting packets by the completions of the NIC: new entries
  of the ring are told from old ones by a difference that
  wraps, and what is counted is what the NIC announced.

  Main declarations:
    * `CountingLink` and `CountSteps`
    * `RingInvariant`
    * `ExactlyCounted` and `exactlyCounted_of_run`
-/

namespace NetBlocks

open TransitionSystem

------------------------------------------------------------
-- The Ring of Completions
------------------------------------------------------------

/-
  The transport, the packets announced up to each completion
  the NIC has written, how many completions were polled, and
  what the polls returned.
-/
structure CountingLink where
  transport : Mlx5Transport
  positions : List Nat
  polled : Nat
  returned : List Nat

inductive CountEvent where
| completes (n : Nat)
| polls

namespace CountingLink

def start
    (sendBuffer recvBuffer : Int)
    (recvKey : BitVec 32) : CountingLink where
  transport :=
    Mlx5Transport.tryTransport sendBuffer recvBuffer recvKey
  positions := []
  polled := 0
  returned := []

/- The packets that the first `k` completions announce. -/
def position
    (l : CountingLink)
    (k : Nat) : Nat :=
  (0 :: l.positions).getD k 0

/- The NIC announces `n` more packets in the next entry. -/
def completed
    (n : Nat)
    (l : CountingLink) : CountingLink :=
  let position := l.position l.positions.length + n
  { l with
    transport := { l.transport with
      recvCqeArr := Function.update l.transport.recvCqeArr
        (l.positions.length % 8) (cqeAt position) }
    positions := l.positions ++ [position] }

/- A call of `get_packet_count`. -/
def counted
    (l : CountingLink) : CountingLink :=
  let counted := l.transport.getPacketCount
  { l with
    transport := counted.2
    polled :=
      if counted.1 = 0 then l.polled else l.polled + 1
    returned := l.returned ++ [counted.1] }

end CountingLink

/-
  The NIC writes entry after entry, and none again before it
  is polled; each announces up to 4096 packets.
-/
inductive CountSteps :
    CountingLink → CountEvent → CountingLink → Prop
| completes {l : CountingLink} {n : Nat} :
    1 ≤ n → n ≤ 4096 →
    l.positions.length < l.polled + 8 →
    CountSteps l (.completes n) (l.completed n)
| polls {l : CountingLink} :
    CountSteps l .polls l.counted

/-
  The values returned add up to the packets announced by the
  completions polled. A poll returns nothing exactly if the
  next entry was not written again yet.
-/
structure ExactlyCounted
    (l : CountingLink) : Prop where
  sum : l.returned.sum = l.position l.polled
  stale : l.polled = l.positions.length →
    l.transport.getPacketCount = (0, l.transport)
  fresh : l.polled < l.positions.length →
    l.position l.polled < l.position (l.polled + 1) ∧
      l.transport.getPacketCount.1 =
        l.position (l.polled + 1) - l.position l.polled

------------------------------------------------------------
-- The Invariant
------------------------------------------------------------

/-
  The entries hold the last eight completions, and the last
  position counted is that of the last one polled.
-/
structure RingInvariant
    (l : CountingLink) : Prop where
  cqeIdx : l.transport.cqeIdx = l.polled % 8
  cycle : l.transport.recvIndexCycle =
    getRecvCycle (cqeAt (l.position l.polled))
  polled_le : l.polled ≤ l.positions.length
  unpolled_le : l.positions.length ≤ l.polled + 8
  written : ∀ k, k < l.positions.length →
    l.positions.length ≤ k + 8 →
    l.transport.recvCqeArr (k % 8) =
      cqeAt (l.position (k + 1))
  unwritten : ∀ k, k < 8 → l.positions.length ≤ k →
    l.transport.recvCqeArr k = cqeAt 0
  spaced : ∀ k, k < l.positions.length →
    l.position k < l.position (k + 1) ∧
      l.position (k + 1) ≤ l.position k + 4096
  sum : l.returned.sum = l.position l.polled

section Ring

variable
    {l l' : CountingLink}

theorem CountingLink.position_zero :
    l.position 0 = 0 :=
  rfl

theorem CountingLink.position_append
    (ps : List Nat)
    {k : Nat}
    (hLe : k ≤ l.positions.length) :
    ({ l with positions := l.positions ++ ps } :
      CountingLink).position k = l.position k := by
  have hLt : k < (0 :: l.positions).length :=
    Nat.lt_succ_of_le hLe
  simp only [position, ← List.cons_append, List.getD]
  rw [List.getElem?_append_left hLt]

theorem CountingLink.position_last
    (p : Nat) :
    ({ l with positions := l.positions ++ [p] } :
      CountingLink).position (l.positions.length + 1) = p := by
  simp [position]

/- Positions that are not far apart. -/
theorem RingInvariant.position_le
    (hRing : RingInvariant l)
    {k : Nat}
    (j : Nat)
    (hLe : k + j ≤ l.positions.length) :
    l.position k + j ≤ l.position (k + j) ∧
      l.position (k + j) ≤ l.position k + 4096 * j := by
  induction j with
  | zero => exact ⟨Nat.le_refl _, Nat.le_refl _⟩
  | succ j ih =>
      rcases ih (Nat.le_of_succ_le hLe) with ⟨hLow, hHigh⟩
      rcases hRing.spaced (k + j) hLe with ⟨hLt, hStep⟩
      rw [Nat.add_assoc] at hLt hStep
      omega

/-
  The entry to be polled, when it was not written again: it is
  at most seven completions behind.
-/
theorem RingInvariant.stale_entry
    (hRing : RingInvariant l)
    (hAll : l.polled = l.positions.length) :
    ∃ p, l.transport.recvCqeArr l.transport.cqeIdx =
        cqeAt p ∧
      p ≤ l.position l.polled ∧
      l.position l.polled ≤ p + 28672 := by
  rw [hRing.cqeIdx]
  by_cases hFirst : l.polled < 8
  · refine ⟨0, ?_, Nat.zero_le _, ?_⟩
    · rw [Nat.mod_eq_of_lt hFirst]
      exact hRing.unwritten _ hFirst (Nat.le_of_eq hAll.symm)
    · have hFar := hRing.position_le (k := 0) l.polled
        (by omega)
      rw [Nat.zero_add, CountingLink.position_zero] at hFar
      omega
  · have hSame : l.polled % 8 = (l.polled - 8) % 8 := by
      omega
    have hFar := hRing.position_le (k := l.polled - 8 + 1) 7
      (by omega)
    have hEnd : l.polled - 8 + 1 + 7 = l.polled := by
      omega
    rw [hEnd] at hFar
    refine ⟨l.position (l.polled - 8 + 1), ?_, by omega,
      by omega⟩
    rw [hSame]
    exact hRing.written _ (by omega) (by omega)

/- Such an entry is seen to be an old one. -/
theorem RingInvariant.stale
    (hRing : RingInvariant l)
    (hAll : l.polled = l.positions.length) :
    l.transport.getPacketCount = (0, l.transport) := by
  rcases hRing.stale_entry hAll with ⟨p, hCqe, hLow, hHigh⟩
  have hDiff := toNat_cycleDiff hCqe hRing.cycle
  rcases l.transport.getPacketCount_cases with
    hNone | ⟨hNe, hLe, -⟩
  · exact hNone
  · have hPos : l.transport.cycleDiff.toNat ≠ 0 :=
      fun hZero => hNe (BitVec.eq_of_toNat_eq hZero)
    omega

/- A new entry is told by the packets it adds. -/
theorem RingInvariant.fresh
    (hRing : RingInvariant l)
    (hSome : l.polled < l.positions.length) :
    l.transport.getPacketCount =
      (l.position (l.polled + 1) - l.position l.polled,
        { l.transport with
          cqeIdx := (l.polled + 1) % 8
          recvIndexCycle := getRecvCycle
            (cqeAt (l.position (l.polled + 1))) }) := by
  have hCqe : l.transport.recvCqeArr l.transport.cqeIdx =
      cqeAt (l.position (l.polled + 1)) := by
    rw [hRing.cqeIdx]
    exact hRing.written _ hSome hRing.unpolled_le
  have hDiff := toNat_cycleDiff hCqe hRing.cycle
  rcases hRing.spaced _ hSome with ⟨hLt, hStep⟩
  have hCount : l.transport.cycleDiff.toNat =
      l.position (l.polled + 1) - l.position l.polled := by
    omega
  have hIdx : (l.transport.cqeIdx + 1) % 8 =
      (l.polled + 1) % 8 := by
    rw [hRing.cqeIdx]
    omega
  have hNe : l.transport.cycleDiff ≠ 0 := by
    intro hZero
    rw [hZero] at hCount
    have hNat : (0 : BitVec 64).toNat = 0 := rfl
    omega
  rw [Mlx5Transport.getPacketCount, if_neg (by
    rintro (hZero | hMany)
    · exact hNe hZero
    · omega), hCount, hIdx, hCqe]

theorem RingInvariant.exactlyCounted
    (hRing : RingInvariant l) :
    ExactlyCounted l where
  sum := hRing.sum
  stale := hRing.stale
  fresh hSome :=
    ⟨(hRing.spaced _ hSome).1, by rw [hRing.fresh hSome]⟩

theorem ringInvariant_start
    (sendBuffer recvBuffer : Int)
    (recvKey : BitVec 32) :
    RingInvariant
      (.start sendBuffer recvBuffer recvKey) := by
  have hNone : noneReceived = cqeAt 0 := by decide
  refine ⟨rfl, congrArg getRecvCycle hNone, Nat.le_refl _,
    Nat.zero_le _, ?_, ?_, ?_, rfl⟩
  · intro k hLt
    exact absurd hLt (Nat.not_lt_zero k)
  · intro k _ _
    exact hNone
  · intro k hLt
    exact absurd hLt (Nat.not_lt_zero k)

/- The next entry is written over one that was polled. -/
theorem RingInvariant.completed
    {n : Nat}
    (hRing : RingInvariant l)
    (hSome : 1 ≤ n)
    (hFew : n ≤ 4096)
    (hFree : l.positions.length < l.polled + 8) :
    RingInvariant (l.completed n) := by
  let p := l.position l.positions.length + n
  have hOld : ∀ k, k ≤ l.positions.length →
      (l.completed n).position k = l.position k :=
    fun k hk => l.position_append [p] hk
  have hNew : (l.completed n).position
      (l.positions.length + 1) = p :=
    l.position_last p
  have hLength : (l.completed n).positions.length =
      l.positions.length + 1 :=
    List.length_append
  refine ⟨hRing.cqeIdx, ?_, ?_, ?_, ?_, ?_, ?_, ?_⟩
  · rw [show (l.completed n).polled = l.polled from rfl,
      hOld _ hRing.polled_le]
    exact hRing.cycle
  · rw [hLength]
    exact Nat.le_succ_of_le hRing.polled_le
  · rw [hLength]
    exact hFree
  · intro k hk hRecent
    rw [hLength] at hk hRecent
    change Function.update _ (l.positions.length % 8) _ _ = _
    by_cases hEq : k = l.positions.length
    · subst hEq
      rw [Function.update_self, hNew]
    · rw [Function.update_of_ne (by omega),
        hOld _ (by omega)]
      exact hRing.written k (by omega) (by omega)
  · intro k hk hUnwritten
    rw [hLength] at hUnwritten
    change Function.update _ (l.positions.length % 8) _ _ = _
    rw [Function.update_of_ne (by omega)]
    exact hRing.unwritten k hk (by omega)
  · intro k hk
    rw [hLength] at hk
    rw [hOld k (Nat.le_of_lt_succ hk)]
    by_cases hEq : k = l.positions.length
    · subst hEq
      rw [hNew]
      omega
    · rw [hOld (k + 1) (by omega)]
      exact hRing.spaced k (by omega)
  · rw [show (l.completed n).polled = l.polled from rfl,
      hOld _ hRing.polled_le]
    exact hRing.sum

theorem RingInvariant.counted
    (hRing : RingInvariant l) :
    RingInvariant l.counted := by
  rcases Nat.eq_or_lt_of_le hRing.polled_le with hAll | hSome
  · have hStale := hRing.stale hAll
    have hSum : (l.returned ++ [0]).sum =
        l.position l.polled := by
      rw [List.sum_append, hRing.sum]
      rfl
    rw [CountingLink.counted, hStale]
    exact ⟨hRing.cqeIdx, hRing.cycle, hRing.polled_le,
      hRing.unpolled_le, hRing.written, hRing.unwritten,
      hRing.spaced, hSum⟩
  · have hFresh := hRing.fresh hSome
    have hLt := (hRing.spaced _ hSome).1
    have hNe : l.position (l.polled + 1) -
        l.position l.polled ≠ 0 := by
      omega
    have hSum : (l.returned ++ [l.position (l.polled + 1) -
        l.position l.polled]).sum =
          l.position (l.polled + 1) := by
      rw [List.sum_append, hRing.sum, List.sum_singleton]
      omega
    rw [CountingLink.counted, hFresh]
    dsimp only
    rw [if_neg hNe]
    have hWindow : l.positions.length ≤ l.polled + 1 + 8 :=
      Nat.le_trans hRing.unpolled_le (by omega)
    exact ⟨rfl, rfl, hSome, hWindow, hRing.written,
      hRing.unwritten, hRing.spaced, hSum⟩

theorem CountSteps.ringInvariant
    {event : CountEvent}
    (hRing : RingInvariant l)
    (hStep : CountSteps l event l') :
    RingInvariant l' := by
  cases hStep with
  | completes hSome hFew hFree =>
      exact hRing.completed hSome hFew hFree
  | polls => exact hRing.counted

/- In every run, packets are counted once, as announced. -/
theorem exactlyCounted_of_run
    {sendBuffer recvBuffer : Int}
    {recvKey : BitVec 32}
    {events : List CountEvent}
    (hRun : Run CountSteps
      (.start sendBuffer recvBuffer recvKey) events l) :
    ExactlyCounted l := by
  have hRing := hRun.invariant
    (fun _ _ _ hInv hStep => hStep.ringInvariant hInv)
    (ringInvariant_start sendBuffer recvBuffer recvKey)
  exact hRing.exactlyCounted

/- Two completions, of which one is polled. -/
theorem exactlyCounted_of_run_one :
    ∃ l : CountingLink, l.positions = [3, 4099] ∧
      l.polled = 1 ∧ ExactlyCounted l := by
  let l₀ := CountingLink.start 0 0 0
  have hRun : Run CountSteps l₀
      [.completes 3, .completes 4096, .polls]
      ((l₀.completed 3).completed 4096).counted :=
    .cons (.completes (by decide) (by decide) (by decide))
      (.cons (.completes (by decide) (by decide) (by decide))
        (.cons .polls (.nil _)))
  exact ⟨_, rfl, by decide, exactlyCounted_of_run hRun⟩

end Ring

end NetBlocks
