import NetBlocks.Core.Calls
import NetBlocks.Runtime.TimerList

/-
  A ledger of the packets that were sent with a timer, and
  the invariant that ties it to the timer pool and to the
  redelivery buffers of the connections.

  Main declarations:
    * `SentRecord` and `Ledger`
    * `Books`
    * `Books.sent`, `Books.acked`, and `Books.destablished`
-/

namespace NetBlocks

open Except

variable {P : Type}

------------------------------------------------------------
-- Ledgers
------------------------------------------------------------

/-
  A packet that was sent on a connection, with its number,
  and whether an ack for it was received. `conn` is `none`
  once the connection is destablished.
-/
structure SentRecord where
  conn : Option ConnPtr
  packet : PacketPtr
  number : BitVec 32
  acked : Bool
deriving DecidableEq, Repr

abbrev Ledger := List SentRecord

namespace SentRecord

/- An ack of number `n` arrived on the connection `c`. -/
def receiveAck
    (c : ConnPtr)
    (n : BitVec 32)
    (r : SentRecord) : SentRecord :=
  if r.conn = some c ∧ r.number = n then
    { r with acked := true }
  else
    r

/- The connection `c` was destablished. -/
def orphan
    (c : ConnPtr)
    (r : SentRecord) : SentRecord :=
  if r.conn = some c then { r with conn := none } else r

@[simp] theorem receiveAck_packet
    (c : ConnPtr)
    (n : BitVec 32)
    (r : SentRecord) :
    (r.receiveAck c n).packet = r.packet := by
  unfold receiveAck
  split <;> rfl

@[simp] theorem receiveAck_conn
    (c : ConnPtr)
    (n : BitVec 32)
    (r : SentRecord) :
    (r.receiveAck c n).conn = r.conn := by
  unfold receiveAck
  split <;> rfl

@[simp] theorem receiveAck_number
    (c : ConnPtr)
    (n : BitVec 32)
    (r : SentRecord) :
    (r.receiveAck c n).number = r.number := by
  unfold receiveAck
  split <;> rfl

theorem receiveAck_acked_eq_false_iff
    {c : ConnPtr}
    {n : BitVec 32}
    {r : SentRecord} :
    (r.receiveAck c n).acked = false ↔
      r.acked = false ∧ ¬ (r.conn = some c ∧ r.number = n) := by
  unfold receiveAck
  split
  · next hIs => simp [hIs]
  · next hNot => simp [hNot]

@[simp] theorem orphan_packet
    (c : ConnPtr)
    (r : SentRecord) :
    (r.orphan c).packet = r.packet := by
  unfold orphan
  split <;> rfl

@[simp] theorem orphan_number
    (c : ConnPtr)
    (r : SentRecord) :
    (r.orphan c).number = r.number := by
  unfold orphan
  split <;> rfl

@[simp] theorem orphan_acked
    (c : ConnPtr)
    (r : SentRecord) :
    (r.orphan c).acked = r.acked := by
  unfold orphan
  split <;> rfl

theorem orphan_conn_eq_some_iff
    {c d : ConnPtr}
    {r : SentRecord} :
    (r.orphan c).conn = some d ↔ r.conn = some d ∧ d ≠ c := by
  unfold orphan
  split
  · next hIs =>
      rw [hIs]
      constructor
      · intro hNone
        cases hNone
      · rintro ⟨hEq, hNe⟩
        cases hEq
        exact absurd rfl hNe
  · next hNot =>
      constructor
      · intro hConn
        refine ⟨hConn, ?_⟩
        rintro rfl
        exact hNot hConn
      · exact And.left

end SentRecord

------------------------------------------------------------
-- What the Ledger Is About
------------------------------------------------------------

/- The redelivery buffer of a live connection. -/
def Endpoint.buffers
    (e : Endpoint P)
    (c : ConnPtr) : Option (Slot → Option PacketPtr) :=
  (e.conns c).map Connection.redeliveryBuffer

/- The timer a packet names in its header. -/
def Endpoint.timerOf
    (fmt : PacketFormat P)
    (e : Endpoint P)
    (p : PacketPtr) : Option TimerPtr :=
  toTimerPtr (fmt.getInteger .redeliveryTimer (e.packets p))

/- The number a packet carries. -/
def Endpoint.numberOf
    (fmt : PacketFormat P)
    (e : Endpoint P)
    (p : PacketPtr) : BitVec 32 :=
  fmt.getWord .sequenceNumber (e.packets p)

/- Buffers handed out before keep their timer and number. -/
structure KeepsPackets
    (fmt : PacketFormat P)
    (e e' : Endpoint P) : Prop where
  next : e.nextPacket ≤ e'.nextPacket
  timer : ∀ p, p < e.nextPacket →
    e'.timerOf fmt p = e.timerOf fmt p
  number : ∀ p, p < e.nextPacket →
    e'.numberOf fmt p = e.numberOf fmt p

namespace KeepsPackets

variable
    {fmt : PacketFormat P}
    {e e₁ e' : Endpoint P}

theorem trans
    (hFirst : KeepsPackets fmt e e₁)
    (hSecond : KeepsPackets fmt e₁ e') :
    KeepsPackets fmt e e' where
  next := hFirst.next.trans hSecond.next
  timer p hp := (hSecond.timer p
    (Nat.lt_of_lt_of_le hp hFirst.next)).trans
      (hFirst.timer p hp)
  number p hp := (hSecond.number p
    (Nat.lt_of_lt_of_le hp hFirst.next)).trans
      (hFirst.number p hp)

/- Only new buffers are written. -/
theorem of_old
    (hNext : e.nextPacket ≤ e'.nextPacket)
    (hOld : ∀ p, p < e.nextPacket →
      e'.packets p = e.packets p) :
    KeepsPackets fmt e e' where
  next := hNext
  timer p hp := by
    rw [Endpoint.timerOf, hOld p hp, Endpoint.timerOf]
  number p hp := by
    rw [Endpoint.numberOf, hOld p hp, Endpoint.numberOf]

theorem setPacket
    {p : PacketPtr}
    (hNew : e.nextPacket ≤ p)
    (x : P) :
    KeepsPackets fmt e (e.setPacket p x) :=
  of_old (Nat.le_refl _) (fun _ hq =>
    Endpoint.setPacket_packets_of_ne e x
      (Nat.ne_of_lt (Nat.lt_of_lt_of_le hq hNew)))

/- Restoring lengths changes no timer and no number. -/
theorem restoreAll
    (taken : List PacketPtr) :
    KeepsPackets fmt e (e.restoreAll fmt taken) where
  next := Nat.le_refl _
  timer p _ := by
    rw [Endpoint.timerOf, restoreAll_get (by decide),
      Endpoint.timerOf]
  number p _ := by
    rw [Endpoint.numberOf, PacketFormat.getWord,
      restoreAll_get (by decide)]
    rfl

theorem polled
    (x : P) :
    KeepsPackets fmt e (e.polled x) :=
  of_old (Nat.le_succ _) (fun _ hq =>
    polled_packets_of_ne x (Nat.ne_of_lt hq))

end KeepsPackets

------------------------------------------------------------
-- The Invariant
------------------------------------------------------------

/-
  The books are in order: `active` and `free` are the lists
  of the pool, and the unacknowledged packets of the ledger
  are the ones with an active timer. Those of a live
  connection are held in its buffer, in the slot of their
  number, and nothing else is.
-/
structure Books
    (fmt : PacketFormat P)
    (e : Endpoint P)
    (ledger : Ledger)
    (active free : List TimerPtr) : Prop where
  pool : e.timers.Represents active free
  all : ∀ t, t ∈ active ++ free
  owner : ∀ r ∈ ledger, ∀ c, r.conn = some c →
    e.buffers c ≠ none
  held : ∀ r ∈ ledger, r.acked = false →
    ∀ c b, r.conn = some c → e.buffers c = some b →
      b (slot r.number) = some r.packet
  number : ∀ r ∈ ledger, e.numberOf fmt r.packet = r.number
  armed : ∀ r ∈ ledger, r.acked = false →
    ∃ t ∈ active, e.timerOf fmt r.packet = some t ∧
      (e.timers.allocatedTimers t).argument = r.packet
  timed : ∀ t ∈ active, ∃ r ∈ ledger, r.acked = false ∧
    e.timerOf fmt r.packet = some t
  slots : ∀ c b k p, e.buffers c = some b →
    b k = some p → ∃ r ∈ ledger, r.acked = false ∧
      r.conn = some c ∧ r.packet = p ∧ slot r.number = k
  distinct : (ledger.map SentRecord.packet).Nodup
  handedOut : ∀ r ∈ ledger, r.packet < e.nextPacket

namespace Books

variable
    {fmt : PacketFormat P}
    {e e' : Endpoint P}
    {ledger : Ledger}
    {active free : List TimerPtr}

/- One packet, one record. -/
theorem record_unique
    (hBooks : Books fmt e ledger active free)
    {r s : SentRecord}
    (hR : r ∈ ledger)
    (hS : s ∈ ledger)
    (hPacket : r.packet = s.packet) :
    r = s :=
  List.inj_on_of_nodup_map hBooks.distinct hR hS hPacket

/- An active timer's argument is its packet. -/
theorem argument_eq
    (hBooks : Books fmt e ledger active free)
    {r : SentRecord}
    {t : TimerPtr}
    (hR : r ∈ ledger)
    (hAcked : r.acked = false)
    (hTimer : e.timerOf fmt r.packet = some t) :
    t ∈ active ∧
      (e.timers.allocatedTimers t).argument = r.packet := by
  rcases hBooks.armed r hR hAcked with
    ⟨t', hActive, hTimer', hArgument⟩
  cases hTimer.symm.trans hTimer'
  exact ⟨hActive, hArgument⟩

/-
  `nb__net_init` keeps the books when no timer is active and
  nothing is held.
-/
theorem netInit
    (fresh : NetState)
    (hHead : e.timers.timersHead = none)
    (hAcked : ∀ r ∈ ledger, r.acked = true)
    (hOwner : ∀ r ∈ ledger, ∀ c, r.conn = some c →
      e.buffers c ≠ none)
    (hEmpty : ∀ c b k, e.buffers c = some b → b k = none)
    (hNumber : ∀ r ∈ ledger,
      e.numberOf fmt r.packet = r.number)
    (hDistinct : (ledger.map SentRecord.packet).Nodup)
    (hHandedOut : ∀ r ∈ ledger, r.packet < e.nextPacket) :
    ∃ all, Books fmt (nbNetInit fresh e) ledger [] all := by
  obtain ⟨all, hAll⟩ :
      ∃ all, all = List.finRange maxTimerAllocs := ⟨_, rfl⟩
  have hPool : e.timers.initTimers.Represents [] all := by
    rw [hAll]
    exact TimerPool.initTimers_represents hHead
  refine ⟨all, hPool, ?_, hOwner, ?_, hNumber, ?_, ?_, ?_,
    hDistinct, hHandedOut⟩
  · intro t
    have hMem := List.mem_finRange t
    rw [← hAll] at hMem
    rw [List.nil_append]
    exact hMem
  · intro r hr hUnacked
    simp [hAcked r hr] at hUnacked
  · intro r hr hUnacked
    simp [hAcked r hr] at hUnacked
  · intro t ht
    cases ht
  · intro c b k p hBuffer hSlot
    rw [hEmpty c b k hBuffer] at hSlot
    cases hSlot

/-
  Steps that keep the buffers and the packets, and at most
  reorder the active timers.
-/
theorem congr
    {active' : List TimerPtr}
    (hBooks : Books fmt e ledger active free)
    (hPool : e'.timers.Represents active' free)
    (hPerm : active'.Perm active)
    (hArgument : ∀ t,
      (e'.timers.allocatedTimers t).argument =
        (e.timers.allocatedTimers t).argument)
    (hBuffers : ∀ c, e'.buffers c = e.buffers c)
    (hPackets : KeepsPackets fmt e e') :
    Books fmt e' ledger active' free where
  pool := hPool
  all t := (hPerm.append_right free).mem_iff.mpr
    (hBooks.all t)
  owner r hr c hConn := by
    rw [hBuffers]
    exact hBooks.owner r hr c hConn
  held r hr hAcked c b hConn hB := by
    rw [hBuffers] at hB
    exact hBooks.held r hr hAcked c b hConn hB
  number r hr := by
    rw [hPackets.number _ (hBooks.handedOut r hr)]
    exact hBooks.number r hr
  armed r hr hAcked := by
    rcases hBooks.armed r hr hAcked with
      ⟨t, hActive, hTimer, hArg⟩
    refine ⟨t, hPerm.mem_iff.mpr hActive, ?_,
      (hArgument t).trans hArg⟩
    rw [hPackets.timer _ (hBooks.handedOut r hr)]
    exact hTimer
  timed t ht := by
    rcases hBooks.timed t (hPerm.mem_iff.mp ht) with
      ⟨r, hr, hAcked, hTimer⟩
    refine ⟨r, hr, hAcked, ?_⟩
    rw [hPackets.timer _ (hBooks.handedOut r hr)]
    exact hTimer
  slots c b k p hB hSlot := by
    rw [hBuffers] at hB
    exact hBooks.slots c b k p hB hSlot
  distinct := hBooks.distinct
  handedOut r hr := Nat.lt_of_lt_of_le
    (hBooks.handedOut r hr) hPackets.next

/- The first packet on a connection's slot of its number. -/
theorem sent
    {active' : List TimerPtr}
    {t : TimerPtr}
    {c : ConnPtr}
    {b : Slot → Option PacketPtr}
    {p : PacketPtr}
    {n : BitVec 32}
    (hBooks : Books fmt e ledger active (t :: free))
    (hPool : e'.timers.Represents active' free)
    (hPerm : active'.Perm (t :: active))
    (hArgument : (e'.timers.allocatedTimers t).argument = p)
    (hOthers : ∀ u, u ≠ t →
      (e'.timers.allocatedTimers u).argument =
        (e.timers.allocatedTimers u).argument)
    (hBuffer : e.buffers c = some b)
    (hEmpty : b (slot n) = none)
    (hBuffers : e'.buffers = Function.update e.buffers c
      (some (Function.update b (slot n) (some p))))
    (hPackets : KeepsPackets fmt e e')
    (hNew : e.nextPacket ≤ p)
    (hHandedOut : p < e'.nextPacket)
    (hTimer : e'.timerOf fmt p = some t)
    (hNumber : e'.numberOf fmt p = n) :
    Books fmt e' (ledger ++ [⟨some c, p, n, false⟩])
      active' free := by
  have hOff : t ∉ active := by
    have hNodup := hBooks.pool.nodup
    have hPerm' : (active ++ t :: free).Perm
        (t :: (active ++ free)) := List.perm_middle
    rw [hPerm'.nodup_iff, List.nodup_cons] at hNodup
    exact fun hMem => hNodup.1 (List.mem_append_left _ hMem)
  have hOld : ∀ r ∈ ledger,
      e'.timerOf fmt r.packet = e.timerOf fmt r.packet :=
    fun r hr => hPackets.timer _ (hBooks.handedOut r hr)
  refine ⟨hPool, ?_, ?_, ?_, ?_, ?_, ?_, ?_, ?_, ?_⟩
  · intro u
    have hAll := hBooks.all u
    rw [List.mem_append, hPerm.mem_iff, List.mem_cons]
    rw [List.mem_append, List.mem_cons] at hAll
    tauto
  · intro r hr d hConn
    rw [hBuffers]
    by_cases hEq : d = c
    · rw [hEq, Function.update_self]
      simp
    · rw [Function.update_of_ne hEq]
      rcases List.mem_append.mp hr with hr | hr
      · exact hBooks.owner r hr d hConn
      · cases List.mem_singleton.mp hr
        cases hConn
        exact absurd rfl hEq
  · intro r hr hAcked d b' hConn hB
    rw [hBuffers] at hB
    by_cases hEq : d = c
    · subst hEq
      rw [Function.update_self] at hB
      cases hB
      rcases List.mem_append.mp hr with hr | hr
      · have hHeld := hBooks.held r hr hAcked d b hConn
          hBuffer
        have hNe : slot r.number ≠ slot n := by
          intro hSlot
          rw [hSlot, hEmpty] at hHeld
          cases hHeld
        rw [Function.update_of_ne hNe]
        exact hHeld
      · cases List.mem_singleton.mp hr
        exact Function.update_self _ _ _
    · rw [Function.update_of_ne hEq] at hB
      rcases List.mem_append.mp hr with hr | hr
      · exact hBooks.held r hr hAcked d b' hConn hB
      · cases List.mem_singleton.mp hr
        cases hConn
        exact absurd rfl hEq
  · intro r hr
    rcases List.mem_append.mp hr with hr | hr
    · rw [hPackets.number _ (hBooks.handedOut r hr)]
      exact hBooks.number r hr
    · cases List.mem_singleton.mp hr
      exact hNumber
  · intro r hr hAcked
    rcases List.mem_append.mp hr with hr | hr
    · rcases hBooks.armed r hr hAcked with
        ⟨u, hActive, hU, hArg⟩
      refine ⟨u, hPerm.mem_iff.mpr
        (List.mem_cons_of_mem _ hActive), ?_, ?_⟩
      · rw [hOld r hr]
        exact hU
      · rw [hOthers u (fun hEq => hOff (hEq ▸ hActive))]
        exact hArg
    · cases List.mem_singleton.mp hr
      exact ⟨t, hPerm.mem_iff.mpr (List.mem_cons_self ..),
        hTimer, hArgument⟩
  · intro u hu
    rcases List.mem_cons.mp (hPerm.mem_iff.mp hu) with
      rfl | hActive
    · exact ⟨_, List.mem_append_right _
        (List.mem_singleton_self _), rfl, hTimer⟩
    · rcases hBooks.timed u hActive with
        ⟨r, hr, hAcked, hU⟩
      refine ⟨r, List.mem_append_left _ hr, hAcked, ?_⟩
      rw [hOld r hr]
      exact hU
  · intro d b' k q hB hSlot
    rw [hBuffers] at hB
    by_cases hEq : d = c
    · subst hEq
      rw [Function.update_self] at hB
      cases hB
      by_cases hK : k = slot n
      · rw [hK, Function.update_self] at hSlot
        cases hSlot
        exact ⟨_, List.mem_append_right _
          (List.mem_singleton_self _), rfl, rfl, rfl,
          hK.symm⟩
      · rw [Function.update_of_ne hK] at hSlot
        rcases hBooks.slots d b k q hBuffer hSlot with
          ⟨r, hr, hRest⟩
        exact ⟨r, List.mem_append_left _ hr, hRest⟩
    · rw [Function.update_of_ne hEq] at hB
      rcases hBooks.slots d b' k q hB hSlot with
        ⟨r, hr, hRest⟩
      exact ⟨r, List.mem_append_left _ hr, hRest⟩
  · rw [List.map_append]
    refine List.nodup_append.mpr ⟨hBooks.distinct,
      List.nodup_singleton _, ?_⟩
    rintro q hq q' hq' rfl
    rcases List.mem_map.mp hq with ⟨r, hr, rfl⟩
    have hOldPacket := hBooks.handedOut r hr
    rw [List.map_singleton, List.mem_singleton] at hq'
    rw [hq'] at hOldPacket
    exact Nat.lt_irrefl p
      (Nat.lt_of_lt_of_le hOldPacket hNew)
  · intro r hr
    rcases List.mem_append.mp hr with hr | hr
    · exact Nat.lt_of_lt_of_le (hBooks.handedOut r hr)
        hPackets.next
    · cases List.mem_singleton.mp hr
      exact hHandedOut

/- An ack for an empty slot acknowledges nothing new. -/
theorem receiveAck_eq
    (hBooks : Books fmt e ledger active free)
    {c : ConnPtr}
    {b : Slot → Option PacketPtr}
    {n : BitVec 32}
    (hBuffer : e.buffers c = some b)
    (hEmpty : b (slot n) = none) :
    ledger.map (SentRecord.receiveAck c n) = ledger := by
  have hSame : ∀ r ∈ ledger, r.receiveAck c n = id r := by
    intro r hr
    unfold SentRecord.receiveAck
    split
    · next hIs =>
        cases hAcked : r.acked with
        | true => rw [← hAcked, id]
        | false =>
            have hHeld := hBooks.held r hr hAcked c b hIs.1
              hBuffer
            rw [hIs.2, hEmpty] at hHeld
            cases hHeld
    · rfl
  rw [List.map_congr_left hSame, List.map_id]

/-
  An ack of the number of the packet in its slot stops that
  packet's timer, and no other.
-/
theorem acked
    {c : ConnPtr}
    {b : Slot → Option PacketPtr}
    {n : BitVec 32}
    {q : PacketPtr}
    {t : TimerPtr}
    (hBooks : Books fmt e ledger active free)
    (hBuffer : e.buffers c = some b)
    (hHeld : b (slot n) = some q)
    (hTimer : e.timerOf fmt q = some t)
    (hNumber : e.numberOf fmt q = n)
    (hPool : e'.timers =
      (e.timers.removeTimer t).returnTimer t)
    (hBuffers : e'.buffers = Function.update e.buffers c
      (some (Function.update b (slot n) none)))
    (hPackets : KeepsPackets fmt e e') :
    ∃ active', Books fmt e'
      (ledger.map (SentRecord.receiveAck c n))
      active' (t :: free) := by
  rcases hBooks.slots c b _ q hBuffer hHeld with
    ⟨r₀, hr₀, hUnacked₀, hConn₀, rfl, -⟩
  have hNumber₀ : r₀.number = n :=
    (hBooks.number r₀ hr₀).symm.trans hNumber
  rcases hBooks.argument_eq hr₀ hUnacked₀ hTimer with
    ⟨hActive, hArgument⟩
  -- the record of the slot is the only one the ack is for
  have hOnly : ∀ r ∈ ledger, r.acked = false →
      r.conn = some c → slot r.number = slot n → r = r₀ := by
    intro r hr hUnacked hConn hSlot
    have hHeld' := hBooks.held r hr hUnacked c b hConn hBuffer
    rw [hSlot, hHeld] at hHeld'
    exact hBooks.record_unique hr hr₀
      (Option.some.inj hHeld').symm
  have hOther : ∀ r ∈ ledger,
      (r.receiveAck c n).acked = false ↔
        r.acked = false ∧ r ≠ r₀ := by
    intro r hr
    rw [SentRecord.receiveAck_acked_eq_false_iff]
    refine and_congr_right (fun hUnacked => ?_)
    constructor
    · rintro hNot rfl
      exact hNot ⟨hConn₀, hNumber₀⟩
    · rintro hNe ⟨hConn, hIs⟩
      exact hNe (hOnly r hr hUnacked hConn (by rw [hIs]))
  have hOld : ∀ r ∈ ledger,
      e'.timerOf fmt r.packet = e.timerOf fmt r.packet :=
    fun r hr => hPackets.timer _ (hBooks.handedOut r hr)
  rcases List.append_of_mem hActive with ⟨xs, ys, rfl⟩
  have hRemoved :=
    TimerPool.removeTimer_represents hBooks.pool
  have hMiddle : (xs ++ t :: ys ++ free).Perm
      (t :: (xs ++ ys ++ free)) := by
    rw [List.append_assoc, List.append_assoc]
    exact List.perm_middle
  have hNodup := List.nodup_cons.mp
    (hMiddle.nodup_iff.mp hBooks.pool.nodup)
  have hRest : ∀ u, u ∈ xs ++ ys ↔
      u ∈ xs ++ t :: ys ∧ u ≠ t := by
    intro u
    have hOff : t ∉ xs ++ ys := fun hMem =>
      hNodup.1 (List.mem_append_left _ hMem)
    simp only [List.mem_append, List.mem_cons] at hOff ⊢
    constructor
    · intro hu
      refine ⟨by tauto, ?_⟩
      rintro rfl
      exact hOff hu
    · tauto
  refine ⟨xs ++ ys, ?_, ?_, ?_, ?_, ?_, ?_, ?_, ?_, ?_, ?_⟩
  · rw [hPool]
    exact TimerPool.returnTimer_represents hRemoved hNodup.1
  · intro u
    have hAll := hBooks.all u
    simp only [List.mem_append, List.mem_cons] at hAll ⊢
    tauto
  · intro r' hr' d hConn
    rcases List.mem_map.mp hr' with ⟨r, hr, rfl⟩
    rw [SentRecord.receiveAck_conn] at hConn
    rw [hBuffers]
    by_cases hEq : d = c
    · rw [hEq, Function.update_self]
      simp
    · rw [Function.update_of_ne hEq]
      exact hBooks.owner r hr d hConn
  · intro r' hr' hUnacked' d b' hConn hB
    rcases List.mem_map.mp hr' with ⟨r, hr, rfl⟩
    rcases (hOther r hr).mp hUnacked' with ⟨hUnacked, hNe⟩
    rw [SentRecord.receiveAck_conn] at hConn
    rw [SentRecord.receiveAck_number,
      SentRecord.receiveAck_packet]
    rw [hBuffers] at hB
    by_cases hEq : d = c
    · subst hEq
      rw [Function.update_self] at hB
      cases hB
      rw [Function.update_of_ne (fun hSlot =>
        hNe (hOnly r hr hUnacked hConn hSlot))]
      exact hBooks.held r hr hUnacked d b hConn hBuffer
    · rw [Function.update_of_ne hEq] at hB
      exact hBooks.held r hr hUnacked d b' hConn hB
  · intro r' hr'
    rcases List.mem_map.mp hr' with ⟨r, hr, rfl⟩
    rw [SentRecord.receiveAck_packet,
      SentRecord.receiveAck_number,
      hPackets.number _ (hBooks.handedOut r hr)]
    exact hBooks.number r hr
  · intro r' hr' hUnacked'
    rcases List.mem_map.mp hr' with ⟨r, hr, rfl⟩
    rcases (hOther r hr).mp hUnacked' with ⟨hUnacked, hNe⟩
    rcases hBooks.armed r hr hUnacked with
      ⟨u, hU, hTimerU, hArgumentU⟩
    rw [SentRecord.receiveAck_packet, hOld r hr, hPool]
    refine ⟨u, (hRest u).mpr ⟨hU, ?_⟩, hTimerU, ?_⟩
    · rintro rfl
      exact hNe (hBooks.record_unique hr hr₀
        (hArgumentU.symm.trans hArgument))
    · rw [TimerPool.argument_returnTimer,
        TimerPool.argument_removeTimer]
      exact hArgumentU
  · intro u hu
    rcases (hRest u).mp hu with ⟨hU, hNe⟩
    rcases hBooks.timed u hU with ⟨r, hr, hUnacked, hTimerU⟩
    refine ⟨_, List.mem_map_of_mem hr,
      (hOther r hr).mpr ⟨hUnacked, ?_⟩, ?_⟩
    · rintro rfl
      exact hNe (Option.some.inj (hTimerU.symm.trans hTimer))
    · rw [SentRecord.receiveAck_packet, hOld r hr]
      exact hTimerU
  · intro d b' k p hB hSlot
    rw [hBuffers] at hB
    by_cases hEq : d = c
    · subst hEq
      rw [Function.update_self] at hB
      cases hB
      by_cases hK : k = slot n
      · rw [hK, Function.update_self] at hSlot
        cases hSlot
      · rw [Function.update_of_ne hK] at hSlot
        rcases hBooks.slots d b k p hBuffer hSlot with
          ⟨r, hr, hUnacked, hConn, hPacket, hIs⟩
        refine ⟨_, List.mem_map_of_mem hr,
          (hOther r hr).mpr ⟨hUnacked, ?_⟩, by simpa using hConn,
          by simpa using hPacket, by simpa using hIs⟩
        rintro rfl
        exact hK (hIs.symm.trans (by rw [hNumber₀]))
    · rw [Function.update_of_ne hEq] at hB
      rcases hBooks.slots d b' k p hB hSlot with
        ⟨r, hr, hUnacked, hConn, hPacket, hIs⟩
      refine ⟨_, List.mem_map_of_mem hr,
        (hOther r hr).mpr ⟨hUnacked, ?_⟩, by simpa using hConn,
        by simpa using hPacket, by simpa using hIs⟩
      rintro rfl
      exact hEq (Option.some.inj (hConn.symm.trans hConn₀))
  · rw [List.map_map]
    have hSame : SentRecord.packet ∘
        SentRecord.receiveAck c n = SentRecord.packet := by
      funext r
      exact SentRecord.receiveAck_packet c n r
    rw [hSame]
    exact hBooks.distinct
  · intro r' hr'
    rcases List.mem_map.mp hr' with ⟨r, hr, rfl⟩
    rw [SentRecord.receiveAck_packet]
    exact Nat.lt_of_lt_of_le (hBooks.handedOut r hr)
      hPackets.next

/- A new connection holds no packets yet. -/
theorem established
    {c : ConnPtr}
    (hBooks : Books fmt e ledger active free)
    (hFree : e.buffers c = none)
    (hPool : e'.timers = e.timers)
    (hBuffers : e'.buffers = Function.update e.buffers c
      (some (fun _ => none)))
    (hPackets : KeepsPackets fmt e e') :
    Books fmt e' ledger active free := by
  have hOf : ∀ d, d ≠ c → e'.buffers d = e.buffers d := by
    intro d hNe
    rw [hBuffers, Function.update_of_ne hNe]
  have hOwned : ∀ r ∈ ledger, ∀ d, r.conn = some d → d ≠ c := by
    rintro r hr d hConn rfl
    exact hBooks.owner r hr d hConn hFree
  have hOld : ∀ r ∈ ledger,
      e'.timerOf fmt r.packet = e.timerOf fmt r.packet :=
    fun r hr => hPackets.timer _ (hBooks.handedOut r hr)
  refine ⟨hPool ▸ hBooks.pool, hBooks.all, ?_, ?_, ?_, ?_, ?_,
    ?_, hBooks.distinct, ?_⟩
  · intro r hr d hConn
    rw [hOf d (hOwned r hr d hConn)]
    exact hBooks.owner r hr d hConn
  · intro r hr hUnacked d b hConn hB
    rw [hOf d (hOwned r hr d hConn)] at hB
    exact hBooks.held r hr hUnacked d b hConn hB
  · intro r hr
    rw [hPackets.number _ (hBooks.handedOut r hr)]
    exact hBooks.number r hr
  · intro r hr hUnacked
    rw [hOld r hr, hPool]
    exact hBooks.armed r hr hUnacked
  · intro t ht
    rcases hBooks.timed t ht with ⟨r, hr, hUnacked, hTimer⟩
    exact ⟨r, hr, hUnacked, (hOld r hr).trans hTimer⟩
  · intro d b k p hB hSlot
    by_cases hEq : d = c
    · rw [hBuffers, hEq, Function.update_self] at hB
      cases hB
      cases hSlot
    · rw [hOf d hEq] at hB
      exact hBooks.slots d b k p hB hSlot
  · intro r hr
    exact Nat.lt_of_lt_of_le (hBooks.handedOut r hr)
      hPackets.next

/-
  The packets of a connection that is torn down belong to no
  connection. Their timers stay active.
-/
theorem destablished
    {c : ConnPtr}
    (hBooks : Books fmt e ledger active free)
    (hPool : e'.timers = e.timers)
    (hBuffers : e'.buffers = Function.update e.buffers c none)
    (hPackets : e'.packets = e.packets)
    (hNext : e'.nextPacket = e.nextPacket) :
    Books fmt e' (ledger.map (SentRecord.orphan c))
      active free := by
  have hOf : ∀ d, d ≠ c → e'.buffers d = e.buffers d := by
    intro d hNe
    rw [hBuffers, Function.update_of_ne hNe]
  have hTimerOf : e'.timerOf fmt = e.timerOf fmt := by
    funext p
    rw [Endpoint.timerOf, hPackets, Endpoint.timerOf]
  have hNumberOf : e'.numberOf fmt = e.numberOf fmt := by
    funext p
    rw [Endpoint.numberOf, hPackets, Endpoint.numberOf]
  refine ⟨hPool ▸ hBooks.pool, hBooks.all, ?_, ?_, ?_, ?_, ?_,
    ?_, ?_, ?_⟩
  · intro r' hr' d hConn
    rcases List.mem_map.mp hr' with ⟨r, hr, rfl⟩
    rcases SentRecord.orphan_conn_eq_some_iff.mp hConn with
      ⟨hConn, hNe⟩
    rw [hOf d hNe]
    exact hBooks.owner r hr d hConn
  · intro r' hr' hUnacked d b hConn hB
    rcases List.mem_map.mp hr' with ⟨r, hr, rfl⟩
    rcases SentRecord.orphan_conn_eq_some_iff.mp hConn with
      ⟨hConn, hNe⟩
    rw [hOf d hNe] at hB
    simp only [SentRecord.orphan_acked,
      SentRecord.orphan_number, SentRecord.orphan_packet]
      at hUnacked ⊢
    exact hBooks.held r hr hUnacked d b hConn hB
  · intro r' hr'
    rcases List.mem_map.mp hr' with ⟨r, hr, rfl⟩
    rw [hNumberOf, SentRecord.orphan_packet,
      SentRecord.orphan_number]
    exact hBooks.number r hr
  · intro r' hr' hUnacked
    rcases List.mem_map.mp hr' with ⟨r, hr, rfl⟩
    rw [SentRecord.orphan_acked] at hUnacked
    rw [hTimerOf, hPool, SentRecord.orphan_packet]
    exact hBooks.armed r hr hUnacked
  · intro t ht
    rcases hBooks.timed t ht with ⟨r, hr, hUnacked, hTimer⟩
    refine ⟨_, List.mem_map_of_mem hr, ?_, ?_⟩
    · rw [SentRecord.orphan_acked]
      exact hUnacked
    · rw [hTimerOf, SentRecord.orphan_packet]
      exact hTimer
  · intro d b k p hB hSlot
    by_cases hEq : d = c
    · rw [hBuffers, hEq, Function.update_self] at hB
      cases hB
    · rw [hOf d hEq] at hB
      rcases hBooks.slots d b k p hB hSlot with
        ⟨r, hr, hUnacked, hConn, hPacket, hIs⟩
      exact ⟨_, List.mem_map_of_mem hr,
        by simpa using hUnacked,
        SentRecord.orphan_conn_eq_some_iff.mpr ⟨hConn, hEq⟩,
        by simpa using hPacket, by simpa using hIs⟩
  · rw [List.map_map]
    have hSame : SentRecord.packet ∘ SentRecord.orphan c =
        SentRecord.packet := by
      funext r
      exact SentRecord.orphan_packet c r
    rw [hSame]
    exact hBooks.distinct
  · intro r' hr'
    rcases List.mem_map.mp hr' with ⟨r, hr, rfl⟩
    rw [SentRecord.orphan_packet, hNext]
    exact hBooks.handedOut r hr

end Books

end NetBlocks
