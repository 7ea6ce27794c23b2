import NetBlocks.Core.IngressSpec
import Mathlib.Data.Fintype.Card

/-
  What a data packet delivers: which packets the inorder
  module hands to the input queue, and when the queue has
  room for them.

  Main declarations:
    * `place`, the decision without the queue
    * `Room`
    * `absorb_eq`
-/

namespace NetBlocks

open Except

variable {P : Type}

------------------------------------------------------------
-- Room in a Queue
------------------------------------------------------------

/- The entries made for a list of packets. -/
def payloads
    (len : PacketPtr → Int)
    (ps : List PacketPtr) : DataQueue :=
  (ps.filter (fun p => len p ≠ 0)).map (fun p => (p, len p))

/- All of the new entries are put below the last index. -/
def Room
    (q new : DataQueue) : Prop :=
  new = [] ∨ q.length + new.length ≤ maxDataQueueElems

instance (q new : DataQueue) : Decidable (Room q new) := by
  unfold Room
  infer_instance

theorem payloads_append
    (len : PacketPtr → Int)
    (ps qs : List PacketPtr) :
    payloads len (ps ++ qs) =
      payloads len ps ++ payloads len qs := by
  simp [payloads]

theorem payloads_cons
    (len : PacketPtr → Int)
    (p : PacketPtr)
    (ps : List PacketPtr) :
    payloads len (p :: ps) =
      payloads len [p] ++ payloads len ps :=
  payloads_append len [p] ps

theorem payloads_of_ne
    {len : PacketPtr → Int}
    {p : PacketPtr}
    (hLen : len p ≠ 0) :
    payloads len [p] = [(p, len p)] := by
  simp [payloads, hLen]

theorem payloads_of_zero
    {len : PacketPtr → Int}
    {p : PacketPtr}
    (hLen : len p = 0) :
    payloads len [p] = [] := by
  simp [payloads, hLen]

theorem room_nil
    (q : DataQueue) :
    Room q [] :=
  Or.inl rfl

/- Entries are made one after another. -/
theorem room_cons
    {len : PacketPtr → Int}
    (p : PacketPtr)
    (ps : List PacketPtr)
    (q : DataQueue) :
    Room q (payloads len (p :: ps)) ↔
      Room q (payloads len [p]) ∧
        Room (q ++ payloads len [p]) (payloads len ps) := by
  rw [payloads_cons]
  generalize payloads len ps = new
  by_cases hLen : len p = 0
  · rw [payloads_of_zero hLen, List.nil_append,
      List.append_nil]
    exact ⟨fun hRoom => ⟨room_nil q, hRoom⟩, And.right⟩
  · rw [payloads_of_ne hLen]
    simp only [Room, List.cons_ne_nil, List.length_append,
      List.length_cons, List.length_nil, false_or,
      List.singleton_append]
    constructor
    · intro hRoom
      exact ⟨by omega, Or.inr (by omega)⟩
    · rintro ⟨hOne, rfl | hRest⟩
      · simpa using hOne
      · omega

theorem enqueue_eq
    (len : PacketPtr → Int)
    (p : PacketPtr)
    (v : InorderView) :
    enqueue len p v =
      if Room v.inputQueue (payloads len [p]) then
        .ok { v with
          inputQueue := v.inputQueue ++ payloads len [p] }
      else
        .error .outOfBounds := by
  unfold enqueue
  by_cases hLen : len p = 0
  · rw [if_neg (not_not.mpr hLen), payloads_of_zero hLen,
      if_pos (room_nil _), List.append_nil]
    rfl
  · rw [if_pos hLen, payloads_of_ne hLen, insertDataQueue]
    have hRoom : Room v.inputQueue [(p, len p)] ↔
        v.inputQueue.length < maxDataQueueElems := by
      simp [Room, Nat.succ_le_iff]
    by_cases hLt : v.inputQueue.length < maxDataQueueElems
    · rw [if_pos hLt, if_pos (hRoom.mpr hLt)]
      rfl
    · rw [if_neg hLt, if_neg (fun h => hLt (hRoom.mp h))]
      rfl

------------------------------------------------------------
-- Where Packets Go
------------------------------------------------------------

/- The drain loop without the queue. -/
def drainSteps :
    Nat → BitVec 32 → InorderView →
      InorderView × List PacketPtr
| 0, _, v => (v, [])
| fuel + 1, i, v =>
    if i ≤ v.maxOooSequence then
      match v.inorderBuffer (slot i) with
      | none => (v, [])
      | some p =>
          ((drainSteps fuel (i + 1) (takeSlot i v)).1,
            p :: (drainSteps fuel (i + 1) (takeSlot i v)).2)
    else
      (v, [])

/-
  What a packet of a number does to a view besides the queue:
  whether it is delivered, and the packets taken with it.
-/
def place
    (strategy : InorderStrategy)
    (number : BitVec 32)
    (p : PacketPtr)
    (v : InorderView) :
    HookStatus × InorderView × List PacketPtr :=
  match strategy with
  | .dropOutOfOrder =>
      if v.lastRecvSequence < number then
        (.hookContinue,
          { v with lastRecvSequence := number }, [])
      else
        (.hookDrop, v, [])
  | .holdForever =>
      if v.lastRecvSequence = 0 ∨
          number = v.lastRecvSequence + 1 then
        let r := drainSteps InorderModule.drainFuel
          (number + 1) { v with lastRecvSequence := number }
        (.hookContinue, r.1, r.2)
      else
        (.hookDrop, shelve number p v, [])
  | .noInorder => (.hookContinue, v, [])

/- The slots that hold a packet. -/
def InorderView.filled
    (v : InorderView) : Finset Slot :=
  Finset.univ.filter (fun k => v.inorderBuffer k ≠ none)

/- Taking a packet from its slot leaves one slot less. -/
theorem filled_takeSlot
    {v : InorderView}
    {i : BitVec 32}
    {p : PacketPtr}
    (hSlot : v.inorderBuffer (slot i) = some p) :
    (takeSlot i v).filled.card < v.filled.card := by
  apply Finset.card_lt_card
  rw [Finset.ssubset_iff_of_subset]
  · refine ⟨slot i, ?_, ?_⟩
    · simp [InorderView.filled, hSlot]
    · intro hMem
      have hBoth := (Finset.mem_filter.mp hMem).2
      exact hBoth (Function.update_self _ _ _)
  · intro k hk
    simp only [InorderView.filled, takeSlot,
      Finset.mem_filter, Finset.mem_univ, true_and,
      Function.update_apply] at hk ⊢
    split at hk
    · exact absurd rfl hk
    · exact hk

theorem drainSteps_inputQueue
    (fuel : Nat)
    (i : BitVec 32)
    (v : InorderView) :
    (drainSteps fuel i v).1.inputQueue = v.inputQueue := by
  induction fuel generalizing i v with
  | zero => rfl
  | succ fuel ih =>
      rw [drainSteps]
      split
      · split
        · rfl
        · exact ih (i + 1) (takeSlot i v)
      · rfl

/- The decision does not look at the queue. -/
theorem drainSteps_withQueue
    (fuel : Nat)
    (i : BitVec 32)
    (v : InorderView)
    (q : DataQueue) :
    drainSteps fuel i { v with inputQueue := q } =
      ({ (drainSteps fuel i v).1 with inputQueue := q },
        (drainSteps fuel i v).2) := by
  induction fuel generalizing i v with
  | zero => rfl
  | succ fuel ih =>
      rw [drainSteps, drainSteps]
      dsimp only
      split
      · split
        · rfl
        · have hTake := ih (i + 1) (takeSlot i v)
          rw [show takeSlot i { v with inputQueue := q } =
            { takeSlot i v with inputQueue := q } from rfl,
            hTake]
      · rfl

/- Nothing more is taken. -/
theorem drained_nil
    (len : PacketPtr → Int)
    (v : InorderView) :
    (if Room v.inputQueue (payloads len []) then
        .ok ({ v with
          inputQueue := v.inputQueue ++ payloads len [] },
          ([] : List PacketPtr))
      else
        .error .outOfBounds :
        Except Fault (InorderView × List PacketPtr)) =
      .ok (v, []) := by
  have hNil : payloads len [] = [] := rfl
  rw [hNil, if_pos (room_nil _), List.append_nil]

/- The drain loop ends, and fails only on a full queue. -/
theorem drainView_eq
    (len : PacketPtr → Int)
    {fuel : Nat}
    (i : BitVec 32)
    (v : InorderView)
    (hFuel : v.filled.card < fuel) :
    drainView len fuel i v =
      if Room v.inputQueue
          (payloads len (drainSteps fuel i v).2) then
        .ok ({ (drainSteps fuel i v).1 with
          inputQueue := v.inputQueue ++
            payloads len (drainSteps fuel i v).2 },
          (drainSteps fuel i v).2)
      else
        .error .outOfBounds := by
  induction fuel generalizing i v with
  | zero => omega
  | succ fuel ih =>
      by_cases hMore : i ≤ v.maxOooSequence
      · cases hSlot : v.inorderBuffer (slot i) with
        | none =>
            have hSteps : drainSteps (fuel + 1) i v =
                (v, []) := by
              rw [drainSteps, if_pos hMore, hSlot]
            have hView : drainView len (fuel + 1) i v =
                .ok (v, []) := by
              rw [drainView, if_pos hMore, hSlot]
            rw [hView, hSteps]
            exact (drained_nil len v).symm
        | some p =>
            let v₁ : InorderView := { v with
              inputQueue :=
                v.inputQueue ++ payloads len [p] }
            let r := drainSteps fuel (i + 1) (takeSlot i v)
            have hSteps : drainSteps (fuel + 1) i v =
                (r.1, p :: r.2) := by
              rw [drainSteps, if_pos hMore, hSlot]
            have hTake : drainSteps fuel (i + 1)
                (takeSlot i v₁) = ({ r.1 with
                  inputQueue := v₁.inputQueue }, r.2) :=
              drainSteps_withQueue fuel (i + 1)
                (takeSlot i v) v₁.inputQueue
            have hCard := filled_takeSlot hSlot
            have hRest := ih (i + 1) (takeSlot i v₁) (by
              change (takeSlot i v).filled.card < fuel
              omega)
            rw [hTake] at hRest
            rw [drainView, if_pos hMore, hSlot, hSteps]
            dsimp only
            rw [enqueue_eq]
            by_cases hRoom :
                Room v.inputQueue (payloads len [p])
            · rw [if_pos hRoom, ok_bind]
              change (drainView len fuel (i + 1)
                (takeSlot i v₁) >>= _) = _
              rw [hRest]
              dsimp only
              by_cases hAll : Room (takeSlot i v₁).inputQueue
                  (payloads len r.2)
              · rw [if_pos hAll, if_pos ((room_cons p r.2
                  v.inputQueue).mpr ⟨hRoom, hAll⟩), ok_bind,
                  payloads_cons, ← List.append_assoc]
                rfl
              · rw [if_neg hAll, if_neg (fun hBoth => hAll
                  ((room_cons p r.2 v.inputQueue).mp hBoth
                    ).2)]
                rfl
            · rw [if_neg hRoom, if_neg (fun hBoth => hRoom
                ((room_cons p r.2 v.inputQueue).mp hBoth).1)]
              rfl
      · have hSteps : drainSteps (fuel + 1) i v =
            (v, []) := by
          rw [drainSteps, if_neg hMore]
        have hView : drainView len (fuel + 1) i v =
            .ok (v, []) := by
          rw [drainView, if_neg hMore]
        rw [hView, hSteps]
        exact (drained_nil len v).symm

theorem filled_card_lt_drainFuel
    (v : InorderView) :
    v.filled.card < InorderModule.drainFuel := by
  have hCard := Finset.card_filter_le
    (Finset.univ : Finset Slot)
    (fun k => v.inorderBuffer k ≠ none)
  simp only [Finset.card_univ, Fintype.card_fin] at hCard
  simp only [InorderView.filled, InorderModule.drainFuel]
  omega

/-
  A data packet is placed, and what it delivers is queued; it
  only fails when the queue has no room for that.
-/
theorem absorb_eq
    (strategy : InorderStrategy)
    (len : PacketPtr → Int)
    (number : BitVec 32)
    (p : PacketPtr)
    (v : InorderView) :
    absorb strategy len number p v =
      let r := place strategy number p v
      let new := payloads len (arrivedPackets r.1 p r.2.2)
      if Room v.inputQueue new then
        .ok (r.1,
          { r.2.1 with inputQueue := v.inputQueue ++ new },
          r.2.2)
      else
        .error .outOfBounds := by
  cases strategy with
  | dropOutOfOrder =>
      simp only [absorb, place]
      split
      · simp only [enqueue_eq, arrivedPackets, if_true]
        split <;> rfl
      · simp [arrivedPackets, payloads, Room]
  | noInorder =>
      simp only [absorb, place, enqueue_eq, arrivedPackets,
        if_true]
      split <;> rfl
  | holdForever =>
      simp only [absorb, place]
      split
      · let v₁ : InorderView := { v with
          inputQueue := v.inputQueue ++ payloads len [p]
          lastRecvSequence := number }
        let r := drainSteps InorderModule.drainFuel
          (number + 1) { v with lastRecvSequence := number }
        have hDrain := drainView_eq len (number + 1) v₁
          (filled_card_lt_drainFuel v₁)
        have hSteps : drainSteps InorderModule.drainFuel
            (number + 1) v₁ = ({ r.1 with
              inputQueue := v₁.inputQueue }, r.2) :=
          drainSteps_withQueue InorderModule.drainFuel
            (number + 1) { v with lastRecvSequence := number }
            v₁.inputQueue
        rw [hSteps] at hDrain
        simp only [enqueue_eq, arrivedPackets, if_true]
        by_cases hRoom : Room v.inputQueue (payloads len [p])
        · rw [if_pos hRoom, ok_bind]
          change (drainView len InorderModule.drainFuel
            (number + 1) v₁ >>= _) = _
          rw [hDrain]
          dsimp only
          by_cases hAll : Room v₁.inputQueue
              (payloads len r.2)
          · rw [if_pos hAll, if_pos ((room_cons p r.2
              v.inputQueue).mpr ⟨hRoom, hAll⟩), ok_bind,
              payloads_cons, ← List.append_assoc]
            rfl
          · rw [if_neg hAll, if_neg (fun hBoth => hAll
              ((room_cons p r.2 v.inputQueue).mp hBoth).2)]
            rfl
        · rw [if_neg hRoom, if_neg (fun hBoth => hRoom
            ((room_cons p r.2 v.inputQueue).mp hBoth).1)]
          rfl
      · simp [arrivedPackets, payloads, Room, shelve]

theorem drainSteps_length
    (fuel : Nat)
    (i : BitVec 32)
    (v : InorderView) :
    (drainSteps fuel i v).2.length ≤ fuel := by
  induction fuel generalizing i v with
  | zero => exact Nat.le_refl 0
  | succ fuel ih =>
      rw [drainSteps]
      split
      · split
        · exact Nat.zero_le _
        · exact Nat.succ_le_succ (ih _ _)
      · exact Nat.zero_le _

/- A packet takes at most the shelved ones with it. -/
theorem place_length
    {strategy : InorderStrategy}
    {number : BitVec 32}
    {p : PacketPtr}
    {v w : InorderView}
    {status : HookStatus}
    {taken : List PacketPtr}
    (hPlace : place strategy number p v =
      (status, w, taken)) :
    taken.length ≤ InorderModule.drainFuel := by
  cases strategy with
  | dropOutOfOrder =>
      rw [place] at hPlace
      split at hPlace <;> (cases hPlace; exact Nat.zero_le _)
  | holdForever =>
      rw [place] at hPlace
      split at hPlace
      · cases hPlace
        exact drainSteps_length _ _ _
      · cases hPlace
        exact Nat.zero_le _
  | noInorder =>
      cases hPlace
      exact Nat.zero_le _

/-
  The drain loop only takes packets out of slots, and each it
  takes leaves one slot less.
-/
theorem drainSteps_slots
    (fuel : Nat)
    (i : BitVec 32)
    (v : InorderView) :
    (∀ k q, (drainSteps fuel i v).1.inorderBuffer k =
        some q → v.inorderBuffer k = some q) ∧
      (∀ q ∈ (drainSteps fuel i v).2,
        ∃ k, v.inorderBuffer k = some q) ∧
      (drainSteps fuel i v).2.length +
          (drainSteps fuel i v).1.filled.card ≤
        v.filled.card := by
  have hNone : ∀ v : InorderView,
      (∀ k q, v.inorderBuffer k = some q →
        v.inorderBuffer k = some q) ∧
      (∀ q ∈ ([] : List PacketPtr),
        ∃ k, v.inorderBuffer k = some q) ∧
      ([] : List PacketPtr).length + v.filled.card ≤
        v.filled.card := by
    intro v
    refine ⟨fun _ _ hq => hq, ?_, by simp⟩
    intro q hq
    cases hq
  induction fuel generalizing i v with
  | zero => exact hNone v
  | succ fuel ih =>
      by_cases hMore : i ≤ v.maxOooSequence
      · cases hSlot : v.inorderBuffer (slot i) with
        | none =>
            rw [drainSteps, if_pos hMore, hSlot]
            exact hNone v
        | some p =>
            have hSteps : drainSteps (fuel + 1) i v =
                ((drainSteps fuel (i + 1) (takeSlot i v)).1,
                  p :: (drainSteps fuel (i + 1)
                    (takeSlot i v)).2) := by
              rw [drainSteps, if_pos hMore, hSlot]
            rw [hSteps]
            rcases ih (i + 1) (takeSlot i v) with
              ⟨hKept, hTaken, hCount⟩
            have hFewer : ∀ k q,
                (takeSlot i v).inorderBuffer k = some q →
                  v.inorderBuffer k = some q := by
              intro k q hq
              change Function.update v.inorderBuffer (slot i)
                none k = some q at hq
              rw [Function.update_apply] at hq
              split at hq
              · cases hq
              · exact hq
            have hCard := filled_takeSlot hSlot
            refine ⟨fun k q hq => hFewer k q (hKept k q hq),
              ?_, ?_⟩
            · intro q hq
              rcases List.mem_cons.mp hq with rfl | hq
              · exact ⟨_, hSlot⟩
              · rcases hTaken q hq with ⟨k, hk⟩
                exact ⟨k, hFewer k q hk⟩
            · dsimp only
              rw [List.length_cons]
              omega
      · rw [drainSteps, if_neg hMore]
        exact hNone v

/- Shelving fills one slot at most. -/
theorem filled_shelve
    (number : BitVec 32)
    (p : PacketPtr)
    (v : InorderView) :
    (shelve number p v).filled.card ≤ v.filled.card + 1 := by
  refine Nat.le_trans (Finset.card_le_card ?_)
    (Finset.card_insert_le (slot number) v.filled)
  intro k hk
  simp only [InorderView.filled, shelve, Finset.mem_filter,
    Finset.mem_univ, true_and, Function.update_apply,
    Finset.mem_insert] at hk ⊢
  by_cases hEq : k = slot number
  · exact Or.inl hEq
  · rw [if_neg hEq] at hk
    exact Or.inr hk

/- The slots, which only `hold_forever` uses. -/
def InorderView.slots
    (strategy : InorderStrategy)
    (v : InorderView) : Slot → Option PacketPtr :=
  match strategy with
  | .holdForever => v.inorderBuffer
  | _ => fun _ => none

/- How many packets were shelved and not taken. -/
def InorderView.shelved
    (strategy : InorderStrategy)
    (v : InorderView) : Nat :=
  match strategy with
  | .holdForever => v.filled.card
  | _ => 0

/-
  A packet is delivered, shelved or dropped, and only shelved
  ones are taken with it. Each of these is counted once.
-/
theorem place_slots
    {strategy : InorderStrategy}
    {number : BitVec 32}
    {p : PacketPtr}
    {v w : InorderView}
    {status : HookStatus}
    {taken : List PacketPtr}
    (hPlace : place strategy number p v =
      (status, w, taken)) :
    (∀ k q, w.slots strategy k = some q →
        q = p ∨ v.slots strategy k = some q) ∧
      (∀ q ∈ taken, ∃ k, v.slots strategy k = some q) ∧
      (arrivedPackets status p taken).length +
          w.shelved strategy ≤ v.shelved strategy + 1 := by
  cases strategy with
  | holdForever =>
      rw [place] at hPlace
      split at hPlace
      · cases hPlace
        rcases drainSteps_slots InorderModule.drainFuel
          (number + 1) { v with lastRecvSequence := number }
          with ⟨hKept, hTaken, hCount⟩
        refine ⟨fun k q hq => Or.inr (hKept k q hq), hTaken,
          ?_⟩
        rw [arrivedPackets, if_pos rfl, List.length_cons,
          Nat.add_right_comm]
        exact Nat.succ_le_succ hCount
      · cases hPlace
        refine ⟨?_, ?_, ?_⟩
        · intro k q hq
          change Function.update v.inorderBuffer
            (slot number) (some p) k = some q at hq
          rw [Function.update_apply] at hq
          split at hq
          · exact Or.inl (Option.some.inj hq).symm
          · exact Or.inr hq
        · intro q hq
          cases hq
        · rw [arrivedPackets, if_neg (by decide),
            List.length_nil, Nat.zero_add]
          exact filled_shelve number p v
  | dropOutOfOrder =>
      rw [place] at hPlace
      split at hPlace <;>
        · cases hPlace
          exact ⟨fun _ _ hq => Or.inr hq,
            fun _ hq => absurd hq List.not_mem_nil,
            by simp [arrivedPackets, InorderView.shelved]⟩
  | noInorder =>
      cases hPlace
      exact ⟨fun _ _ hq => Or.inr hq,
        fun _ hq => absurd hq List.not_mem_nil,
        by simp [arrivedPackets, InorderView.shelved]⟩

/- The drain loop ends at the largest number seen. -/
theorem drainSteps_done
    {i : BitVec 32}
    {v : InorderView}
    (hDone : ¬ i ≤ v.maxOooSequence)
    (fuel : Nat) :
    drainSteps (fuel + 1) i v = (v, []) := by
  rw [drainSteps, if_neg hDone]

/- A packet that is expected, with nothing shelved behind. -/
theorem place_expected
    {number : BitVec 32}
    {v : InorderView}
    (hNext : v.lastRecvSequence = 0 ∨
      number = v.lastRecvSequence + 1)
    (hDone : ¬ number + 1 ≤ v.maxOooSequence)
    (p : PacketPtr) :
    place .holdForever number p v =
      (.hookContinue,
        { v with lastRecvSequence := number }, []) := by
  rw [place, if_pos hNext, InorderModule.drainFuel,
    drainSteps_done (v := { v with
      lastRecvSequence := number }) hDone]

/- No more is queued than all slots hold, and the packet. -/
theorem place_payloads_le
    {strategy : InorderStrategy}
    {number : BitVec 32}
    {p : PacketPtr}
    {v w : InorderView}
    {status : HookStatus}
    {taken : List PacketPtr}
    (hPlace : place strategy number p v =
      (status, w, taken))
    (len : PacketPtr → Int) :
    (payloads len (arrivedPackets status p taken)).length ≤
      34 := by
  have hTaken := place_length hPlace
  rw [InorderModule.drainFuel] at hTaken
  rw [payloads, List.length_map, arrivedPackets]
  refine (List.length_filter_le _ _).trans ?_
  split
  · rw [List.length_cons]
    omega
  · omega

/- A packet that is expected, with one shelved behind it. -/
theorem place_expected_one
    {number : BitVec 32}
    {q : PacketPtr}
    {v : InorderView}
    (hNext : v.lastRecvSequence = 0 ∨
      number = v.lastRecvSequence + 1)
    (hMore : number + 1 ≤ v.maxOooSequence)
    (hSlot : v.inorderBuffer (slot (number + 1)) = some q)
    (hDone : ¬ number + 1 + 1 ≤ v.maxOooSequence)
    (p : PacketPtr) :
    place .holdForever number p v =
      (.hookContinue, takeSlot (number + 1) v, [q]) := by
  have hSteps : drainSteps InorderModule.drainFuel
      (number + 1) { v with lastRecvSequence := number } =
      (takeSlot (number + 1) v, [q]) := by
    rw [InorderModule.drainFuel, drainSteps, if_pos hMore]
    dsimp only
    rw [hSlot]
    dsimp only
    rw [drainSteps_done (v := takeSlot (number + 1)
      { v with lastRecvSequence := number }) hDone]
    rfl
  rw [place, if_pos hNext, hSteps]

/- Any other packet is shelved. -/
theorem place_other
    {number : BitVec 32}
    {v : InorderView}
    (hStarted : v.lastRecvSequence ≠ 0)
    (hOther : number ≠ v.lastRecvSequence + 1)
    (p : PacketPtr) :
    place .holdForever number p v =
      (.hookDrop, shelve number p v, []) := by
  rw [place, if_neg (not_or.mpr ⟨hStarted, hOther⟩)]

/- A packet that was absorbed was placed and queued. -/
theorem absorb_ok_iff
    {strategy : InorderStrategy}
    {len : PacketPtr → Int}
    {number : BitVec 32}
    {p : PacketPtr}
    {v v' : InorderView}
    {status : HookStatus}
    {taken : List PacketPtr} :
    absorb strategy len number p v =
        .ok (status, v', taken) ↔
      ∃ w, place strategy number p v = (status, w, taken) ∧
        Room v.inputQueue
          (payloads len (arrivedPackets status p taken)) ∧
        v' = { w with
          inputQueue := v.inputQueue ++
            payloads len (arrivedPackets status p taken) } := by
  rw [absorb_eq]
  rcases hPlace : place strategy number p v with
    ⟨status₁, w₁, taken₁⟩
  dsimp only
  constructor
  · intro hOk
    split at hOk
    · next hRoom =>
        cases hOk
        exact ⟨w₁, rfl, hRoom, rfl⟩
    · cases hOk
  · rintro ⟨w, hEq, hRoom, rfl⟩
    cases hEq
    rw [if_pos hRoom]

end NetBlocks
