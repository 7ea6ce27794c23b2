import NetBlocks.Lib.Runs
import Mathlib.Data.Fintype.Card
import Mathlib.Logic.Function.Basic

/-
  The receiving end of a numbered stream: a buffer that holds
  what arrived too early, and a queue of what can be read. It
  is a machine over payloads, whatever memory they are in.

  Main declarations:
    * `Buffer.arrive` and `Buffer.Rel.arrive`
    * `Receiver` and `Receiver.Steps`
-/

namespace ReorderBuffer

open TransitionSystem

variable {N K α β : Type}

------------------------------------------------------------
-- Buffers
------------------------------------------------------------

/- How numbers count, and the slot that each belongs to. -/
structure Numbering (N K : Type) where
  zero : N
  next : N → N
  slot : N → K

/-
  What is delivered: everything, what is newer than all that
  was, or what is next, while the rest is held.
-/
inductive Policy where
| pass
| newest
| hold
deriving DecidableEq

structure Buffer (N K α : Type) where
  last : N
  largest : N
  held : K → Option α

namespace Buffer

/- Nothing arrived yet. -/
def blank
    (num : Numbering N K) : Buffer N K α where
  last := num.zero
  largest := num.zero
  held := fun _ => none

variable
    [LE N] [LT N] [DecidableLE N] [DecidableLT N]
    [DecidableEq N] [DecidableEq K] [Fintype K]

/- Deliver what is held from the number `i` on. -/
def drain
    (num : Numbering N K) :
    Nat → N → Buffer N K α → Buffer N K α × List α
| 0, _, b => (b, [])
| fuel + 1, i, b =>
    if i ≤ b.largest then
      match b.held (num.slot i) with
      | none => (b, [])
      | some x =>
          let r := drain num fuel (num.next i)
            { b with
              last := i
              held := Function.update b.held (num.slot i)
                none }
          (r.1, x :: r.2)
    else
      (b, [])

def hold
    (num : Numbering N K)
    (n : N)
    (x : α)
    (b : Buffer N K α) : Buffer N K α :=
  { b with
    held := Function.update b.held (num.slot n) (some x)
    largest := if b.largest < n then n else b.largest }

/- `x` arrives under the number `n`. -/
def arrive
    (num : Numbering N K)
    (policy : Policy)
    (n : N)
    (x : α)
    (b : Buffer N K α) : Buffer N K α × List α :=
  match policy with
  | .pass => (b, [x])
  | .newest =>
      if b.last < n then
        ({ b with last := n }, [x])
      else
        (b, [])
  | .hold =>
      if b.last = num.zero ∨ n = num.next b.last then
        let r := drain num (Fintype.card K + 1) (num.next n)
          { b with last := n }
        (r.1, x :: r.2)
      else
        (b.hold num n x, [])

/- What arrives first is delivered, whatever its number. -/
theorem arrive_first
    {num : Numbering N K}
    {policy : Policy}
    {n : N}
    {b : Buffer N K α}
    (x : α)
    (hPolicy : policy ≠ .pass)
    (hZero : b.last = num.zero)
    (hNone : ∀ k, b.held k = none)
    (hNumber : num.zero < n) :
    (b.arrive num policy n x).2 = [x] ∧
      (b.arrive num policy n x).1.last = n := by
  have hDrain : ∀ fuel i, drain num (fuel + 1) i
      { b with last := n } = ({ b with last := n }, []) := by
    intro fuel i
    rw [drain]
    split
    · dsimp only
      rw [hNone]
    · rfl
  unfold Buffer.arrive
  cases policy with
  | pass => exact absurd rfl hPolicy
  | newest =>
      dsimp only
      rw [if_pos (by rw [hZero]; exact hNumber)]
      exact ⟨rfl, rfl⟩
  | hold =>
      dsimp only
      rw [if_pos (Or.inl hZero), hDrain]
      exact ⟨rfl, rfl⟩

------------------------------------------------------------
-- The Same Buffer Over Other Payloads
------------------------------------------------------------

/- Slot by slot, what is held is related. -/
structure Rel
    (R : α → β → Prop)
    (b : Buffer N K α)
    (b' : Buffer N K β) : Prop where
  last : b'.last = b.last
  largest : b'.largest = b.largest
  held : ∀ k, Option.Rel R (b.held k) (b'.held k)

section Rel

variable
    {R : α → β → Prop}
    {num : Numbering N K}
    {b : Buffer N K α}
    {b' : Buffer N K β}
    {x : α}
    {y : β}

omit [LE N] [LT N] [DecidableLE N] [DecidableLT N]
  [DecidableEq N] [Fintype K] in
/- Slots are assigned on both sides. -/
theorem Rel.update
    {o : Option α}
    {o' : Option β}
    (hRel : ∀ k, Option.Rel R (b.held k) (b'.held k))
    (hNew : Option.Rel R o o')
    (k l : K) :
    Option.Rel R (Function.update b.held k o l)
      (Function.update b'.held k o' l) := by
  by_cases hEq : l = k
  · subst hEq
    rw [Function.update_self, Function.update_self]
    exact hNew
  · rw [Function.update_of_ne hEq, Function.update_of_ne hEq]
    exact hRel l

omit [LT N] [DecidableLT N] [DecidableEq N] [Fintype K] in
/- Draining does not look at the payloads. -/
theorem Rel.drain
    (hRel : Rel R b b')
    (fuel : Nat)
    (i : N) :
    Rel R (drain num fuel i b).1 (drain num fuel i b').1 ∧
      List.Forall₂ R (drain num fuel i b).2
        (drain num fuel i b').2 := by
  induction fuel generalizing i b b' with
  | zero => exact ⟨hRel, .nil⟩
  | succ fuel ih =>
      unfold Buffer.drain
      rw [hRel.largest]
      split
      · have hSlot := hRel.held (num.slot i)
        generalize b.held (num.slot i) = o at hSlot
        generalize b'.held (num.slot i) = o' at hSlot
        cases hSlot with
        | none => exact ⟨hRel, .nil⟩
        | some hxy =>
            have hTaken : Rel R
                { b with
                  last := i
                  held := Function.update b.held (num.slot i)
                    none }
                { last := i
                  largest := b.largest
                  held := Function.update b'.held (num.slot i)
                    none } :=
              ⟨rfl, rfl, fun l =>
                Rel.update hRel.held .none _ l⟩
            rcases ih hTaken (num.next i) with ⟨hEnd, hAll⟩
            exact ⟨hEnd, .cons hxy hAll⟩
      · exact ⟨hRel, .nil⟩

/- Nor does anything else that happens to a buffer. -/
theorem Rel.arrive
    (num : Numbering N K)
    (policy : Policy)
    (n : N)
    (hRel : Rel R b b')
    (hxy : R x y) :
    Rel R (arrive num policy n x b).1
        (arrive num policy n y b').1 ∧
      List.Forall₂ R (arrive num policy n x b).2
        (arrive num policy n y b').2 := by
  cases policy with
  | pass => exact ⟨hRel, .cons hxy .nil⟩
  | newest =>
      unfold Buffer.arrive
      dsimp only
      rw [hRel.last]
      split
      · exact ⟨⟨rfl, hRel.largest, hRel.held⟩, .cons hxy .nil⟩
      · exact ⟨hRel, .nil⟩
  | hold =>
      unfold Buffer.arrive
      dsimp only
      rw [hRel.last]
      split
      · have hNext : Rel R { b with last := n }
            { b' with last := n } :=
          ⟨rfl, hRel.largest, hRel.held⟩
        rcases hNext.drain (Fintype.card K + 1) (num.next n)
          with ⟨hEnd, hAll⟩
        exact ⟨hEnd, .cons hxy hAll⟩
      · refine ⟨⟨hRel.last, ?_, fun l =>
          Rel.update hRel.held (.some hxy) _ l⟩, .nil⟩
        unfold Buffer.hold
        rw [hRel.largest]

end Rel

end Buffer

------------------------------------------------------------
-- Receivers
------------------------------------------------------------

/- A buffer for payloads, and those that can be read. -/
structure Receiver (N K α : Type) where
  buffer : Buffer N K (List α)
  queue : List (List α)

/- What happens to a receiver, as seen from outside -/
inductive Event (N α : Type) where
| opens
| closes
| arrives (n : N) (payload : List α)
| reads (len : Nat) (piece : List α)
| quiet

def Event.isHeard : Event N α → Bool
| .quiet => false
| _ => true

namespace Receiver

variable
    [LE N] [LT N] [DecidableLE N] [DecidableLT N]
    [DecidableEq N] [DecidableEq K] [Fintype K]

def blank
    (num : Numbering N K) : Receiver N K α where
  buffer := .blank num
  queue := []

/- What is delivered can be read, unless it is empty. -/
def arrive
    (num : Numbering N K)
    (policy : Policy)
    (r : Receiver N K α)
    (n : N)
    (payload : List α) : Receiver N K α where
  buffer := (r.buffer.arrive num policy n payload).1
  queue := r.queue ++
    (r.buffer.arrive num policy n payload).2.filter (· ≠ [])

/-
  A receiver that is open or not. A payload is read once, and
  what does not fit is lost.
-/
inductive Steps
    (num : Numbering N K)
    (policy : Policy) :
    Option (Receiver N K α) → Event N α →
      Option (Receiver N K α) → Prop
| opens : Steps num policy none .opens (some (.blank num))
| closes {r : Receiver N K α} :
    Steps num policy (some r) .closes none
| arrives {r : Receiver N K α} {n : N} {payload : List α} :
    Steps num policy (some r) (.arrives n payload)
      (some (r.arrive num policy n payload))
| reads {r : Receiver N K α} {len : Nat}
    {payload : List α} {queue : List (List α)} :
    r.queue = payload :: queue →
    Steps num policy (some r) (.reads len (payload.take len))
      (some { r with queue := queue })
| quiet {r : Option (Receiver N K α)} :
    Steps num policy r .quiet r

/- Numbered payloads arrive one after the other. -/
def arriveAll
    (num : Numbering N K)
    (policy : Policy)
    (r : Receiver N K α)
    (arrivals : List (N × List α)) : Receiver N K α :=
  arrivals.foldl
    (fun r x => r.arrive num policy x.1 x.2) r

section Runs

variable
    {num : Numbering N K}
    {policy : Policy}
    {r : Receiver N K α}
    {start rest : Option (Receiver N K α)}
    {arrivals : List (N × List α)}
    {events : List (Event N α)}

/-
  What is older than what was delivered last is not delivered,
  unless everything is.
-/
theorem arrive_late
    {n : N}
    (payload : List α)
    (hPolicy : policy ≠ .pass)
    (hSome : r.buffer.last ≠ num.zero)
    (hOld : ¬ r.buffer.last < n)
    (hNext : n ≠ num.next r.buffer.last) :
    (r.arrive num policy n payload).queue = r.queue ∧
      (r.arrive num policy n payload).buffer.last =
        r.buffer.last := by
  unfold Receiver.arrive Buffer.arrive
  cases policy with
  | pass => exact absurd rfl hPolicy
  | newest =>
      dsimp only
      rw [if_neg hOld]
      exact ⟨List.append_nil _, rfl⟩
  | hold =>
      have hNot : ¬ (r.buffer.last = num.zero ∨
          n = num.next r.buffer.last) := by
        rintro (hZero | hEq)
        · exact hSome hZero
        · exact hNext hEq
      dsimp only
      rw [if_neg hNot]
      exact ⟨List.append_nil _, rfl⟩

theorem arriveAll_late
    (hPolicy : policy ≠ .pass)
    (hSome : r.buffer.last ≠ num.zero)
    (hOld : ∀ x ∈ arrivals, ¬ r.buffer.last < x.1 ∧
      x.1 ≠ num.next r.buffer.last) :
    (r.arriveAll num policy arrivals).queue = r.queue := by
  induction arrivals generalizing r with
  | nil => rfl
  | cons x arrivals ih =>
      rcases hOld x List.mem_cons_self with ⟨hNot, hNext⟩
      rcases arrive_late x.2 hPolicy hSome hNot hNext with
        ⟨hQueue, hLast⟩
      change ((r.arrive num policy x.1 x.2).arriveAll num
        policy arrivals).queue = _
      rw [ih (by rw [hLast]; exact hSome) (by
        intro y hy
        rw [hLast]
        exact hOld y (List.mem_cons_of_mem _ hy)), hQueue]

/- The first payload is delivered, whatever its number. -/
theorem arrive_blank
    {n : N}
    (payload : List α)
    (hPolicy : policy ≠ .pass)
    (hNumber : num.zero < n) :
    ((blank num).arrive num policy n payload).queue =
        [payload].filter (· ≠ []) ∧
      ((blank num : Receiver N K α).arrive num policy n
        payload).buffer.last = n := by
  let b : Buffer N K (List α) := .blank num
  have hFirst : (b.arrive num policy n payload).2 =
        [payload] ∧
      (b.arrive num policy n payload).1.last = n :=
    Buffer.arrive_first payload hPolicy rfl (fun _ => rfl)
      hNumber
  rcases hFirst with ⟨hDelivered, hLast⟩
  refine ⟨?_, hLast⟩
  change [] ++ List.filter _ _ = _
  rw [List.nil_append]
  exact congrArg (List.filter _) hDelivered

/-
  If the newest arrives first, it is all that is delivered,
  unless everything is.
-/
theorem arriveAll_newest
    {n : N}
    {payload : List α}
    (hPolicy : policy ≠ .pass)
    (hNumber : num.zero < n)
    (hSome : n ≠ num.zero)
    (hOld : ∀ x ∈ arrivals, ¬ n < x.1 ∧ x.1 ≠ num.next n) :
    ((blank num).arriveAll num policy
      ((n, payload) :: arrivals)).queue =
        [payload].filter (· ≠ []) := by
  have hFirst := arrive_blank (K := K) payload hPolicy hNumber
  rcases hFirst with ⟨hQueue, hLast⟩
  change (((blank num).arrive num policy n payload).arriveAll
    num policy arrivals).queue = _
  rw [arriveAll_late hPolicy (by rw [hLast]; exact hSome)
    (by rw [hLast]; exact hOld), hQueue]

/- Steps that are not quiet decide what is received. -/
theorem eq_arriveAll_of_run
    (hRun : Run (Steps num policy) (some r) events rest)
    (hEvents : events.filter Event.isHeard =
      arrivals.map (fun x => .arrives x.1 x.2)) :
    rest = some (r.arriveAll num policy arrivals) := by
  generalize hStart : some r = start at hRun
  induction hRun generalizing r arrivals with
  | nil r₀ =>
      subst hStart
      rw [List.filter_nil] at hEvents
      rw [List.map_eq_nil_iff.mp hEvents.symm]
      rfl
  | @cons r₀ r₁ _ event events hStep _ ih =>
      subst hStart
      cases hStep with
      | quiet =>
          rw [List.filter_cons_of_neg (by simp [Event.isHeard])]
            at hEvents
          exact ih hEvents rfl
      | @arrives _ n payload =>
          rw [List.filter_cons_of_pos rfl] at hEvents
          cases arrivals with
          | nil => cases hEvents
          | cons x arrivals =>
              rcases x with ⟨m, bytes⟩
              rw [List.map_cons, List.cons.injEq] at hEvents
              rcases hEvents with ⟨hSame, hRest⟩
              cases hSame
              have hEnd := ih hRest rfl
              exact hEnd
      | closes =>
          rw [List.filter_cons_of_pos rfl] at hEvents
          cases arrivals <;> cases hEvents
      | reads =>
          rw [List.filter_cons_of_pos rfl] at hEvents
          cases arrivals <;> cases hEvents

/- A receiver that is opened first begins with nothing. -/
theorem eq_of_opened_run
    (hRun : Run (Steps num policy) none events rest)
    (hEvents : events.filter Event.isHeard =
      .opens :: arrivals.map (fun x => .arrives x.1 x.2)) :
    rest = some ((blank num).arriveAll num policy
      arrivals) := by
  generalize hStart : (none : Option (Receiver N K α)) = start
    at hRun
  induction hRun with
  | nil r₀ => cases hEvents
  | @cons r₀ r₁ _ event events hStep hRest ih =>
      subst hStart
      cases hStep with
      | quiet =>
          rw [List.filter_cons_of_neg (by simp [Event.isHeard])]
            at hEvents
          exact ih hEvents rfl
      | opens =>
          rw [List.filter_cons_of_pos rfl] at hEvents
          exact eq_arriveAll_of_run hRest
            (List.cons.inj hEvents).2

end Runs

end Receiver

end ReorderBuffer
