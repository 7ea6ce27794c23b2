import Mathlib.Data.Set.Insert
import NetBlocks.Lib.Runs

/-
  A group that broadcasts in one order: what a member wrote is
  relayed at one instant to all other members, each of which
  takes it later.

  Main declarations:
    * `Broadcast` and `Broadcast.Step`
    * `Broadcast.relayed` and `Broadcast.due`
    * `Broadcast.writes_of_run` and `Broadcast.takes_of_run`
-/

open TransitionSystem

variable {C M : Type}

------------------------------------------------------------
-- The Group
------------------------------------------------------------

/-
  The members, what each client wrote that was not relayed,
  and what was relayed to it that it did not take.
-/
structure Broadcast (C M : Type) where
  members : Set C
  outbox : C → List M
  inbox : C → List M

namespace Broadcast

inductive Event (C M : Type) where
| join (c : C)
| leave (c : C)
| write (c : C) (m : M)
| relay (c : C) (m : M)
| take (c : C) (m : M)

/- Nobody joined, and nothing was written. -/
def empty : Broadcast C M :=
  { members := ∅
    outbox := fun _ => []
    inbox := fun _ => [] }

/- Others are the members that a message is relayed to. -/
structure Relays
    (c : C)
    (m : M)
    (b b' : Broadcast C M) : Prop where
  member : c ∈ b.members
  members : b'.members = b.members
  own : b.outbox c = m :: b'.outbox c
  outbox : ∀ d, d ≠ c → b'.outbox d = b.outbox d
  others : ∀ d ∈ b.members, d ≠ c →
    b'.inbox d = b.inbox d ++ [m]
  rest : ∀ d, ¬ (d ∈ b.members ∧ d ≠ c) →
    b'.inbox d = b.inbox d

inductive Step :
    Broadcast C M → Event C M → Broadcast C M → Prop where
| join {b b' : Broadcast C M} {c : C} :
    b'.members = insert c b.members →
    b'.outbox = b.outbox → b'.inbox = b.inbox →
      Step b (.join c) b'
| leave {b b' : Broadcast C M} {c : C} :
    b'.members = b.members \ {c} →
    b'.outbox = b.outbox → b'.inbox = b.inbox →
      Step b (.leave c) b'
| write {b b' : Broadcast C M} {c : C} {m : M} :
    b'.members = b.members →
    b'.outbox c = b.outbox c ++ [m] →
    (∀ d, d ≠ c → b'.outbox d = b.outbox d) →
    b'.inbox = b.inbox →
      Step b (.write c m) b'
| relay {b b' : Broadcast C M} {c : C} {m : M} :
    Relays c m b b' → Step b (.relay c m) b'
| take {b b' : Broadcast C M} {c : C} {m : M} :
    b'.members = b.members →
    b'.outbox = b.outbox →
    b.inbox c = m :: b'.inbox c →
    (∀ d, d ≠ c → b'.inbox d = b.inbox d) →
      Step b (.take c m) b'

------------------------------------------------------------
-- What Was Written, Relayed and Taken
------------------------------------------------------------

section Histories

variable [DecidableEq C]

/- What a client wrote. -/
def writes (c : C) : List (Event C M) → List M
| [] => []
| .write d m :: events =>
    if d = c then m :: writes c events else writes c events
| _ :: events => writes c events

/- What a client took. -/
def takes (c : C) : List (Event C M) → List M
| [] => []
| .take d m :: events =>
    if d = c then m :: takes c events else takes c events
| _ :: events => takes c events

/- The one order in which messages were relayed. -/
def relayed : List (Event C M) → List (C × M)
| [] => []
| .relay c m :: events => (c, m) :: relayed events
| _ :: events => relayed events

/- The messages of one client in that order. -/
def sentBy
    (c : C)
    (events : List (Event C M)) : List M :=
  ((relayed events).filter (fun sent => sent.1 = c)).map
    Prod.snd

@[simp] theorem sentBy_write
    (c d : C)
    (m : M)
    (events : List (Event C M)) :
    sentBy c (.write d m :: events) = sentBy c events :=
  rfl

@[simp] theorem sentBy_relay
    (c d : C)
    (m : M)
    (events : List (Event C M)) :
    sentBy c (.relay d m :: events) =
      if d = c then
        m :: sentBy c events
      else
        sentBy c events := by
  by_cases hEq : d = c <;> simp [sentBy, relayed, hEq]

/-
  What was relayed of others while a client was a member,
  from whether it is a member at the start.
-/
def due (c : C) : Bool → List (Event C M) → List M
| _, [] => []
| member, .join d :: events =>
    due c (member || d = c) events
| member, .leave d :: events =>
    due c (member && d ≠ c) events
| member, .relay d m :: events =>
    if member ∧ d ≠ c then
      m :: due c member events
    else
      due c member events
| member, _ :: events => due c member events

/- It is in the order in which messages were relayed. -/
theorem due_sublist
    (c : C)
    (member : Bool)
    (events : List (Event C M)) :
    (due c member events).Sublist
      (((relayed events).filter
        (fun sent => sent.1 ≠ c)).map Prod.snd) := by
  induction events generalizing member with
  | nil => exact List.Sublist.refl _
  | cons e events ih =>
      cases e with
      | join d => exact ih _
      | leave d => exact ih _
      | write d m => exact ih _
      | take d m => exact ih _
      | relay d m =>
          by_cases hOwn : d = c
          · simp only [due, relayed, hOwn, ne_eq,
              not_true_eq_false, and_false, if_false,
              decide_false, List.filter_cons_of_neg,
              Bool.false_eq_true, not_false_eq_true]
            exact ih member
          · simp only [due, relayed, hOwn, ne_eq,
              not_false_eq_true, and_true, decide_true,
              List.filter_cons_of_pos, List.map_cons]
            cases member with
            | true => exact (ih true).cons_cons m
            | false => exact (ih false).cons m

end Histories

------------------------------------------------------------
-- Runs
------------------------------------------------------------

section Runs

variable
    [DecidableEq C]
    {b b' : Broadcast C M}
    {events : List (Event C M)}

/-
  What a client wrote is relayed in the order written, and
  the rest waits.
-/
theorem writes_of_run
    (hRun : Run Step b events b')
    (c : C) :
    b.outbox c ++ writes c events =
      sentBy c events ++ b'.outbox c := by
  induction hRun with
  | nil b => simp [writes, sentBy, relayed]
  | @cons b _ _ e events hStep _ ih =>
      cases hStep with
      | join _ hOut _ =>
          rw [hOut] at ih
          exact ih
      | leave _ hOut _ =>
          rw [hOut] at ih
          exact ih
      | take _ hOut _ _ =>
          rw [hOut] at ih
          exact ih
      | @write _ d m _ hOwn hOut _ =>
          by_cases hEq : d = c
          · subst hEq
            rw [hOwn, List.append_assoc] at ih
            simpa [writes] using ih
          · rw [hOut c (Ne.symm hEq)] at ih
            simpa [writes, hEq] using ih
      | @relay _ d m hRelays =>
          by_cases hEq : d = c
          · subst hEq
            rw [hRelays.own, sentBy_relay, if_pos rfl]
            exact congrArg (List.cons m) ih
          · rw [hRelays.outbox c (Ne.symm hEq)] at ih
            rw [sentBy_relay, if_neg hEq]
            exact ih

/-
  What a client takes, and what waits for it, is what was
  relayed of others while it was a member.
-/
theorem takes_of_run
    (hRun : Run Step b events b')
    (c : C)
    (member : Bool)
    (hMember : member = true ↔ c ∈ b.members) :
    takes c events ++ b'.inbox c =
      b.inbox c ++ due c member events := by
  induction hRun generalizing member with
  | nil b => simp [takes, due]
  | @cons b _ _ e events hStep _ ih =>
      cases hStep with
      | @join _ d hMembers _ hIn =>
          rw [← hIn]
          apply ih
          rw [hMembers, Bool.or_eq_true, hMember,
            decide_eq_true_iff, Set.mem_insert_iff, or_comm,
            eq_comm (a := d)]
      | @leave _ d hMembers _ hIn =>
          rw [← hIn]
          apply ih
          rw [hMembers, Bool.and_eq_true, hMember,
            decide_eq_true_iff, ne_eq, eq_comm (a := d)]
          rfl
      | write hMembers _ _ hIn =>
          rw [← hIn]
          apply ih
          rw [hMembers]
          exact hMember
      | @take _ d m hMembers _ hOwn hIn =>
          have hRest := ih member (by rw [hMembers, hMember])
          by_cases hEq : d = c
          · subst hEq
            simp only [takes, due, hOwn, if_true,
              List.cons_append]
            exact congrArg (List.cons m) hRest
          · rw [hIn c (Ne.symm hEq)] at hRest
            simpa [takes, due, hEq] using hRest
      | @relay _ d m hRelays =>
          have hRest := ih member
            (by rw [hRelays.members, hMember])
          by_cases hOther : member = true ∧ d ≠ c
          · rw [hRelays.others c (hMember.mp hOther.1)
              (Ne.symm hOther.2), List.append_assoc] at hRest
            simpa [takes, due, hOther] using hRest
          · have hRest' := hRelays.rest c (fun hBoth =>
              hOther ⟨hMember.mpr hBoth.1, Ne.symm hBoth.2⟩)
            rw [hRest'] at hRest
            rw [due, if_neg hOther]
            exact hRest

/- What a client takes is a first part of what is due to it. -/
theorem takes_prefix_of_run
    (hRun : Run Step empty events b)
    (c : C) :
    takes c events <+: due c false events := by
  have hAll := takes_of_run hRun c false (by simp [empty])
  exact ⟨b.inbox c, hAll⟩

end Runs

end Broadcast
