import Mathlib.Data.Fintype.EquivFin
import Mathlib.Data.List.Nodup
import NetBlocks.Correctness.HubBroadcast

/-
  From one `select` to the next the hub reads each descriptor
  that was ready once, whichever ones it closes on the way, and
  it never waits in a `read` or an `accept`.

  Main declarations:
    * `Waiting` and `Waiting.step`
    * `readsEachOnce_of_round`
    * `roundEnds_of_round`
-/

namespace NetBlocks

open SwapRemoval TransitionSystem

variable {C : Type}

------------------------------------------------------------
-- What Is Left of a Round
------------------------------------------------------------

/-
  The descriptors that the loop has still to look at, and the
  result of the last `select`.
-/
def Hub.left
    (h : Hub) : List Nat × List Nat :=
  match h.point with
  | .select => ([], [])
  | .accept set => (h.fds, set)
  | .scan set i => (h.fds.drop i, set)
  | .relay set i _ _ => (h.fds.drop (i + 1), set)

/- Those of them that were ready -/
def Hub.toRead
    (h : Hub) : List Nat :=
  h.left.1.filter (fun fd => fd ∈ h.left.2)

/- The descriptor that a move of the hub reads -/
def HubMove.reads : HubMove C → List Nat
| .read fd _ _ => [fd]
| .hangUp fd _ => [fd]
| .readFails fd => [fd]
| _ => []

/- The client that a move of the hub accepts -/
def HubMove.accepts : HubMove C → List C
| .accept _ c => [c]
| _ => []

def HubMove.isSelect : HubMove C → Bool
| .select _ => true
| _ => false

/-
  What `select` reported is still so: there is a connection to
  accept, and a descriptor that is to be read can be read.
-/
structure Waiting
    (net : HubNet C) : Prop where
  backlog : ∀ set, net.hub.point = .accept set →
    (net.hub.ipcSocket ∈ set → net.backlog ≠ []) ∧
      ∀ fd ∈ set, fd = net.hub.ipcSocket ∨ fd ∈ net.hub.fds
  readable : ∀ fd ∈ net.hub.toRead, net.Readable fd

theorem Hub.toRead_scan
    {h : Hub}
    {set : List Nat}
    {i : Nat}
    (hPoint : h.point = .scan set i) :
    h.toRead = (h.fds.drop i).filter (fun fd => fd ∈ set) := by
  rw [Hub.toRead, Hub.left, hPoint]

theorem Hub.toRead_relay
    {h : Hub}
    {set : List Nat}
    {i j : Nat}
    {buffer : List Byte}
    (hPoint : h.point = .relay set i buffer j) :
    h.toRead =
      (h.fds.drop (i + 1)).filter (fun fd => fd ∈ set) := by
  rw [Hub.toRead, Hub.left, hPoint]

/- The descriptor at the head of the loop comes first. -/
theorem Hub.toRead_head
    {h : Hub}
    {set : List Nat}
    {i fd : Nat}
    (hPoint : h.point = .scan set i)
    (hFd : h.fds[i]? = some fd)
    (hSet : fd ∈ set) :
    h.toRead = fd ::
      (h.fds.drop (i + 1)).filter (fun fd => fd ∈ set) := by
  rcases List.getElem?_eq_some_iff.mp hFd with ⟨hLt, rfl⟩
  rw [Hub.toRead_scan hPoint, List.drop_eq_getElem_cons hLt,
    List.filter_cons_of_pos (by simpa using hSet)]

theorem Hub.toRead_skip
    {h : Hub}
    {set : List Nat}
    {i fd : Nat}
    (hPoint : h.point = .scan set i)
    (hFd : h.fds[i]? = some fd)
    (hSet : fd ∉ set) :
    h.toRead =
      (h.fds.drop (i + 1)).filter (fun fd => fd ∈ set) := by
  rcases List.getElem?_eq_some_iff.mp hFd with ⟨hLt, rfl⟩
  rw [Hub.toRead_scan hPoint, List.drop_eq_getElem_cons hLt,
    List.filter_cons_of_neg (by simpa using hSet)]

theorem Hub.toRead_end
    {h : Hub}
    {set : List Nat}
    {i : Nat}
    (hPoint : h.point = .scan set i)
    (hEnd : h.fds.length ≤ i) :
    h.toRead = [] := by
  rw [Hub.toRead_scan hPoint, List.drop_of_length_le hEnd]
  rfl

/- After a new connection the same ones are to be read. -/
theorem Hub.toRead_accepted
    {h h' : Hub}
    {set : List Nat}
    {newFd : Nat}
    (hPoint : h.point = .accept set)
    (hNew : newFd ∉ set)
    (hAccepted : h.accepted set newFd = .ok h') :
    h'.toRead = h.toRead := by
  rcases Hub.accepted_ok_iff.mp hAccepted with ⟨-, rfl⟩
  have hNone : [newFd].filter (fun fd => fd ∈ set) = [] := by
    simpa using hNew
  rw [Hub.toRead, Hub.left, Hub.toRead, Hub.left, hPoint]
  change (h.fds ++ [newFd]).filter _ = h.fds.filter _
  rw [List.filter_append, hNone, List.append_nil]

/- After a connection was closed, those behind it are. -/
theorem Hub.toRead_closed
    {h : Hub}
    {set : List Nat}
    {i fd : Nat}
    (hPoint : h.point = .scan set i)
    (hFd : h.fds[i]? = some fd)
    (hSet : fd ∈ set) :
    (fd :: (h.received set i []).toRead).Perm h.toRead := by
  have hLt := (List.getElem?_eq_some_iff.mp hFd).1
  rw [Hub.toRead_head hPoint hFd hSet]
  apply List.Perm.cons
  exact (drop_removeAt_perm hLt).filter _

theorem Hub.mem_of_toRead
    {h : Hub}
    {fd : Nat}
    (hIn : fd ∈ h.toRead) :
    fd ∈ h.fds := by
  have hLeft := (List.mem_filter.mp hIn).1
  unfold Hub.left at hLeft
  split at hLeft
  · exact absurd hLeft List.not_mem_nil
  · exact hLeft
  · exact List.mem_of_mem_drop hLeft
  · exact List.mem_of_mem_drop hLeft

theorem HubInvariant.fds_nodup
    {net : HubNet C}
    (hInv : HubInvariant net) :
    net.hub.fds.Nodup :=
  List.Nodup.of_map net.peer hInv.nodup

theorem HubInvariant.toRead_nodup
    {net : HubNet C}
    (hInv : HubInvariant net) :
    net.hub.toRead.Nodup := by
  apply List.Nodup.filter
  unfold Hub.left
  split
  · exact List.nodup_nil
  · exact hInv.fds_nodup
  · exact hInv.fds_nodup.sublist (List.drop_sublist _ _)
  · exact hInv.fds_nodup.sublist (List.drop_sublist _ _)

------------------------------------------------------------
-- One Move
------------------------------------------------------------

section Moves

variable
    [DecidableEq C]
    {net net' : HubNet C}
    {move : HubMove C}

/- A move reads none or one of those that are to be read. -/
theorem Waiting.reads
    (hWaiting : Waiting net)
    (hNoSelect : move.isSelect = false)
    (hStep : HubSteps net move net') :
    (move.reads ++ net'.hub.toRead).Perm net.hub.toRead := by
  cases hStep with
  | connect => exact List.Perm.refl _
  | write => exact List.Perm.refl _
  | poll => exact List.Perm.refl _
  | close => exact List.Perm.refl _
  | select => cases hNoSelect
  | @accept set newFd c rest hub hPoint _ _ hNew hOther
      hAccepted =>
      have hNotIn : newFd ∉ set := by
        intro hIn
        rcases (hWaiting.backlog set hPoint).2 newFd hIn with
          hListens | hOld
        · exact hOther hListens
        · exact hNew hOld
      exact List.Perm.of_eq
        (Hub.toRead_accepted hPoint hNotIn hAccepted)
  | noAccept hPoint =>
      apply List.Perm.of_eq
      rw [Hub.toRead, Hub.left, Hub.toRead, Hub.left, hPoint]
      rfl
  | skip hPoint hFd hSet =>
      rw [Hub.toRead_skip hPoint hFd hSet]
      exact List.Perm.refl _
  | @read set i fd c message rest hPoint hFd hSet _ _ hNe =>
      rw [Hub.toRead_head hPoint hFd hSet,
        Hub.received_of_ne set i net.hub hNe]
      exact List.Perm.refl _
  | hangUp hPoint hFd hSet =>
      exact Hub.toRead_closed hPoint hFd hSet
  | readFails hPoint hFd hSet =>
      rw [Hub.toRead_head hPoint hFd hSet]
      exact List.Perm.refl _
  | skipOwn hPoint =>
      rw [Hub.toRead_relay hPoint]
      exact List.Perm.refl _
  | send hPoint =>
      rw [Hub.toRead_relay hPoint]
      exact List.Perm.refl _
  | relayEnd hPoint =>
      rw [Hub.toRead_relay hPoint]
      exact List.Perm.refl _
  | scanEnd hPoint hEnd =>
      rw [Hub.toRead_end hPoint hEnd]
      exact List.Perm.refl _

/- What can be read can be until it is. -/
theorem HubNet.Readable.step
    {fd : Nat}
    (hInv : HubInvariant net)
    (hFd : fd ∈ net.hub.fds)
    (hOther : fd ∉ move.reads)
    (hReadable : net.Readable fd)
    (hStep : HubSteps net move net') :
    net'.Readable fd := by
  rcases hReadable with ⟨c, hPeer, hAny⟩
  cases hStep with
  | @connect d hAbsent =>
      refine ⟨c, hPeer, hAny.imp_right ?_⟩
      intro hClosed
      have hNe : c ≠ d := by
        rintro rfl
        rw [hAbsent] at hClosed
        cases hClosed
      exact (Function.update_of_ne hNe _ _).trans hClosed
  | @write d message =>
      refine ⟨c, hPeer, hAny.imp_left ?_⟩
      intro hUp
      by_cases hEq : c = d
      · subst hEq
        simp
      · simpa [Function.update_of_ne hEq] using hUp
  | poll => exact ⟨c, hPeer, hAny⟩
  | @close d =>
      refine ⟨c, hPeer, hAny.imp_right ?_⟩
      intro hClosed
      by_cases hEq : c = d
      · subst hEq
        exact Function.update_self _ _ _
      · exact (Function.update_of_ne hEq _ _).trans hClosed
  | select => exact ⟨c, hPeer, hAny⟩
  | @accept _ newFd _ _ _ _ _ _ hNew =>
      have hNe : fd ≠ newFd := fun hEq => hNew (hEq ▸ hFd)
      exact ⟨c, (Function.update_of_ne hNe _ _).trans hPeer,
        hAny⟩
  | noAccept => exact ⟨c, hPeer, hAny⟩
  | skip => exact ⟨c, hPeer, hAny⟩
  | @read _ _ fd' d _ _ _ hFd' _ hPeer' =>
      refine ⟨c, hPeer, hAny.imp_left ?_⟩
      intro hUp
      have hNe : c ≠ d := by
        rintro rfl
        have hSame : fd = fd' :=
          List.inj_on_of_nodup_map hInv.nodup hFd
            (List.mem_of_getElem? hFd')
            (hPeer.trans hPeer'.symm)
        exact hOther (List.mem_singleton.mpr hSame)
      simpa [Function.update_of_ne hNe] using hUp
  | hangUp => exact ⟨c, hPeer, hAny⟩
  | readFails => exact ⟨c, hPeer, hAny⟩
  | skipOwn => exact ⟨c, hPeer, hAny⟩
  | send => exact ⟨c, hPeer, hAny⟩
  | relayEnd => exact ⟨c, hPeer, hAny⟩
  | scanEnd => exact ⟨c, hPeer, hAny⟩

theorem Waiting.step
    (hInv : HubInvariant net)
    (hWaiting : Waiting net)
    (hStep : HubSteps net move net') :
    Waiting net' := by
  cases hSelect : move.isSelect with
  | true =>
      cases hStep with
      | @select set hPoint hSome hReady =>
          refine ⟨?_, ?_⟩
          · intro set' hPoint'
            cases hPoint'
            constructor
            · intro hIn
              rcases (hReady _).mp hIn with
                ⟨-, hBacklog⟩ | ⟨hFd, -⟩
              · exact hBacklog
              · exact absurd hFd hInv.unused
            · intro fd hIn
              rcases (hReady fd).mp hIn with
                ⟨hListens, -⟩ | ⟨hFd, -⟩
              · exact Or.inl hListens
              · exact Or.inr hFd
          · intro fd hIn
            rcases List.mem_filter.mp hIn with ⟨hFd, hSet⟩
            rcases (hReady fd).mp (of_decide_eq_true hSet) with
              ⟨rfl, -⟩ | ⟨-, hReadable⟩
            · exact absurd hFd hInv.unused
            · exact hReadable
      | _ => cases hSelect
  | false =>
      have hPerm := hWaiting.reads hSelect hStep
      have hNodup := hPerm.nodup_iff.mpr hInv.toRead_nodup
      refine ⟨?_, ?_⟩
      · intro set hPoint'
        cases hStep with
        | connect =>
            rcases hWaiting.backlog set hPoint' with
              ⟨-, hOld⟩
            refine ⟨fun _ => ?_, hOld⟩
            exact List.append_ne_nil_of_right_ne_nil _
              (List.cons_ne_nil _ _)
        | write | poll | close =>
            exact hWaiting.backlog set hPoint'
        | select => cases hSelect
        | @read set i _ _ _ _ _ _ _ _ _ hNe =>
            rw [Hub.received_of_ne set i net.hub hNe]
              at hPoint'
            cases hPoint'
        | accept _ _ _ _ _ hAccepted =>
            rcases Hub.accepted_ok_iff.mp hAccepted with
              ⟨-, rfl⟩
            cases hPoint'
        | _ => cases hPoint'
      · intro fd hIn
        have hOld : fd ∈ net.hub.toRead :=
          hPerm.mem_iff.mp (List.mem_append_right _ hIn)
        have hOther : fd ∉ move.reads := fun hRead =>
          (List.nodup_append.mp hNodup).2.2 fd hRead fd hIn rfl
        exact (hWaiting.readable fd hOld).step hInv
          (Hub.mem_of_toRead hOld) hOther hStep

end Moves

------------------------------------------------------------
-- A Round
------------------------------------------------------------

theorem waiting_start
    (ipcSocket : Nat) :
    Waiting (HubNet.start (C := C) ipcSocket) := by
  refine ⟨?_, ?_⟩
  · intro set hPoint
    cases hPoint
  · intro fd hIn
    exact absurd hIn List.not_mem_nil

section Accepting

variable
    {net net' : HubNet C}
    {past : List (HubMove C)}
    {move : HubMove C}
    {first : List C}

/-
  Until the test for a new connection nobody was accepted, and
  the one that was first in line still is.
-/
structure Accepts
    (first : List C)
    (past : List (HubMove C))
    (net : HubNet C) : Prop where
  before : ∀ set, net.hub.point = .accept set →
    past.flatMap HubMove.accepts = [] ∧
      first =
        if net.hub.ipcSocket ∈ set then
          net.backlog.take 1
        else
          []
  after : (∀ set, net.hub.point ≠ .accept set) →
    past.flatMap HubMove.accepts = first

/- A move that accepts nobody -/
theorem Accepts.quiet
    (hAccepts : Accepts first past net)
    (hNone : move.accepts = [])
    (hBacklog : ∀ set, net.hub.point = .accept set →
      net.hub.ipcSocket ∈ set →
        net'.backlog.take 1 = net.backlog.take 1)
    (hHub : net'.hub = net.hub) :
    Accepts first (past ++ [move]) net' := by
  have hPast : (past ++ [move]).flatMap HubMove.accepts =
      past.flatMap HubMove.accepts := by
    simp [hNone]
  refine ⟨?_, ?_⟩
  · intro set hPoint
    rw [hHub] at hPoint ⊢
    rcases hAccepts.before set hPoint with ⟨hBefore, hFirst⟩
    refine ⟨hPast.trans hBefore, ?_⟩
    rw [hFirst]
    split
    · next hListens => exact (hBacklog set hPoint hListens).symm
    · rfl
  · intro hPoint
    rw [hHub] at hPoint
    exact hPast.trans (hAccepts.after hPoint)

/- A move behind the test for a new connection -/
theorem Accepts.behind
    (hAccepts : Accepts first past net)
    (hNone : move.accepts = [])
    (hBefore : ∀ set, net.hub.point ≠ .accept set)
    (hAfter : ∀ set, net'.hub.point ≠ .accept set) :
    Accepts first (past ++ [move]) net' := by
  refine ⟨fun set hPoint => absurd hPoint (hAfter set), ?_⟩
  intro _
  rw [← hAccepts.after hBefore]
  simp [hNone]

end Accepting

section Rounds

variable
    [DecidableEq C]
    {net₀ net₁ net net' : HubNet C}
    {ipcSocket : Nat}
    {set : List Nat}
    {before past moves : List (HubMove C)}
    {move : HubMove C}
    {first : List C}

theorem waiting_of_run
    (hRun : Run HubSteps (HubNet.start ipcSocket) moves net) :
    HubInvariant net ∧ Waiting net := by
  apply hRun.invariant _
    ⟨hubInvariant_start ipcSocket, waiting_start ipcSocket⟩
  rintro net₁ move net₂ ⟨hInv, hWaiting⟩ hStep
  exact ⟨hInv.step hStep, hWaiting.step hInv hStep⟩

/-
  Those descriptors are read, and once each, whose clients had
  written or left; and the first that waited is accepted.
-/
structure ReadsEachOnce
    (net₀ : HubNet C)
    (moves : List (HubMove C)) : Prop where
  once : (moves.flatMap HubMove.reads).Nodup
  ready : ∀ fd, fd ∈ moves.flatMap HubMove.reads ↔
    fd ∈ net₀.hub.fds ∧ net₀.Readable fd
  accepted : moves.flatMap HubMove.accepts =
    net₀.backlog.take 1

theorem Accepts.step
    (hWaiting : Waiting net)
    (hAccepts : Accepts first past net)
    (hNoSelect : move.isSelect = false)
    (hStep : HubSteps net move net') :
    Accepts first (past ++ [move]) net' := by
  cases hStep with
  | connect =>
      refine hAccepts.quiet rfl ?_ rfl
      intro set hPoint hListens
      have hSome := (hWaiting.backlog set hPoint).1 hListens
      apply List.take_append_of_le_length
      exact List.length_pos_iff.mpr hSome
  | write | poll | close =>
      exact hAccepts.quiet rfl (fun _ _ _ => rfl) rfl
  | select => cases hNoSelect
  | @accept set _ _ _ _ hPoint hListens hBacklog _ _
      hAccepted =>
      rcases Hub.accepted_ok_iff.mp hAccepted with ⟨-, rfl⟩
      rcases hAccepts.before set hPoint with ⟨hNone, hFirst⟩
      rw [if_pos hListens, hBacklog] at hFirst
      refine ⟨fun _ hPoint' => (by cases hPoint'), ?_⟩
      intro _
      rw [List.flatMap_append, hNone, hFirst]
      rfl
  | @noAccept set hPoint hNot =>
      rcases hAccepts.before set hPoint with ⟨hNone, hFirst⟩
      rw [if_neg hNot] at hFirst
      refine ⟨fun _ hPoint' => (by cases hPoint'), ?_⟩
      intro _
      rw [List.flatMap_append, hNone, hFirst]
      rfl
  | @read set i _ _ _ _ hPoint _ _ _ _ hNe =>
      apply hAccepts.behind rfl (by simp [hPoint])
      simp [Hub.received_of_ne set i net.hub hNe]
  | hangUp hPoint =>
      apply hAccepts.behind rfl (by simp [hPoint])
      simp [Hub.received_nil]
  | skip hPoint | readFails hPoint | skipOwn hPoint
  | send hPoint | relayEnd hPoint | scanEnd hPoint =>
      apply hAccepts.behind rfl (by simp [hPoint])
      simp [Hub.scanned, Hub.relayed]

/- What holds in the course of a round -/
structure Round
    (first : List C)
    (ready : List Nat)
    (past : List (HubMove C))
    (net : HubNet C) : Prop where
  invariant : HubInvariant net
  waiting : Waiting net
  accepts : Accepts first past net
  reads : (past.flatMap HubMove.reads ++
    net.hub.toRead).Perm ready

theorem Round.step
    {ready : List Nat}
    (hRound : Round first ready past net)
    (hNoSelect : move.isSelect = false)
    (hStep : HubSteps net move net') :
    Round first ready (past ++ [move]) net' := by
  refine ⟨hRound.invariant.step hStep,
    hRound.waiting.step hRound.invariant hStep,
    hRound.accepts.step hRound.waiting hNoSelect hStep, ?_⟩
  rw [List.flatMap_append, List.append_assoc,
    List.flatMap_singleton]
  apply List.Perm.trans _ hRound.reads
  apply List.Perm.append_left
  exact hRound.waiting.reads hNoSelect hStep

/- A round begins with a `select`. -/
theorem round_selected
    (hInv : HubInvariant net₀)
    (hWaiting : Waiting net₀)
    (hSelect : HubSteps net₀ (.select set) net₁) :
    Round (net₀.backlog.take 1)
      (net₀.hub.fds.filter (fun fd => fd ∈ set)) [] net₁ := by
  refine ⟨hInv.step hSelect, hWaiting.step hInv hSelect, ?_,
    ?_⟩
  · cases hSelect with
    | select hPoint hSome hReady =>
        refine ⟨?_, fun hNever => absurd rfl (hNever set)⟩
        intro set' hPoint'
        cases hPoint'
        refine ⟨rfl, ?_⟩
        split
        · rfl
        · next hNot =>
            have hNone : ¬ net₀.backlog ≠ [] := fun hBacklog =>
              hNot ((hReady _).mpr (Or.inl ⟨rfl, hBacklog⟩))
            rw [not_not.mp hNone]
            rfl
  · cases hSelect with
    | select => exact List.Perm.refl _

/-
  From one `select` to the next, whoever writes, connects and
  leaves meanwhile: each descriptor that was ready is read
  once, and no other one, and the connection that was first in
  line is accepted.
-/
theorem readsEachOnce_of_round
    (hBefore :
      Run HubSteps (HubNet.start ipcSocket) before net₀)
    (hSelect : HubSteps net₀ (.select set) net₁)
    (hRound : Run
      (Guarded (fun _ move => move.isSelect = false) HubSteps)
      net₁ moves net)
    (hBack : net.hub.point = .select) :
    ReadsEachOnce net₀ moves := by
  rcases waiting_of_run hBefore with ⟨hInv, hWaiting⟩
  have hEnd := hRound.history
    (fun _ _ _ _ hRound hStep =>
      Round.step hRound hStep.1 hStep.2)
    (round_selected hInv hWaiting hSelect)
  rw [List.nil_append] at hEnd
  have hNone : net.hub.toRead = [] := by
    rw [Hub.toRead, Hub.left, hBack]
    rfl
  have hReads := hEnd.reads
  rw [hNone, List.append_nil] at hReads
  refine ⟨?_, ?_, ?_⟩
  · apply hReads.nodup_iff.mpr
    exact hInv.fds_nodup.filter _
  · intro fd
    rw [hReads.mem_iff, List.mem_filter, decide_eq_true_iff]
    apply and_congr_right
    intro hFd
    cases hSelect with
    | select hPoint hSome hReady =>
        rw [hReady]
        constructor
        · rintro (⟨rfl, -⟩ | ⟨-, hReadable⟩)
          · exact absurd hFd hInv.unused
          · exact hReadable
        · intro hReadable
          exact Or.inr ⟨hFd, hReadable⟩
  · apply hEnd.accepts.after
    intro set' hPoint
    rw [hBack] at hPoint
    cases hPoint

/- One client is read in the round that accepts another. -/
theorem readsEachOnce_of_round_relayed :
    ∃ net₀, ReadsEachOnce net₀ roundMoves := by
  rcases exists_round with ⟨net₀, hFirst, net₁, hSelect,
    net₂, hRound, hBack, -⟩
  have hNone : ∀ move ∈ roundMoves,
      HubMove.isSelect move = false := by
    decide
  have hGuarded := hRound.guard hNone
  exact ⟨net₀, readsEachOnce_of_round hFirst hSelect hGuarded
    hBack⟩

end Rounds

------------------------------------------------------------
-- A Round Ends
------------------------------------------------------------

/- The moves of the hub, as opposed to those of its clients -/
def HubMove.byHub : HubMove C → Bool
| .connect _ => false
| .write _ _ => false
| .poll _ _ => false
| .close _ => false
| _ => true

/-
  How many moves are left to the hub in a round, at most. A
  descriptor costs at most three and one for each descriptor.
-/
def Hub.cost
    (h : Hub) : Nat :=
  match h.point with
  | .select => 0
  | .accept _ => (h.fds.length + 1) * (h.fds.length + 4) + 2
  | .scan _ i =>
      (h.fds.length - i) * (h.fds.length + 3) + 1
  | .relay _ i _ j =>
      (h.fds.length - (i + 1)) * (h.fds.length + 3) +
        (h.fds.length - j) + 2

/- The array of descriptors is full, and one more is to come. -/
def Hub.Full
    (h : Hub) : Prop :=
  hubMaxFds ≤ h.fds.length ∧
    ∃ set, h.point = .accept set ∧ h.ipcSocket ∈ set

/- The head of the loop moves on by one descriptor. -/
theorem scan_cost
    {n i : Nat}
    (hLt : i < n) :
    (n - i) * (n + 3) = (n - (i + 1)) * (n + 3) + (n + 3) := by
  have hEq : n - i = n - (i + 1) + 1 := by omega
  rw [hEq, Nat.succ_mul]

section Ends

variable
    [DecidableEq C]
    {net net' : HubNet C}
    {move : HubMove C}

/- Each move of the hub brings the end of the round closer. -/
theorem HubSteps.cost
    (hNoSelect : move.isSelect = false)
    (hStep : HubSteps net move net') :
    net'.hub.cost + (if move.byHub then 1 else 0) ≤
      net.hub.cost := by
  cases hStep with
  | connect | write | poll | close => exact Nat.le_refl _
  | select => cases hNoSelect
  | @accept set newFd _ _ _ hPoint _ _ _ _ hAccepted =>
      rcases Hub.accepted_ok_iff.mp hAccepted with ⟨-, rfl⟩
      simp only [Hub.cost, hPoint, List.length_append,
        List.length_singleton, HubMove.byHub, if_true]
      simp
  | noAccept hPoint =>
      simp only [Hub.cost, Hub.scanned, hPoint, Nat.sub_zero,
        HubMove.byHub, if_true]
      have hMore : net.hub.fds.length *
          (net.hub.fds.length + 3) ≤
          (net.hub.fds.length + 1) *
            (net.hub.fds.length + 4) :=
        Nat.mul_le_mul (by omega) (by omega)
      omega
  | skip hPoint hFd =>
      have hLt := (List.getElem?_eq_some_iff.mp hFd).1
      simp only [Hub.cost, Hub.scanned, hPoint,
        HubMove.byHub, if_true, scan_cost hLt]
      omega
  | readFails hPoint hFd =>
      have hLt := (List.getElem?_eq_some_iff.mp hFd).1
      simp only [Hub.cost, Hub.scanned, hPoint,
        HubMove.byHub, if_true, scan_cost hLt]
      omega
  | @read set i _ _ _ _ hPoint hFd _ _ _ hNe =>
      have hLt := (List.getElem?_eq_some_iff.mp hFd).1
      simp only [Hub.received_of_ne set i net.hub hNe,
        Hub.cost, hPoint, HubMove.byHub, if_true,
        scan_cost hLt]
      omega
  | @hangUp set i _ _ hPoint hFd =>
      have hLt := (List.getElem?_eq_some_iff.mp hFd).1
      have hLength := length_removeAt hLt
      have hLess : ((removeAt net.hub.fds i).length - i) *
          ((removeAt net.hub.fds i).length + 3) ≤
          (net.hub.fds.length - (i + 1)) *
            (net.hub.fds.length + 3) :=
        Nat.mul_le_mul (by omega) (by omega)
      simp only [Hub.received_nil, Hub.cost, hPoint,
        HubMove.byHub, if_true, scan_cost hLt]
      omega
  | skipOwn hPoint hLt =>
      simp only [Hub.cost, Hub.relayed, hPoint,
        HubMove.byHub, if_true]
      omega
  | send hPoint _ hFd =>
      have hLt := (List.getElem?_eq_some_iff.mp hFd).1
      simp only [Hub.cost, Hub.relayed, hPoint,
        HubMove.byHub, if_true]
      omega
  | relayEnd hPoint =>
      simp only [Hub.cost, Hub.scanned, hPoint,
        HubMove.byHub, if_true]
      omega
  | scanEnd hPoint =>
      simp only [Hub.cost, hPoint, HubMove.byHub, if_true]
      omega

/- The hub can move, other than to wait for a descriptor. -/
def RunsOn
    (net : HubNet C) : Prop :=
  ∃ move net', HubMove.byHub move = true ∧
    HubMove.isSelect move = false ∧ HubSteps net move net'

/- A descriptor that is ready can be read. -/
theorem RunsOn.read
    {set : List Nat}
    {i fd : Nat}
    (hPoint : net.hub.point = .scan set i)
    (hFd : net.hub.fds[i]? = some fd)
    (hSet : fd ∈ set)
    (hReadable : net.Readable fd) :
    RunsOn net := by
  rcases hReadable with ⟨c, hPeer, hAny⟩
  cases hUp : net.up c with
  | nil =>
      have hClosed : net.status c = .closed :=
        hAny.resolve_left (not_not.mpr hUp)
      exact ⟨_, _, rfl, rfl, .hangUp hPoint hFd hSet hPeer
        (Or.inl ⟨hUp, hClosed⟩)⟩
  | cons message rest =>
      cases message with
      | nil =>
          exact ⟨_, _, rfl, rfl, .hangUp hPoint hFd hSet hPeer
            (Or.inr (by rw [hUp]; rfl))⟩
      | cons b message =>
          exact ⟨_, _, rfl, rfl, .read hPoint hFd hSet hPeer
            hUp (List.cons_ne_nil _ _)⟩

/- In a round the hub can move, if its array has room. -/
theorem runsOn_or_full
    (hInv : HubInvariant net)
    (hWaiting : Waiting net) :
    net.hub.point = .select ∨ net.hub.Full ∨ RunsOn net := by
  cases hPoint : net.hub.point with
  | select => exact Or.inl rfl
  | accept set =>
      by_cases hListens : net.hub.ipcSocket ∈ set
      · by_cases hRoom : net.hub.fds.length < hubMaxFds
        · have hSome := (hWaiting.backlog set hPoint).1 hListens
          rcases List.exists_cons_of_ne_nil hSome with
            ⟨c, rest, hBacklog⟩
          -- the kernel finds a descriptor that is not in use
          rcases Infinite.exists_notMem_finset
              (net.hub.ipcSocket :: net.hub.fds).toFinset with
            ⟨newFd, hNew⟩
          rw [List.mem_toFinset, List.mem_cons, not_or] at hNew
          refine Or.inr (Or.inr ⟨_, _, rfl, rfl, .accept hPoint
            hListens hBacklog hNew.2 hNew.1
            (Hub.accepted_ok_iff.mpr ⟨hRoom, rfl⟩)⟩)
        · exact Or.inr (Or.inl
            ⟨Nat.le_of_not_lt hRoom, set, hPoint, hListens⟩)
      · exact Or.inr (Or.inr
          ⟨_, _, rfl, rfl, .noAccept hPoint hListens⟩)
  | scan set i =>
      refine Or.inr (Or.inr ?_)
      cases hFd : net.hub.fds[i]? with
      | none =>
          exact ⟨_, _, rfl, rfl,
            .scanEnd hPoint (List.getElem?_eq_none_iff.mp hFd)⟩
      | some fd =>
          by_cases hSet : fd ∈ set
          · have hIn : fd ∈ net.hub.toRead := by
              rw [Hub.toRead_head hPoint hFd hSet]
              exact List.mem_cons_self
            exact RunsOn.read hPoint hFd hSet
              (hWaiting.readable fd hIn)
          · exact ⟨_, _, rfl, rfl, .skip hPoint hFd hSet⟩
  | relay set i buffer j =>
      refine Or.inr (Or.inr ?_)
      cases hFd : net.hub.fds[j]? with
      | none =>
          exact ⟨_, _, rfl, rfl,
            .relayEnd hPoint (List.getElem?_eq_none_iff.mp hFd)⟩
      | some fd =>
          by_cases hOwn : i = j
          · subst hOwn
            exact ⟨_, _, rfl, rfl, .skipOwn hPoint
              (List.getElem?_eq_some_iff.mp hFd).1⟩
          · cases hPeer : net.peer fd with
            | none =>
                exact absurd (hPeer ▸ List.mem_map_of_mem
                  (List.mem_of_getElem? hFd)) hInv.named
            | some c =>
                exact ⟨_, _, rfl, rfl,
                  .send hPoint hOwn hFd hPeer⟩

variable
    {net₀ net₁ : HubNet C}
    {ipcSocket : Nat}
    {set : List Nat}
    {before past moves : List (HubMove C)}

/-
  The hub makes a bounded number of moves in a round, and is
  not held up by a `read` or an `accept` before its end.
-/
structure RoundEnds
    (net₀ : HubNet C)
    (moves : List (HubMove C))
    (net : HubNet C) : Prop where
  bounded : moves.countP HubMove.byHub ≤
    (net₀.hub.fds.length + 1) * (net₀.hub.fds.length + 4) + 2
  runsOn : net.hub.point = .select ∨ net.hub.Full ∨
    RunsOn net

/-
  Whatever its clients do meanwhile, the hub comes back to
  `select`, unless it runs out of room for a new connection.
-/
theorem roundEnds_of_round
    (hBefore :
      Run HubSteps (HubNet.start ipcSocket) before net₀)
    (hSelect : HubSteps net₀ (.select set) net₁)
    (hRound : Run
      (Guarded (fun _ move => move.isSelect = false) HubSteps)
      net₁ moves net) :
    RoundEnds net₀ moves net := by
  rcases waiting_of_run hBefore with ⟨hInv₀, hWaiting₀⟩
  have hKept := (hRound.mono
    (fun _ _ _ hStep => hStep.2)).invariant
    (fun s _ _ (hBoth : HubInvariant s ∧ Waiting s) hStep =>
      ⟨hBoth.1.step hStep, hBoth.2.step hBoth.1 hStep⟩)
    ⟨hInv₀.step hSelect, hWaiting₀.step hInv₀ hSelect⟩
  refine ⟨?_, runsOn_or_full hKept.1 hKept.2⟩
  let within : List (HubMove C) → HubNet C → Prop :=
    fun past net =>
      net.hub.cost + past.countP HubMove.byHub ≤ net₁.hub.cost
  have hCost : within ([] ++ moves) net := by
    apply hRound.history _ (Nat.le_refl _)
    rintro past s move t hPast ⟨hNo, hStep⟩
    have hLess := hStep.cost hNo
    have hBefore : s.hub.cost + past.countP HubMove.byHub ≤
        net₁.hub.cost := hPast
    change t.hub.cost + (past ++ [move]).countP _ ≤ _
    rw [List.countP_append, List.countP_singleton]
    omega
  have hStart : net₁.hub.cost =
      (net₀.hub.fds.length + 1) *
        (net₀.hub.fds.length + 4) + 2 := by
    cases hSelect with
    | select => rfl
  have hAll : net.hub.cost + moves.countP HubMove.byHub ≤
      net₁.hub.cost := hCost
  omega

/- A round that accepts one client and reads another -/
theorem roundEnds_of_round_relayed :
    ∃ net₀ net, RoundEnds net₀ roundMoves net := by
  rcases exists_round with ⟨net₀, hFirst, net₁, hSelect,
    net₂, hRound, -⟩
  have hNone : ∀ move ∈ roundMoves,
      HubMove.isSelect move = false := by
    decide
  exact ⟨net₀, net₂, roundEnds_of_round hFirst hSelect
    (hRound.guard hNone)⟩

end Ends

end NetBlocks
