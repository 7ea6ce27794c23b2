import NetBlocks.Lib.Broadcast
import NetBlocks.Runtime.IpcHub

/-
  The hub relays in one order: it refines a group in which
  each packet goes to all other members at one instant, though
  it sends to one descriptor after the other.

  Main declarations:
    * `HubInvariant`
    * `Refines` and `Refines.step`
    * `relaysInOrder_of_run`
-/

namespace NetBlocks

open SwapRemoval TransitionSystem

variable {C : Type}

------------------------------------------------------------
-- Clients and Descriptors
------------------------------------------------------------

/- The clients of the hub, and those that wait to be. -/
def HubNet.attached
    (net : HubNet C) : List (Option C) :=
  net.peers ++ net.backlog.map some

/-
  No client is behind two descriptors, and the descriptor that
  is being relayed is one of the hub's.
-/
structure HubInvariant
    (net : HubNet C) : Prop where
  apart : net.attached.Nodup
  named : none ∉ net.peers
  present : ∀ c, some c ∈ net.attached →
    net.status c ≠ .absent
  unused : net.hub.ipcSocket ∉ net.hub.fds
  relaying : ∀ set i buffer j,
    net.hub.point = .relay set i buffer j →
      i < net.hub.fds.length

theorem HubNet.getElem?_peers
    {net : HubNet C}
    {i fd : Nat}
    (hFd : net.hub.fds[i]? = some fd) :
    net.peers[i]? = some (net.peer fd) := by
  rw [HubNet.peers, List.getElem?_map, hFd, Option.map_some]

/- The clients after a new one was accepted -/
theorem peers_accepted
    {net : HubNet C}
    {newFd : Nat}
    (c : C)
    (hNew : newFd ∉ net.hub.fds) :
    (net.hub.fds ++ [newFd]).map
        (Function.update net.peer newFd (some c)) =
      net.peers ++ [some c] := by
  rw [List.map_append, List.map_singleton,
    Function.update_self]
  congr 1
  apply List.map_congr_left
  intro fd hFd
  have hNe : fd ≠ newFd := fun hEq => hNew (hEq ▸ hFd)
  exact Function.update_of_ne hNe _ _

theorem Hub.accepted_ok_iff
    {h h' : Hub}
    {set : List Nat}
    {newFd : Nat} :
    h.accepted set newFd = .ok h' ↔
      h.fds.length < hubMaxFds ∧
        h' = { h with
          fds := h.fds ++ [newFd]
          point := .scan set 0 } := by
  unfold Hub.accepted
  split
  · next hRoom =>
      constructor
      · intro hOk
        cases hOk
        exact ⟨hRoom, rfl⟩
      · rintro ⟨-, rfl⟩
        rfl
  · next hFull =>
      constructor
      · intro hOk
        cases hOk
      · rintro ⟨hRoom, -⟩
        exact absurd hRoom hFull

theorem Hub.received_nil
    (set : List Nat)
    (i : Nat)
    (h : Hub) :
    h.received set i [] =
      { h with
        fds := removeAt h.fds i
        point := .scan set i } :=
  rfl

theorem Hub.received_of_ne
    {message : List Byte}
    (set : List Nat)
    (i : Nat)
    (h : Hub)
    (hNe : message ≠ []) :
    h.received set i message =
      { h with
        point := .relay set i
          (message.take hubBufferSize) 0 } := by
  cases message with
  | nil => exact absurd rfl hNe
  | cons b rest => rfl

/- Nothing but the position of the process changed. -/
theorem HubInvariant.of_point
    {net : HubNet C}
    (hInv : HubInvariant net)
    (point : Hub.Point)
    (hRelaying : ∀ set i buffer j,
      point = .relay set i buffer j →
        i < net.hub.fds.length) :
    HubInvariant
      { net with hub := { net.hub with point := point } } :=
  ⟨hInv.apart, hInv.named, hInv.present, hInv.unused,
    hRelaying⟩

theorem hubInvariant_start
    (ipcSocket : Nat) :
    HubInvariant (HubNet.start (C := C) ipcSocket) := by
  refine ⟨List.nodup_nil, ?_, ?_, ?_, ?_⟩
  · exact List.not_mem_nil
  · intro c hMem
    exact absurd hMem List.not_mem_nil
  · exact List.not_mem_nil
  · intro _ _ _ _ hPoint
    cases hPoint

section Invariant

variable [DecidableEq C]

theorem HubInvariant.step
    {net net' : HubNet C}
    {move : HubMove C}
    (hInv : HubInvariant net)
    (hStep : HubSteps net move net') :
    HubInvariant net' := by
  cases hStep with
  | @connect c hAbsent =>
      have hNew : some c ∉ net.attached :=
        fun hMem => hInv.present c hMem hAbsent
      have hAttached : net.peers ++
          (net.backlog ++ [c]).map some =
            net.attached ++ [some c] := by
        simp [HubNet.attached]
      refine ⟨?_, hInv.named, ?_, hInv.unused,
        hInv.relaying⟩
      · change (net.peers ++
          (net.backlog ++ [c]).map some).Nodup
        rw [hAttached]
        apply (List.perm_append_singleton _ _).nodup_iff.mpr
        exact List.nodup_cons.mpr ⟨hNew, hInv.apart⟩
      · intro d hMem
        change some d ∈ net.peers ++
          (net.backlog ++ [c]).map some at hMem
        rw [hAttached] at hMem
        by_cases hEq : d = c
        · subst hEq
          simp
        · have hOld : some d ∈ net.attached := by
            simpa [hEq] using hMem
          simpa [Function.update_of_ne hEq] using
            hInv.present d hOld
  | write => exact ⟨hInv.apart, hInv.named, hInv.present,
      hInv.unused, hInv.relaying⟩
  | poll => exact ⟨hInv.apart, hInv.named, hInv.present,
      hInv.unused, hInv.relaying⟩
  | @close c =>
      refine ⟨hInv.apart, hInv.named, ?_, hInv.unused,
        hInv.relaying⟩
      intro d hMem
      by_cases hEq : d = c
      · subst hEq
        simp
      · simpa [Function.update_of_ne hEq] using
          hInv.present d hMem
  | select =>
      apply hInv.of_point
      intro _ _ _ _ hPoint
      cases hPoint
  | @accept set newFd c rest hub _ _ hBacklog hNew hOther
      hAccepted =>
      rcases Hub.accepted_ok_iff.mp hAccepted with ⟨-, rfl⟩
      have hPeers := peers_accepted c hNew
      have hAttached : (net.peers ++ [some c]) ++
          rest.map some = net.attached := by
        rw [HubNet.attached, hBacklog, List.append_assoc]
        rfl
      refine ⟨?_, ?_, ?_, ?_, ?_⟩
      · change ((net.hub.fds ++ [newFd]).map _ ++
          rest.map some).Nodup
        rw [hPeers, hAttached]
        exact hInv.apart
      · change none ∉ (net.hub.fds ++ [newFd]).map _
        rw [hPeers]
        simpa using hInv.named
      · intro d hMem
        change some d ∈ (net.hub.fds ++ [newFd]).map _ ++
          rest.map some at hMem
        rw [hPeers, hAttached] at hMem
        exact hInv.present d hMem
      · simpa using ⟨hInv.unused, Ne.symm hOther⟩
      · intro _ _ _ _ hPoint
        cases hPoint
  | noAccept =>
      apply hInv.of_point
      intro _ _ _ _ hPoint
      cases hPoint
  | skip =>
      apply hInv.of_point
      intro _ _ _ _ hPoint
      cases hPoint
  | @read set i fd c message rest _ hFd _ _ _ hNe =>
      rw [Hub.received_of_ne set i net.hub hNe]
      refine ⟨hInv.apart, hInv.named, hInv.present,
        hInv.unused, ?_⟩
      intro _ _ _ _ hPoint
      cases hPoint
      exact (List.getElem?_eq_some_iff.mp hFd).1
  | @hangUp set i fd c _ hFd =>
      rw [Hub.received_nil]
      have hPerm := removeAt_perm
        (HubNet.getElem?_peers hFd)
      have hPeers : (removeAt net.hub.fds i).map net.peer =
          removeAt net.peers i := map_removeAt _ _ _
      have hOld : ∀ p ∈ removeAt net.peers i,
          p ∈ net.peers :=
        fun _ => mem_of_mem_removeAt
      refine ⟨?_, ?_, ?_, ?_, ?_⟩
      · change ((removeAt net.hub.fds i).map net.peer ++
          net.backlog.map some).Nodup
        rw [hPeers]
        have hAll := (hPerm.append_right
          (net.backlog.map some)).nodup_iff.mpr hInv.apart
        exact (List.nodup_cons.mp hAll).2
      · change none ∉ (removeAt net.hub.fds i).map net.peer
        rw [hPeers]
        exact fun hMem => hInv.named (hOld _ hMem)
      · intro d hMem
        change some d ∈ (removeAt net.hub.fds i).map
          net.peer ++ net.backlog.map some at hMem
        rw [hPeers] at hMem
        apply hInv.present d
        rcases List.mem_append.mp hMem with hMem | hMem
        · exact List.mem_append_left _ (hOld _ hMem)
        · exact List.mem_append_right _ hMem
      · exact fun hMem =>
          hInv.unused (mem_of_mem_removeAt hMem)
      · intro _ _ _ _ hPoint
        cases hPoint
  | readFails =>
      apply hInv.of_point
      intro _ _ _ _ hPoint
      cases hPoint
  | skipOwn hPoint hLt =>
      apply hInv.of_point
      intro _ _ _ _ hPoint'
      cases hPoint'
      exact hLt
  | send hPoint =>
      refine ⟨hInv.apart, hInv.named, hInv.present,
        hInv.unused, ?_⟩
      intro _ _ _ _ hPoint'
      cases hPoint'
      exact hInv.relaying _ _ _ _ hPoint
  | relayEnd =>
      apply hInv.of_point
      intro _ _ _ _ hPoint
      cases hPoint
  | scanEnd =>
      apply hInv.of_point
      intro _ _ _ _ hPoint
      cases hPoint

end Invariant

theorem HubInvariant.nodup
    {net : HubNet C}
    (hInv : HubInvariant net) :
    net.peers.Nodup :=
  (List.nodup_append.mp hInv.apart).1

------------------------------------------------------------
-- The Group That the Hub Implements
------------------------------------------------------------

/- What a client can poll of a message -/
def packetOf
    (message : List Byte) : List Byte :=
  message.take ipcMtu

theorem packetOf_take
    (message : List Byte) :
    packetOf (message.take hubBufferSize) =
      packetOf message := by
  rw [packetOf, packetOf, List.take_take]
  rfl

/- How a move looks from outside of the hub -/
def HubMove.shows :
    HubMove C → List (Broadcast.Event C (List Byte))
| .write c message => [.write c (packetOf message)]
| .poll c packet => [.take c packet]
| .accept _ c => [.join c]
| .read _ c message => [.relay c (packetOf message)]
| .hangUp _ c => [.leave c]
| _ => []

------------------------------------------------------------
-- Whom a Relay Still Serves
------------------------------------------------------------

/-
  A client is behind a descriptor that is still to be served,
  from position `j` on, in the relay for the one at `i`.
-/
def IsOwed
    (peers : List (Option C))
    (i j : Nat)
    (c : C) : Prop :=
  ∃ k < peers.length, j ≤ k ∧ k ≠ i ∧
    peers[k]? = some (some c)

/- After the own descriptor, all others are to be served. -/
theorem isOwed_zero_iff
    {peers : List (Option C)}
    {i : Nat}
    {c d : C}
    (hNodup : peers.Nodup)
    (hReader : peers[i]? = some (some d)) :
    IsOwed peers i 0 c ↔ some c ∈ peers ∧ c ≠ d := by
  constructor
  · rintro ⟨k, -, -, hNe, hk⟩
    refine ⟨List.mem_of_getElem? hk, ?_⟩
    rintro rfl
    have hLt := (List.getElem?_eq_some_iff.mp hReader).1
    exact hNe ((List.getElem?_inj hLt hNodup).mp
      (hReader.trans hk.symm)).symm
  · rintro ⟨hMem, hNe⟩
    rcases List.getElem?_of_mem hMem with ⟨k, hk⟩
    refine ⟨k, (List.getElem?_eq_some_iff.mp hk).1,
      Nat.zero_le _, ?_, hk⟩
    rintro rfl
    rw [hReader] at hk
    cases hk
    exact hNe rfl

/- The own descriptor is not served. -/
theorem isOwed_own_iff
    (peers : List (Option C))
    (i : Nat)
    (c : C) :
    IsOwed peers i (i + 1) c ↔ IsOwed peers i i c := by
  constructor
  · rintro ⟨k, hLt, hLe, hNe, hk⟩
    exact ⟨k, hLt, by omega, hNe, hk⟩
  · rintro ⟨k, hLt, hLe, hNe, hk⟩
    exact ⟨k, hLt, by omega, hNe, hk⟩

/- A client that is served was to be, and is not any more. -/
theorem isOwed_served
    {peers : List (Option C)}
    {i j : Nat}
    {c : C}
    (hNodup : peers.Nodup)
    (hNe : i ≠ j)
    (hServed : peers[j]? = some (some c)) :
    IsOwed peers i j c ∧ ¬ IsOwed peers i (j + 1) c := by
  have hLt := (List.getElem?_eq_some_iff.mp hServed).1
  refine ⟨⟨j, hLt, Nat.le_refl j, Ne.symm hNe, hServed⟩, ?_⟩
  rintro ⟨k, -, hLe, -, hk⟩
  have hEq := (List.getElem?_inj hLt hNodup).mp
    (hServed.trans hk.symm)
  omega

theorem isOwed_other_iff
    {peers : List (Option C)}
    {i j : Nat}
    {c d : C}
    (hOther : d ≠ c)
    (hServed : peers[j]? = some (some c)) :
    IsOwed peers i (j + 1) d ↔ IsOwed peers i j d := by
  constructor
  · rintro ⟨k, hLt, hLe, hNe, hk⟩
    exact ⟨k, hLt, by omega, hNe, hk⟩
  · rintro ⟨k, hLt, hLe, hNe, hk⟩
    refine ⟨k, hLt, ?_, hNe, hk⟩
    apply Nat.lt_of_le_of_ne hLe
    rintro rfl
    rw [hServed] at hk
    cases hk
    exact hOther rfl

theorem not_isOwed_end
    {peers : List (Option C)}
    {i j : Nat}
    (c : C)
    (hEnd : peers.length ≤ j) :
    ¬ IsOwed peers i j c := by
  rintro ⟨k, hLt, hLe, -, -⟩
  omega

------------------------------------------------------------
-- The Hub as a Group
------------------------------------------------------------

section Refinement

variable [DecidableEq C]

instance
    (peers : List (Option C))
    (i j : Nat)
    (c : C) : Decidable (IsOwed peers i j c) := by
  unfold IsOwed
  infer_instance

/- What the hub read and still has to send to a client -/
def HubNet.pending
    (net : HubNet C)
    (c : C) : List (List Byte) :=
  match net.hub.point with
  | .relay _ i buffer j =>
      if IsOwed net.peers i j c then [buffer] else []
  | _ => []

/-
  The hub and the group agree. What waits for a client that
  closed its socket does not matter any more.
-/
structure Refines
    (net : HubNet C)
    (b : Broadcast C (List Byte)) : Prop where
  members : ∀ c, c ∈ b.members ↔ some c ∈ net.peers
  outbox : ∀ c, b.outbox c = (net.up c).map packetOf
  inbox : ∀ c, net.status c ≠ .closed →
    b.inbox c = (net.down c ++ net.pending c).map packetOf

variable
    {net net' : HubNet C}
    {b : Broadcast C (List Byte)}
    {move : HubMove C}

theorem HubNet.pending_of_relay
    {set : List Nat}
    {i j : Nat}
    {buffer : List Byte}
    (hPoint : net.hub.point = .relay set i buffer j)
    (c : C) :
    net.pending c =
      if IsOwed net.peers i j c then [buffer] else [] := by
  rw [HubNet.pending, hPoint]

theorem HubNet.pending_of_scan
    {set : List Nat}
    {i : Nat}
    (hPoint : net.hub.point = .scan set i)
    (c : C) :
    net.pending c = [] := by
  rw [HubNet.pending, hPoint]

/- The position changed, but not what is still to be sent. -/
theorem Refines.of_point
    (hRefines : Refines net b)
    (point : Hub.Point)
    (hPending : ∀ c, HubNet.pending
      { net with hub := { net.hub with point := point } } c =
        net.pending c) :
    Refines
      { net with hub := { net.hub with point := point } }
      b := by
  refine ⟨hRefines.members, hRefines.outbox, ?_⟩
  intro c hOpen
  rw [hPending]
  exact hRefines.inbox c hOpen

/- What the hub read goes to all others at this instant. -/
theorem Refines.read
    {set : List Nat}
    {i fd : Nat}
    {c : C}
    {message : List Byte}
    {rest : List (List Byte)}
    (hInv : HubInvariant net)
    (hRefines : Refines net b)
    (hPoint : net.hub.point = .scan set i)
    (hFd : net.hub.fds[i]? = some fd)
    (hPeer : net.peer fd = some c)
    (hUp : net.up c = message :: rest)
    (hNe : message ≠ []) :
    ∃ b', Run Broadcast.Step b
        [.relay c (packetOf message)] b' ∧
      Refines
        { net with
          hub := net.hub.received set i message
          up := Function.update net.up c rest } b' := by
  classical
  have hReader : net.peers[i]? = some (some c) :=
    (HubNet.getElem?_peers hFd).trans (congrArg some hPeer)
  have hMember : c ∈ b.members :=
    (hRefines.members c).mpr (List.mem_of_getElem? hReader)
  let b' : Broadcast C (List Byte) := { b with
    outbox := Function.update b.outbox c (rest.map packetOf)
    inbox := fun d =>
      if d ∈ b.members ∧ d ≠ c then
        b.inbox d ++ [packetOf message]
      else
        b.inbox d }
  have hRelays : Broadcast.Relays c (packetOf message)
      b b' := by
    refine ⟨hMember, rfl, ?_, ?_, ?_, ?_⟩
    · have hOwn : b'.outbox c = rest.map packetOf :=
        Function.update_self _ _ _
      rw [hRefines.outbox, hUp, List.map_cons, hOwn]
    · intro d hOther
      exact Function.update_of_ne hOther _ _
    · intro d hIn hOther
      exact if_pos ⟨hIn, hOther⟩
    · intro d hNot
      exact if_neg hNot
  refine ⟨b', Run.cons (.relay hRelays) (Run.nil b'), ?_⟩
  rw [Hub.received_of_ne set i net.hub hNe]
  refine ⟨hRefines.members, ?_, ?_⟩
  · intro d
    by_cases hEq : d = c
    · subst hEq
      simp [b']
    · simpa [b', Function.update_of_ne hEq] using
        hRefines.outbox d
  · intro d hOpen
    have hInbox := hRefines.inbox d hOpen
    rw [HubNet.pending_of_scan hPoint, List.append_nil]
      at hInbox
    change b'.inbox d = (net.down d ++
      if IsOwed net.peers i 0 d then
        [message.take hubBufferSize]
      else []).map packetOf
    have hOwed : IsOwed net.peers i 0 d ↔
        d ∈ b.members ∧ d ≠ c := by
      rw [isOwed_zero_iff hInv.nodup hReader,
        hRefines.members]
    by_cases hOther : d ∈ b.members ∧ d ≠ c
    · rw [if_pos (hOwed.mpr hOther), List.map_append,
        ← hInbox, List.map_singleton, packetOf_take]
      exact if_pos hOther
    · rw [if_neg (fun hIn => hOther (hOwed.mp hIn)),
        List.append_nil, ← hInbox]
      exact if_neg hOther

/- One of the others was served. -/
theorem Refines.send
    {set : List Nat}
    {i j fd : Nat}
    {buffer : List Byte}
    {c : C}
    (hInv : HubInvariant net)
    (hRefines : Refines net b)
    (hPoint : net.hub.point = .relay set i buffer j)
    (hOther : i ≠ j)
    (hFd : net.hub.fds[j]? = some fd)
    (hPeer : net.peer fd = some c) :
    Refines
      { net with
        hub := net.hub.relayed set i buffer j
        down := net.sendTo c buffer } b := by
  have hServed : net.peers[j]? = some (some c) :=
    (HubNet.getElem?_peers hFd).trans (congrArg some hPeer)
  refine ⟨hRefines.members, hRefines.outbox, ?_⟩
  intro d hOpen
  rw [hRefines.inbox d hOpen, HubNet.pending_of_relay hPoint]
  change (net.down d ++ _).map packetOf =
    (net.sendTo c buffer d ++
      if IsOwed net.peers i (j + 1) d then [buffer] else []
        ).map packetOf
  by_cases hEq : d = c
  · subst hEq
    rcases isOwed_served hInv.nodup hOther hServed with
      ⟨hBefore, hAfter⟩
    rw [if_pos hBefore, if_neg hAfter, HubNet.sendTo,
      if_neg hOpen, Function.update_self, List.append_nil]
  · have hSame : net.sendTo c buffer d = net.down d := by
      unfold HubNet.sendTo
      split
      · rfl
      · exact Function.update_of_ne hEq _ _
    rw [hSame]
    simp only [isOwed_other_iff hEq hServed]

/- The hub hung up on a client. -/
theorem Refines.hangUp
    {set : List Nat}
    {i fd : Nat}
    {c : C}
    (hInv : HubInvariant net)
    (hRefines : Refines net b)
    (hPoint : net.hub.point = .scan set i)
    (hFd : net.hub.fds[i]? = some fd)
    (hPeer : net.peer fd = some c) :
    ∃ b', Run Broadcast.Step b [.leave c] b' ∧
      Refines
        { net with hub := net.hub.received set i [] }
        b' := by
  have hOwn : net.peers[i]? = some (some c) :=
    (HubNet.getElem?_peers hFd).trans (congrArg some hPeer)
  have hPerm := removeAt_perm hOwn
  have hLeft : some c ∉ removeAt net.peers i :=
    (List.nodup_cons.mp
      (hPerm.nodup_iff.mpr hInv.nodup)).1
  have hPeers : (removeAt net.hub.fds i).map net.peer =
      removeAt net.peers i := map_removeAt _ _ _
  let b' : Broadcast C (List Byte) := { b with
    members := b.members \ {c} }
  have hLeave : Broadcast.Step b (.leave c) b' :=
    .leave rfl rfl rfl
  refine ⟨b', Run.cons hLeave (Run.nil b'), ?_⟩
  rw [Hub.received_nil]
  refine ⟨?_, hRefines.outbox, ?_⟩
  · intro d
    change d ∈ b.members \ {c} ↔
      some d ∈ (removeAt net.hub.fds i).map net.peer
    rw [hPeers, Set.mem_sdiff, hRefines.members,
      Set.mem_singleton_iff, ← hPerm.mem_iff, List.mem_cons]
    constructor
    · rintro ⟨hEq | hIn, hNe⟩
      · exact absurd (Option.some.inj hEq) hNe
      · exact hIn
    · intro hIn
      refine ⟨Or.inr hIn, ?_⟩
      rintro rfl
      exact hLeft hIn
  · intro d hOpen
    have hInbox := hRefines.inbox d hOpen
    rw [HubNet.pending_of_scan hPoint] at hInbox
    exact hInbox

/-
  Each step of the hub and its clients is what it shows of
  itself, done by the group.
-/
theorem Refines.step
    (hInv : HubInvariant net)
    (hRefines : Refines net b)
    (hStep : HubSteps net move net') :
    ∃ b', Run Broadcast.Step b move.shows b' ∧
      Refines net' b' := by
  cases hStep with
  | @connect c hAbsent =>
      refine ⟨b, Run.nil b, hRefines.members,
        hRefines.outbox, ?_⟩
      intro d hOpen
      apply hRefines.inbox d
      by_cases hEq : d = c
      · rw [hEq, hAbsent]
        exact ClientStatus.noConfusion
      · rw [← Function.update_of_ne hEq .connected net.status]
        exact hOpen
  | @write c message =>
      let b' : Broadcast C (List Byte) := { b with
        outbox := Function.update b.outbox c
          (b.outbox c ++ [packetOf message]) }
      have hWrite : Broadcast.Step b
          (.write c (packetOf message)) b' := by
        refine .write rfl ?_ ?_ rfl
        · exact Function.update_self _ _ _
        · intro d hOther
          exact Function.update_of_ne hOther _ _
      refine ⟨b', Run.cons hWrite (Run.nil b'),
        hRefines.members, ?_, hRefines.inbox⟩
      intro d
      by_cases hEq : d = c
      · subst hEq
        simp [b', hRefines.outbox]
      · simpa [b', Function.update_of_ne hEq] using
          hRefines.outbox d
  | @poll c message rest hOpen hDown =>
      have hConnected : net.status c ≠ .closed := by
        rw [hOpen]
        exact ClientStatus.noConfusion
      let b' : Broadcast C (List Byte) := { b with
        inbox := Function.update b.inbox c
          ((rest ++ net.pending c).map packetOf) }
      have hTake : Broadcast.Step b
          (.take c (packetOf message)) b' := by
        refine .take rfl rfl ?_ ?_
        · have hOwn : b'.inbox c =
              (rest ++ net.pending c).map packetOf :=
            Function.update_self _ _ _
          rw [hRefines.inbox c hConnected, hDown, hOwn]
          rfl
        · intro d hOther
          exact Function.update_of_ne hOther _ _
      refine ⟨b', Run.cons hTake (Run.nil b'),
        hRefines.members, hRefines.outbox, ?_⟩
      intro d hOpen'
      change b'.inbox d = (Function.update net.down c rest d ++
        net.pending d).map packetOf
      by_cases hEq : d = c
      · subst hEq
        rw [Function.update_self]
        exact Function.update_self _ _ _
      · rw [Function.update_of_ne hEq,
          ← hRefines.inbox d hOpen']
        exact Function.update_of_ne hEq _ _
  | @close c =>
      refine ⟨b, Run.nil b, hRefines.members,
        hRefines.outbox, ?_⟩
      intro d hOpen
      apply hRefines.inbox d
      by_cases hEq : d = c
      · subst hEq
        exact absurd (Function.update_self _ _ _) hOpen
      · rw [← Function.update_of_ne hEq .closed net.status]
        exact hOpen
  | select hPoint =>
      refine ⟨b, Run.nil b, hRefines.of_point _ ?_⟩
      intro c
      simp [HubNet.pending, hPoint]
  | @accept set newFd c rest hub hPoint _ _ hNew _
      hAccepted =>
      rcases Hub.accepted_ok_iff.mp hAccepted with ⟨-, rfl⟩
      let b' : Broadcast C (List Byte) := { b with
        members := insert c b.members }
      have hJoin : Broadcast.Step b (.join c) b' :=
        .join rfl rfl rfl
      refine ⟨b', Run.cons hJoin (Run.nil b'), ?_,
        hRefines.outbox, ?_⟩
      · intro d
        change d ∈ insert c b.members ↔
          some d ∈ (net.hub.fds ++ [newFd]).map _
        rw [peers_accepted c hNew, Set.mem_insert_iff,
          hRefines.members]
        simp [or_comm]
      · intro d hOpen
        have hInbox := hRefines.inbox d hOpen
        rw [HubNet.pending, hPoint] at hInbox
        exact hInbox
  | noAccept hPoint =>
      refine ⟨b, Run.nil b, hRefines.of_point _ ?_⟩
      intro c
      simp [HubNet.pending, hPoint]
  | skip hPoint =>
      refine ⟨b, Run.nil b, hRefines.of_point _ ?_⟩
      intro c
      simp [HubNet.pending, hPoint]
  | read hPoint hFd _ hPeer hUp hNe =>
      exact hRefines.read hInv hPoint hFd hPeer hUp hNe
  | hangUp hPoint hFd _ hPeer =>
      exact hRefines.hangUp hInv hPoint hFd hPeer
  | readFails hPoint =>
      refine ⟨b, Run.nil b, hRefines.of_point _ ?_⟩
      intro c
      simp [HubNet.pending, hPoint]
  | skipOwn hPoint =>
      refine ⟨b, Run.nil b, hRefines.of_point _ ?_⟩
      intro c
      rw [HubNet.pending_of_relay hPoint]
      exact if_congr (isOwed_own_iff _ _ _) rfl rfl
  | send hPoint hOther hFd hPeer =>
      exact ⟨b, Run.nil b,
        hRefines.send hInv hPoint hOther hFd hPeer⟩
  | @relayEnd set i j buffer hPoint hEnd =>
      refine ⟨b, Run.nil b, hRefines.of_point _ ?_⟩
      intro c
      have hDone : net.peers.length ≤ j := by
        rw [HubNet.peers, List.length_map]
        exact hEnd
      rw [HubNet.pending_of_relay hPoint,
        if_neg (not_isOwed_end c hDone)]
      rfl
  | scanEnd hPoint =>
      refine ⟨b, Run.nil b, hRefines.of_point _ ?_⟩
      intro c
      simp [HubNet.pending, hPoint]

theorem refines_start
    (ipcSocket : Nat) :
    Refines (HubNet.start (C := C) ipcSocket)
      Broadcast.empty := by
  refine ⟨?_, fun _ => rfl, fun _ _ => rfl⟩
  intro c
  constructor
  · intro hIn
    exact absurd hIn (Set.notMem_empty c)
  · intro hIn
    exact absurd hIn List.not_mem_nil

/- A run of the hub and its clients is a run of the group. -/
theorem refines_of_run
    {ipcSocket : Nat}
    {moves : List (HubMove C)}
    (hRun : Run HubSteps (HubNet.start ipcSocket) moves net) :
    ∃ b, Run Broadcast.Step Broadcast.empty
        (moves.flatMap HubMove.shows) b ∧
      Refines net b := by
  have hSteps : ∀ net₁ move net₂ (b₁ : Broadcast C _),
      HubInvariant net₁ ∧ Refines net₁ b₁ →
      HubSteps net₁ move net₂ →
        ∃ b₂, Run Broadcast.Step b₁ move.shows b₂ ∧
          HubInvariant net₂ ∧ Refines net₂ b₂ := by
    rintro net₁ move net₂ b₁ ⟨hInv, hRefines⟩ hStep
    rcases hRefines.step hInv hStep with ⟨b₂, hShown, hNext⟩
    exact ⟨b₂, hShown, hInv.step hStep, hNext⟩
  have hBoth := hRun.simulate hSteps
    ⟨hubInvariant_start ipcSocket, refines_start ipcSocket⟩
  rcases hBoth with ⟨b, hShown, -, hRefines⟩
  exact ⟨b, hShown, hRefines⟩

end Refinement

------------------------------------------------------------
-- One Order for All
------------------------------------------------------------

section Order

variable [DecidableEq C]

/-
  There is one order of all packets that were relayed. What a
  client wrote is relayed in the order written, and each
  client polls what was relayed of others, in that order, from
  when it was accepted to when the hub hung up on it. All that
  is missing is still on its way.
-/
structure RelaysInOrder
    (moves : List (HubMove C))
    (net : HubNet C) : Prop where
  written : ∀ c,
    Broadcast.writes c (moves.flatMap HubMove.shows) =
      Broadcast.sentBy c (moves.flatMap HubMove.shows) ++
        (net.up c).map packetOf
  polled : ∀ c,
    Broadcast.takes c (moves.flatMap HubMove.shows) <+:
      Broadcast.due c false (moves.flatMap HubMove.shows)
  ordered : ∀ c,
    (Broadcast.takes c
        (moves.flatMap HubMove.shows)).Sublist
      (((Broadcast.relayed
          (moves.flatMap HubMove.shows)).filter
        (fun sent => sent.1 ≠ c)).map Prod.snd)
  waiting : ∀ c, net.status c ≠ .closed →
    Broadcast.takes c (moves.flatMap HubMove.shows) ++
        (net.down c ++ net.pending c).map packetOf =
      Broadcast.due c false (moves.flatMap HubMove.shows)

/-
  Whatever the order in which the hub and its clients take
  their turns, the packets are relayed in one order.
-/
theorem relaysInOrder_of_run
    {net : HubNet C}
    {ipcSocket : Nat}
    {moves : List (HubMove C)}
    (hRun : Run HubSteps (HubNet.start ipcSocket) moves net) :
    RelaysInOrder moves net := by
  rcases refines_of_run hRun with ⟨b, hShown, hRefines⟩
  refine ⟨?_, ?_, ?_, ?_⟩
  · intro c
    rw [← hRefines.outbox]
    exact Broadcast.writes_of_run hShown c
  · intro c
    exact Broadcast.takes_prefix_of_run hShown c
  · intro c
    apply List.Sublist.trans
      (Broadcast.takes_prefix_of_run hShown c).sublist
    exact Broadcast.due_sublist c false _
  · intro c hOpen
    rw [← hRefines.inbox c hOpen]
    exact Broadcast.takes_of_run hShown c false
      (by simp [Broadcast.empty])

/- A client is accepted and writes, and another connects. -/
def firstMoves : List (HubMove Bool) :=
  [.connect false, .select [3], .accept 4 false, .skip 4,
    .scanEnd, .write false [7], .connect true]

/- It is accepted, and what the first one wrote is relayed. -/
def roundMoves : List (HubMove Bool) :=
  [.accept 5 true, .read 4 false [7], .skipOwn, .send 5,
    .relayEnd, .skip 5, .scanEnd]

theorem exists_round :
    ∃ net₀, Run HubSteps (HubNet.start 3) firstMoves net₀ ∧
    ∃ net₁, HubSteps net₀ (.select [3, 4]) net₁ ∧
    ∃ net₂, Run HubSteps net₁ roundMoves net₂ ∧
      net₂.hub.point = .select ∧
      net₂.status true = .connected ∧
      net₂.down true = [[7]] := by
  refine Run.exists_cons (.connect rfl) ?_
  refine Run.exists_cons (.select rfl (by decide) ?_) ?_
  · intro fd
    simp [HubNet.Ready, HubNet.start]
  refine Run.exists_cons (.accept rfl (by decide) rfl
    (by decide) (by decide) rfl) ?_
  refine Run.exists_cons (.skip rfl rfl (by decide)) ?_
  refine Run.exists_cons (.scanEnd rfl (by decide)) ?_
  refine Run.exists_cons (.write rfl (Or.inl (by decide))) ?_
  refine Run.exists_cons (.connect rfl) ?_
  refine ⟨_, Run.nil _, _, .select rfl (by decide) ?_, ?_⟩
  · intro fd
    by_cases hFd : fd = 4 <;>
      simp [HubNet.Ready, HubNet.Readable, HubNet.start,
        Hub.scanned, Hub.selected, hFd]
  refine Run.exists_cons (.accept rfl (by decide) rfl
    (by decide) (by decide) rfl) ?_
  refine Run.exists_cons (.read rfl rfl (by decide) rfl rfl
    (by decide)) ?_
  refine Run.exists_cons (.skipOwn rfl (by decide)) ?_
  refine Run.exists_cons (.send rfl (by decide) rfl rfl) ?_
  refine Run.exists_cons (.relayEnd rfl (by decide)) ?_
  refine Run.exists_cons (.skip rfl rfl (by decide)) ?_
  refine Run.exists_cons (.scanEnd rfl (by decide)) ?_
  exact ⟨_, Run.nil _, rfl, rfl, rfl⟩

/- Then the other one polls what was written. -/
def relayedMoves : List (HubMove Bool) :=
  firstMoves ++ .select [3, 4] :: (roundMoves ++
    [.poll true [7]])

theorem relaysInOrder_of_run_relayed :
    (∃ net, Run HubSteps (HubNet.start 3) relayedMoves net ∧
      RelaysInOrder relayedMoves net) ∧
      Broadcast.takes true
        (relayedMoves.flatMap HubMove.shows) = [[7]] := by
  rcases exists_round with ⟨net₀, hFirst, net₁, hSelect,
    net₂, hRound, -, hStatus, hDown⟩
  have hRun := hFirst.append (Run.cons hSelect
    (hRound.append (Run.cons (.poll hStatus hDown)
      (Run.nil _))))
  exact ⟨⟨_, hRun, relaysInOrder_of_run hRun⟩, by decide⟩

end Order

end NetBlocks
