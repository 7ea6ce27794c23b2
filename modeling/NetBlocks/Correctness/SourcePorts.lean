import NetBlocks.Posix.Calls
import NetBlocks.Correctness.ConnectionTable
import Mathlib.Data.Finset.Card
import Mathlib.Order.Interval.Finset.Nat

/-
  The source ports of connected sockets: they are distinct,
  but closing a socket never gives its port back.

  Main declarations:
    * `PortLedger` and `RecordsPorts`
    * `PortsAllocated`
    * `PortBooks`
    * `portsAllocated_iff_of_run`
-/

namespace NetBlocks

open Except TransitionSystem

variable {P : Type}

------------------------------------------------------------
-- Recording Ports
------------------------------------------------------------

/-
  The source port of each connected socket, and the ports of
  the connected sockets that were closed.
-/
structure PortLedger where
  ports : Nat → Option Nat
  closed : List Nat

def PortLedger.empty : PortLedger where
  ports := fun _ => none
  closed := []

/- A connect gets the port that `find_free_port` returns. -/
def recordPort
    (t : FdTables)
    (l : PortLedger) : PosixCall P → PortLedger
| .connect fd .. =>
    if t.nbFd fd then
      match findFreePort t.portOccupied with
      | .ok (port, _) =>
          { l with
            ports := Function.update l.ports fd (some port) }
      | .error _ => l
    else
      l
| .close fd =>
    match l.ports fd with
    | some port =>
        { ports := Function.update l.ports fd none
          closed := port :: l.closed }
    | none => l
| _ => l

/- A call that returns, and what is recorded of it. -/
def RecordsPorts
    (fmt : PacketFormat P)
    (cfg : Config)
    (s : Posix P × PortLedger)
    (call : PosixCall P)
    (s' : Posix P × PortLedger) : Prop :=
  PosixCalls fmt cfg s.1 call s'.1 ∧
    s'.2 = recordPort s.1.2 s.2 call

/- The sockets that are connected. -/
def PortLedger.connected
    (l : PortLedger) : Finset Nat :=
  (Finset.range maxFds).filter (fun fd => l.ports fd ≠ none)

/-
  Connected sockets have ports of their own, the port of a
  closed one can be handed out again unless another socket
  has it, and there is a port for the next socket if fewer
  than 1920 are connected.
-/
structure PortsAllocated
    (t : FdTables)
    (l : PortLedger) : Prop where
  distinct : ∀ fd fd' port, l.ports fd = some port →
    l.ports fd' = some port → fd = fd'
  recycled : ∀ port ∈ l.closed,
    (∀ fd, l.ports fd ≠ some port) →
      t.portOccupied (port - 8000) = false
  available : l.connected.card < 1920 →
    ∃ result, findFreePort t.portOccupied = .ok result

------------------------------------------------------------
-- Free Ports
------------------------------------------------------------

section Free

variable
    {occupied occupied' : Nat → Bool}
    {port : Nat}

theorem mem_assignablePorts :
    port ∈ assignablePorts ↔ 8080 ≤ port ∧ port < 10000 := by
  rw [assignablePorts, List.mem_range'_1]

/- A port that is handed out was free, and is occupied. -/
theorem findFreePort_ok
    (hFree : findFreePort occupied = .ok (port, occupied')) :
    port ∈ assignablePorts ∧
      occupied (port - 8000) = false ∧
      occupied' =
        Function.update occupied (port - 8000) true := by
  unfold findFreePort at hFree
  split at hFree
  · next i hFind =>
      cases hFree
      have hOff := List.find?_some hFind
      exact ⟨List.mem_of_find?_eq_some hFind, by simpa using
        hOff, rfl⟩
  · cases hFree

theorem findFreePort_exists
    (hPort : port ∈ assignablePorts)
    (hFree : occupied (port - 8000) = false) :
    ∃ result, findFreePort occupied = .ok result := by
  unfold findFreePort
  split
  · exact ⟨_, rfl⟩
  · next hNone =>
      have hAll := List.find?_eq_none.mp hNone port hPort
      simp [hFree] at hAll

/- Different assignable ports have different flags. -/
theorem update_port_of_ne
    {other : Nat}
    {flag : Bool}
    (hPort : port ∈ assignablePorts)
    (hOther : other ∈ assignablePorts)
    (hNe : other ≠ port) :
    Function.update occupied (port - 8000) flag
        (other - 8000) = occupied (other - 8000) := by
  have hPortLe := (mem_assignablePorts.mp hPort).1
  have hOtherLe := (mem_assignablePorts.mp hOther).1
  exact Function.update_of_ne (by omega) _ _

end Free

------------------------------------------------------------
-- The Books
------------------------------------------------------------

/-
  A port is occupied exactly if a connected socket has it, or
  one that was closed.
-/
structure PortBooks
    (t : FdTables)
    (l : PortLedger) : Prop where
  held : ∀ fd port, l.ports fd = some port →
    fd < maxFds ∧ t.nbFd fd = true ∧ t.fdTable fd ≠ 0 ∧
      port ∈ assignablePorts ∧
      t.portOccupied (port - 8000) = true
  closed : ∀ port ∈ l.closed,
    port ∈ assignablePorts ∧
      t.portOccupied (port - 8000) = true ∧
      ∀ fd, l.ports fd ≠ some port
  distinct : ∀ fd fd' port, l.ports fd = some port →
    l.ports fd' = some port → fd = fd'
  occupied : ∀ port ∈ assignablePorts,
    t.portOccupied (port - 8000) = true →
      port ∈ l.closed ∨ ∃ fd, l.ports fd = some port
  srcPort : ∀ fd, t.fdSrcPort fd = 0

section Books

variable
    {fmt : PacketFormat P}
    {cfg : Config}
    {t t' : FdTables}
    {l : PortLedger}
    {fd : Nat}

theorem PortBooks.congr
    (hBooks : PortBooks t l)
    (hSame : SameSockets t t') :
    PortBooks t' l := by
  rcases hSame with ⟨hTable, hOwned, hPorts, hSrc, -⟩
  refine ⟨?_, ?_, hBooks.distinct, ?_, ?_⟩
  · rw [hTable, hOwned, hPorts]
    exact hBooks.held
  · rw [hPorts]
    exact hBooks.closed
  · rw [hPorts]
    exact hBooks.occupied
  · rw [hSrc]
    exact hBooks.srcPort

theorem PortBooks.ports_of_foreign
    (hBooks : PortBooks t l)
    (hForeign : t.nbFd fd = false) :
    l.ports fd = none := by
  cases hPort : l.ports fd with
  | none => rfl
  | some port =>
      have hOwned := (hBooks.held fd port hPort).2.1
      rw [hForeign] at hOwned
      cases hOwned

theorem PortBooks.ports_of_null
    (hBooks : PortBooks t l)
    (hNull : t.fdTable fd = 0) :
    l.ports fd = none := by
  cases hPort : l.ports fd with
  | none => rfl
  | some port =>
      exact absurd hNull (hBooks.held fd port hPort).2.2.1

/- The entries of an fd without a port may change. -/
theorem PortBooks.reassign
    (hBooks : PortBooks t l)
    (hNone : l.ports fd = none)
    (hPorts : ∀ port ∈ assignablePorts,
      t'.portOccupied (port - 8000) =
        t.portOccupied (port - 8000))
    (hSrc : ∀ other, t'.fdSrcPort other = 0)
    (hOthers : ∀ other, other ≠ fd →
      t'.nbFd other = t.nbFd other ∧
        t'.fdTable other = t.fdTable other) :
    PortBooks t' l := by
  refine ⟨?_, ?_, hBooks.distinct, ?_, hSrc⟩
  · intro other port hPort
    have hNe : other ≠ fd := by
      rintro rfl
      rw [hNone] at hPort
      cases hPort
    have hHeld := hBooks.held other port hPort
    rw [(hOthers other hNe).1, (hOthers other hNe).2,
      hPorts port hHeld.2.2.2.1]
    exact hHeld
  · intro port hPort
    have hClosed := hBooks.closed port hPort
    rw [hPorts port hClosed.1]
    exact hClosed
  · intro port hPort
    rw [hPorts port hPort]
    exact hBooks.occupied port hPort

/- A new port is recorded for an fd that had none. -/
theorem PortBooks.connect
    {c : ConnPtr}
    {port : Nat}
    {portOccupied : Nat → Bool}
    {l' : PortLedger}
    (hBooks : PortBooks t l)
    (hLt : fd < maxFds)
    (hOwned : t.nbFd fd = true)
    (hNull : t.fdTable fd = 0)
    (hNe : c ≠ 0)
    (hFree : findFreePort t.portOccupied =
      .ok (port, portOccupied))
    (hNbFd : t'.nbFd = t.nbFd)
    (hTable : t'.fdTable = Function.update t.fdTable fd c)
    (hPorts : t'.portOccupied = portOccupied)
    (hSrc : t'.fdSrcPort = t.fdSrcPort)
    (hLedger : l'.ports =
      Function.update l.ports fd (some port))
    (hClosed : l'.closed = l.closed) :
    PortBooks t' l' := by
  rcases findFreePort_ok hFree with ⟨hPort, hOff, rfl⟩
  have hUnused : ∀ other, l.ports other ≠ some port := by
    intro other hOther
    have hOn := (hBooks.held other port hOther).2.2.2.2
    rw [hOff] at hOn
    cases hOn
  refine ⟨?_, ?_, ?_, ?_, ?_⟩
  · intro other q hq
    rw [hLedger, Function.update_apply] at hq
    rw [hNbFd, hTable, hPorts]
    split at hq
    · next hEq =>
        subst hEq
        cases hq
        exact ⟨hLt, hOwned, by simpa using hNe, hPort,
          Function.update_self ..⟩
    · next hOther =>
        rcases hBooks.held other q hq with
          ⟨hLt', hOwned', hTable', hq', hOn⟩
        refine ⟨hLt', hOwned', ?_, hq', ?_⟩
        · rw [Function.update_of_ne hOther]
          exact hTable'
        · rw [update_port_of_ne hPort hq']
          · exact hOn
          · rintro rfl
            exact hUnused other hq
  · intro q hq
    rw [hClosed] at hq
    rcases hBooks.closed q hq with ⟨hq', hOn, hNone⟩
    have hDiffers : q ≠ port := by
      rintro rfl
      rw [hOff] at hOn
      cases hOn
    refine ⟨hq', ?_, ?_⟩
    · rw [hPorts, update_port_of_ne hPort hq' hDiffers]
      exact hOn
    · intro other
      rw [hLedger, Function.update_apply]
      split
      · exact fun hEq => hDiffers (Option.some.inj hEq).symm
      · exact hNone other
  · intro other other' q hq hq'
    rw [hLedger, Function.update_apply] at hq hq'
    split at hq <;> split at hq'
    · next hEq hEq' => rw [hEq, hEq']
    · next hEq hOther =>
        cases hq
        exact absurd hq' (hUnused other')
    · next hOther hEq =>
        cases hq'
        exact absurd hq (hUnused other)
    · exact hBooks.distinct other other' q hq hq'
  · intro q hq hOn
    rw [hLedger, hClosed]
    by_cases hEq : q = port
    · exact Or.inr ⟨fd, by rw [hEq, Function.update_self]⟩
    · rw [hPorts, update_port_of_ne hPort hq hEq] at hOn
      rcases hBooks.occupied q hq hOn with hMem |
        ⟨other, hOther⟩
      · exact Or.inl hMem
      · refine Or.inr ⟨other, ?_⟩
        rw [Function.update_of_ne]
        · exact hOther
        · rintro rfl
          rw [hBooks.ports_of_null hNull] at hOther
          cases hOther
  · rw [hSrc]
    exact hBooks.srcPort

/- The flag that is cleared is not the one of the port. -/
theorem PortBooks.close
    {port : Nat}
    {l' : PortLedger}
    (hBooks : PortBooks t l)
    (hPort : l.ports fd = some port)
    (hNbFd : ∀ other, other ≠ fd →
      t'.nbFd other = t.nbFd other)
    (hTable : ∀ other, other ≠ fd →
      t'.fdTable other = t.fdTable other)
    (hPorts : ∀ q ∈ assignablePorts,
      t'.portOccupied (q - 8000) =
        t.portOccupied (q - 8000))
    (hSrc : t'.fdSrcPort = t.fdSrcPort)
    (hLedger : l'.ports = Function.update l.ports fd none)
    (hClosed : l'.closed = port :: l.closed) :
    PortBooks t' l' := by
  have hHeld := hBooks.held fd port hPort
  refine ⟨?_, ?_, ?_, ?_, ?_⟩
  · intro other q hq
    rw [hLedger, Function.update_apply] at hq
    split at hq
    · cases hq
    · next hOther =>
        rcases hBooks.held other q hq with
          ⟨hLt', hOwned', hTable', hq', hOn⟩
        rw [hNbFd other hOther, hTable other hOther,
          hPorts q hq']
        exact ⟨hLt', hOwned', hTable', hq', hOn⟩
  · intro q hq
    rw [hClosed] at hq
    rcases List.mem_cons.mp hq with rfl | hq
    · refine ⟨hHeld.2.2.2.1, ?_, ?_⟩
      · rw [hPorts q hHeld.2.2.2.1]
        exact hHeld.2.2.2.2
      · intro other
        rw [hLedger, Function.update_apply]
        split
        · exact fun hEq => by cases hEq
        · next hOther =>
            exact fun hEq => hOther
              (hBooks.distinct other fd q hEq hPort)
    · rcases hBooks.closed q hq with ⟨hq', hOn, hNone⟩
      refine ⟨hq', by rw [hPorts q hq']; exact hOn, ?_⟩
      intro other
      rw [hLedger, Function.update_apply]
      split
      · exact fun hEq => by cases hEq
      · exact hNone other
  · intro other other' q hq hq'
    rw [hLedger, Function.update_apply] at hq hq'
    split at hq
    · cases hq
    · split at hq'
      · cases hq'
      · exact hBooks.distinct other other' q hq hq'
  · intro q hq hOn
    rw [hPorts q hq] at hOn
    rw [hLedger, hClosed]
    rcases hBooks.occupied q hq hOn with hMem |
      ⟨other, hOther⟩
    · exact Or.inl (List.mem_cons_of_mem _ hMem)
    · by_cases hEq : other = fd
      · rw [hEq, hPort] at hOther
        cases hOther
        exact Or.inl (List.mem_cons_self ..)
      · exact Or.inr ⟨other, by
          rw [Function.update_of_ne hEq]
          exact hOther⟩
  · rw [hSrc]
    exact hBooks.srcPort

/- What one call does to the books. -/
theorem SocketEffect.portBooks
    {call : PosixCall P}
    (hBooks : PortBooks t l)
    (hEffect : SocketEffect t call t') :
    PortBooks t' (recordPort t l call) := by
  cases hEffect with
  | socket hLt hFree hSame =>
      refine hBooks.reassign (hBooks.ports_of_foreign hFree)
        (fun _ _ => congrFun hSame.portOccupied _) ?_ ?_
      · intro other
        rw [hSame.fdSrcPort]
        refine (Function.update_apply ..).trans ?_
        split
        · rfl
        · exact hBooks.srcPort other
      · intro other hOther
        rw [hSame.nbFd, hSame.fdTable]
        exact ⟨Function.update_of_ne hOther _ _,
          Function.update_of_ne hOther _ _⟩
  | connect hNe hLt hOwned hNull hFree hSame =>
      rw [recordPort, if_pos hOwned, hFree]
      exact hBooks.connect hLt hOwned hNull hNe hFree
        hSame.nbFd hSame.fdTable hSame.portOccupied
        hSame.fdSrcPort rfl rfl
  | bind hNe hLt hOwned hNull hSame =>
      refine hBooks.reassign (hBooks.ports_of_null hNull)
        (fun _ _ => congrFun hSame.portOccupied _) ?_ ?_
      · rw [hSame.fdSrcPort]
        exact hBooks.srcPort
      · intro other hOther
        rw [hSame.nbFd, hSame.fdTable]
        exact ⟨rfl, Function.update_of_ne hOther _ _⟩
  | accept hLt hFree hSame =>
      refine hBooks.reassign (hBooks.ports_of_foreign hFree)
        (fun _ _ => congrFun hSame.portOccupied _) ?_ ?_
      · rw [hSame.fdSrcPort]
        exact hBooks.srcPort
      · intro other hOther
        rw [hSame.nbFd, hSame.fdTable]
        exact ⟨Function.update_of_ne hOther _ _,
          Function.update_of_ne hOther _ _⟩
  | @close _ fd hLt hOwned hSame =>
      have hFlag : (t.fdSrcPort fd).toNat = 0 := by
        rw [hBooks.srcPort fd]
        rfl
      have hKept : ∀ q ∈ assignablePorts,
          t'.portOccupied (q - 8000) =
            t.portOccupied (q - 8000) := by
        intro q hq
        have hLe := (mem_assignablePorts.mp hq).1
        have hNe : q - 8000 ≠ 0 := by omega
        generalize q - 8000 = k at hNe
        rw [hSame.portOccupied, hFlag]
        exact Function.update_of_ne hNe _ _
      cases hPort : l.ports fd with
      | none =>
          rw [recordPort, hPort]
          refine hBooks.reassign hPort hKept ?_ ?_
          · rw [hSame.fdSrcPort]
            exact hBooks.srcPort
          · intro other hOther
            rw [hSame.nbFd, hSame.fdTable]
            exact ⟨Function.update_of_ne hOther _ _,
              Function.update_of_ne hOther _ _⟩
      | some port =>
          rw [recordPort, hPort]
          refine hBooks.close hPort ?_ ?_ hKept
            hSame.fdSrcPort rfl rfl
          · intro other hOther
            rw [hSame.nbFd]
            exact Function.update_of_ne hOther _ _
          · intro other hOther
            rw [hSame.fdTable]
            exact Function.update_of_ne hOther _ _
  | select hSame => exact hBooks.congr hSame
  | step hSame => exact hBooks.congr hSame
  | @foreign call fd hFd hForeign =>
      have hNone := hBooks.ports_of_foreign hForeign
      cases call with
      | connect =>
          cases hFd
          rw [recordPort, if_neg (by simp [hForeign])]
          exact hBooks
      | close =>
          cases hFd
          rw [recordPort, hNone]
          exact hBooks
      | socket => exact hBooks
      | bind => exact hBooks
      | accept => exact hBooks
      | select => exact hBooks
      | step => exact hBooks

/- At the start no port is occupied. -/
theorem portBooks_zero :
    PortBooks .zero .empty := by
  refine ⟨?_, ?_, ?_, ?_, fun _ => rfl⟩
  · intro fd port hPort
    cases hPort
  · intro port hPort
    cases hPort
  · intro fd fd' port hPort
    cases hPort
  · intro port _ hOn
    cases hOn

------------------------------------------------------------
-- Runs
------------------------------------------------------------

/- While no connected socket was closed, a port is left. -/
theorem PortBooks.available
    (hBooks : PortBooks t l)
    (hOpen : l.closed = [])
    (hFew : l.connected.card < 1920) :
    ∃ result, findFreePort t.portOccupied = .ok result := by
  by_contra hNone
  let portOf : Nat → Nat := fun fd => (l.ports fd).getD 0
  have hAll : Finset.Ico 8080 10000 ⊆
      l.connected.image portOf := by
    intro port hMem
    have hPort := mem_assignablePorts.mpr
      (Finset.mem_Ico.mp hMem)
    have hOn : t.portOccupied (port - 8000) = true := by
      by_contra hOff
      exact hNone (findFreePort_exists hPort (by simpa using
        hOff))
    rcases hBooks.occupied port hPort hOn with
      hClosed | ⟨fd, hFd⟩
    · rw [hOpen] at hClosed
      cases hClosed
    · refine Finset.mem_image.mpr ⟨fd, ?_, by simp [portOf,
        hFd]⟩
      rw [PortLedger.connected, Finset.mem_filter,
        Finset.mem_range]
      exact ⟨(hBooks.held fd port hFd).1, by simp [hFd]⟩
  have hCard := Finset.card_le_card hAll
  have hImage : (l.connected.image portOf).card ≤
      l.connected.card := Finset.card_image_le
  rw [Nat.card_Ico] at hCard
  omega

/- The port of a closed socket stays occupied. -/
theorem PortBooks.portsAllocated_iff
    (hBooks : PortBooks t l) :
    PortsAllocated t l ↔ l.closed = [] := by
  constructor
  · intro hAllocated
    rw [List.eq_nil_iff_forall_not_mem]
    intro port hPort
    rcases hBooks.closed port hPort with ⟨-, hOn, hNone⟩
    have hOff := hAllocated.recycled port hPort hNone
    rw [hOn] at hOff
    cases hOff
  · intro hOpen
    refine ⟨hBooks.distinct, ?_, hBooks.available hOpen⟩
    intro port hPort
    rw [hOpen] at hPort
    cases hPort

theorem portBooks_of_run
    {e : Endpoint P}
    {calls : List (PosixCall P)}
    {s : Posix P × PortLedger}
    (hRun : Run (RecordsPorts fmt cfg)
      ((e, FdTables.zero), PortLedger.empty) calls s) :
    PortBooks s.1.2 s.2 := by
  let books : Posix P × PortLedger → Prop := fun s =>
    PortBooks s.1.2 s.2
  have hStep : ∀ s call s', books s →
      RecordsPorts fmt cfg s call s' → books s' := by
    rintro s call s' hBooks ⟨hCall, hRecord⟩
    simp only [books, hRecord]
    exact hCall.socketEffect.portBooks hBooks
  exact hRun.invariant hStep portBooks_zero

/-
  In every run, source ports are allocated uniquely and
  recycled exactly if no connected socket was closed.
-/
theorem portsAllocated_iff_of_run
    {e : Endpoint P}
    {calls : List (PosixCall P)}
    {s : Posix P × PortLedger}
    (hRun : Run (RecordsPorts fmt cfg)
      ((e, FdTables.zero), PortLedger.empty) calls s) :
    PortsAllocated s.1.2 s.2 ↔ s.2.closed = [] :=
  (portBooks_of_run hRun).portsAllocated_iff

end Books

------------------------------------------------------------
-- A Port That Is Not Given Back
------------------------------------------------------------

/- The stack of a client, with port 8 of host 9 as its peer. -/
def clientConfig : Config :=
  plainConfig .srcDstIdentifier

/- The connect of socket 3, which one step completes. -/
def connectThree : PosixCall PacketBuffer :=
  .connect 3 9 8 1 blankConnection [⟨0, none⟩]

/- Socket 3 is opened and connected. -/
def openThree
    (s : Posix PacketBuffer) :
    Except Fault (Posix PacketBuffer × Posix PacketBuffer) := do
  let s₁ ← nbpSocket 3 s
  let s₂ ← nbpConnect netPacketFormat clientConfig 3 9 8 1
    blankConnection [⟨0, none⟩] s₁
  return (s₁, s₂)

/- The process before any call. -/
def bareProcess : Posix PacketBuffer :=
  (bareStack, .zero)

theorem recordsPorts_openThree
    {s₁ s₂ : Posix PacketBuffer}
    (hOpen : openThree bareProcess = .ok (s₁, s₂)) :
    Run (RecordsPorts netPacketFormat clientConfig)
      (bareProcess, PortLedger.empty)
      [.socket 3, connectThree]
      (s₂, recordPort s₁.2 .empty connectThree) := by
  rcases bind_eq_ok_iff.mp hOpen with ⟨s₁', hFirst, hRest⟩
  rcases bind_eq_ok_iff.mp hRest with ⟨s₂', hSecond, hEnd⟩
  cases hEnd
  have hSocket : RecordsPorts netPacketFormat clientConfig
      (bareProcess, PortLedger.empty) (.socket 3)
      (s₁, PortLedger.empty) :=
    ⟨.socket hFirst, rfl⟩
  have hFree : s₁.1.conns 1 = none := by
    rcases bind_eq_ok_iff.mp hFirst with ⟨t, -, hEnd⟩
    cases hEnd
    rfl
  have hConnect : RecordsPorts netPacketFormat clientConfig
      (s₁, PortLedger.empty) connectThree
      (s₂, recordPort s₁.2 .empty connectThree) :=
    ⟨.connect (by decide) hFree hSecond, rfl⟩
  exact .cons hSocket (.cons hConnect (.nil _))

/- The port of a socket that was closed is still occupied. -/
theorem not_forall_portsAllocated :
    ¬ ∀ (fmt : PacketFormat PacketBuffer) cfg e calls s,
      Run (RecordsPorts fmt cfg)
        ((e, FdTables.zero), PortLedger.empty) calls s →
      PortsAllocated s.1.2 s.2 := by
  intro hAll
  have hTable : (do
      let (s₁, s₂) ← openThree bareProcess
      let _ ← nbpClose clientConfig 3 s₂
      let l := recordPort s₁.2 .empty connectThree
      return l.ports 3) = .ok (some 8080) := by
    decide +kernel
  rcases bind_eq_ok_iff.mp hTable with
    ⟨⟨s₁, s₂⟩, hOpen, hRest⟩
  rcases bind_eq_ok_iff.mp hRest with ⟨s₃, hClose, hEnd⟩
  let l := recordPort s₁.2 .empty connectThree
  have hPort : l.ports 3 = some 8080 := Except.ok.inj hEnd
  let close : PosixCall PacketBuffer := .close 3
  have hRecord : (recordPort s₂.2 l close).closed =
      8080 :: l.closed := by
    change (match l.ports 3 with
      | some port => PortLedger.mk
          (Function.update l.ports 3 none) (port :: l.closed)
      | none => l).closed = _
    rw [hPort]
  have hLast : RecordsPorts netPacketFormat clientConfig
      (s₂, l) close (s₃, recordPort s₂.2 l close) :=
    ⟨.close hClose, rfl⟩
  have hRun := (recordsPorts_openThree hOpen).append
    (.cons hLast (.nil _))
  have hOpen := (portBooks_of_run hRun).portsAllocated_iff.mp
    (hAll netPacketFormat clientConfig bareStack _ _ hRun)
  exact List.cons_ne_nil _ _ (hRecord.symm.trans hOpen)

/- A socket that is connected has its port. -/
theorem portsAllocated_iff_of_run_one :
    ∃ (s : Posix PacketBuffer × PortLedger) (calls : List _),
      calls ≠ [] ∧
      Run (RecordsPorts netPacketFormat clientConfig)
        ((bareStack, FdTables.zero), PortLedger.empty) calls
        s ∧
      (PortsAllocated s.1.2 s.2 ↔ s.2.closed = []) := by
  have hTable : (do
      let (_, s₂) ← openThree bareProcess
      return s₂.2.nbFd 3) = .ok true := by
    decide +kernel
  rcases bind_eq_ok_iff.mp hTable with ⟨⟨s₁, s₂⟩, hOpen, -⟩
  have hRun := recordsPorts_openThree hOpen
  exact ⟨_, _, List.cons_ne_nil _ _, hRun,
    portsAllocated_iff_of_run hRun⟩

end NetBlocks
