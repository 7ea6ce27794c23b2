import NetBlocks.Posix.Network
import NetBlocks.Lib.Runs

/-
  The calls of the POSIX interface as the steps of a
  transition relation, and the tables each of them writes to.

  Main declarations:
    * `PosixCall` and `PosixCalls`
    * `SameSockets`
    * `mainLoopStep_sameSockets`
-/

namespace NetBlocks

open Except

variable {P : Type}

------------------------------------------------------------
-- Calls
------------------------------------------------------------

/-
  A call, with what `open`, `malloc`, the clock, and the
  transport return to it. `step` is one step of the loop of
  `nbp_pause`.
-/
inductive PosixCall (P : Type) where
| socket (fd : Nat)
| connect (fd : Nat) (dstAddr : BitVec 32)
    (sinPort : BitVec 16) (c : ConnPtr) (fresh : Connection)
    (inputs : List (StepInput P))
| bind (fd : Nat) (sinPort : BitVec 16) (c : ConnPtr)
    (fresh : Connection) (input : StepInput P)
| accept (fd newFd : Nat) (c : ConnPtr) (fresh : Connection)
    (inputs : List (StepInput P)) (input : StepInput P)
| close (fd : Nat)
| select (fds : List Nat) (input : Nat → StepInput P)
| step (input : StepInput P)

/- A call that returns takes one process state to another. -/
inductive PosixCalls
    (fmt : PacketFormat P)
    (cfg : Config) :
    Posix P → PosixCall P → Posix P → Prop
| socket {s s' : Posix P} {fd : Nat} :
    nbpSocket fd s = .ok s' →
    PosixCalls fmt cfg s (.socket fd) s'
| connect {s s' : Posix P} {fd : Nat} {dstAddr : BitVec 32}
    {sinPort : BitVec 16} {c : ConnPtr} {fresh : Connection}
    {inputs : List (StepInput P)} :
    -- `malloc` returns an address that is not in use
    c ≠ 0 → s.1.conns c = none →
    nbpConnect fmt cfg fd dstAddr sinPort c fresh inputs s =
      .ok s' →
    PosixCalls fmt cfg s
      (.connect fd dstAddr sinPort c fresh inputs) s'
| bind {s s' : Posix P} {fd : Nat} {sinPort : BitVec 16}
    {c : ConnPtr} {fresh : Connection}
    {input : StepInput P} :
    c ≠ 0 → s.1.conns c = none →
    nbpBind fmt cfg fd sinPort c fresh input s = .ok s' →
    PosixCalls fmt cfg s (.bind fd sinPort c fresh input) s'
| accept {s s' : Posix P} {fd newFd : Nat} {c : ConnPtr}
    {fresh : Connection} {fuel : Nat}
    {inputs : List (StepInput P)} {input : StepInput P}
    {addr : Option SockAddr} :
    c ≠ 0 → s.1.conns c = none →
    nbpAccept fmt cfg fd newFd c fresh fuel inputs input s =
      .ok (addr, s') →
    PosixCalls fmt cfg s
      (.accept fd newFd c fresh inputs input) s'
| close {s s' : Posix P} {fd : Nat} :
    nbpClose cfg fd s = .ok s' →
    PosixCalls fmt cfg s (.close fd) s'
| select {s s' : Posix P} {fds : List Nat}
    {input : Nat → StepInput P} {ready : Option ReadyFor} :
    nbpSelect fmt cfg fds input s = .ok (ready, s') →
    PosixCalls fmt cfg s (.select fds input) s'
| step {s s' : Posix P} {input : StepInput P} :
    mainLoopStep fmt cfg input s = .ok s' →
    PosixCalls fmt cfg s (.step input) s'

------------------------------------------------------------
-- What Events Leave Alone
------------------------------------------------------------

/- Only the counters and the status of the fds differ. -/
structure SameSockets
    (t t' : FdTables) : Prop where
  fdTable : t'.fdTable = t.fdTable
  nbFd : t'.nbFd = t.nbFd
  portOccupied : t'.portOccupied = t.portOccupied
  fdSrcPort : t'.fdSrcPort = t.fdSrcPort
  userData : t'.userData = t.userData

theorem SameSockets.refl
    (t : FdTables) :
    SameSockets t t :=
  ⟨rfl, rfl, rfl, rfl, rfl⟩

theorem SameSockets.trans
    {t t₁ t' : FdTables}
    (hFirst : SameSockets t t₁)
    (hSecond : SameSockets t₁ t') :
    SameSockets t t' where
  fdTable := hSecond.fdTable.trans hFirst.fdTable
  nbFd := hSecond.nbFd.trans hFirst.nbFd
  portOccupied :=
    hSecond.portOccupied.trans hFirst.portOccupied
  fdSrcPort := hSecond.fdSrcPort.trans hFirst.fdSrcPort
  userData := hSecond.userData.trans hFirst.userData

section Events

variable
    {fmt : PacketFormat P}
    {cfg : Config}
    {s s' : Posix P}

/- A callback changes a counter or a status, and no endpoint. -/
theorem posixCallback_frame
    {event : QueueEvent}
    {c : ConnPtr}
    (hCallback : posixCallback event c s = .ok s') :
    s'.1 = s.1 ∧ SameSockets s.2 s'.2 := by
  cases event with
  | readReady =>
      cases hCallback
      exact ⟨rfl, .refl _⟩
  | established =>
      rw [posixCallback] at hCallback
      rcases bind_eq_ok_iff.mp hCallback with
        ⟨conn, -, hRest⟩
      rcases bind_eq_ok_iff.mp hRest with ⟨_, -, hEnd⟩
      cases hEnd
      exact ⟨rfl, rfl, rfl, rfl, rfl, rfl⟩
  | acceptReady =>
      rw [posixCallback] at hCallback
      rcases bind_eq_ok_iff.mp hCallback with
        ⟨conn, -, hRest⟩
      rcases bind_eq_ok_iff.mp hRest with ⟨_, -, hEnd⟩
      cases hEnd
      exact ⟨rfl, rfl, rfl, rfl, rfl, rfl⟩

theorem raiseEvents_frame
    {events : List (QueueEvent × ConnPtr)}
    (hRaise : raiseEvents events s = .ok s') :
    s'.1 = s.1 ∧ SameSockets s.2 s'.2 := by
  induction events generalizing s with
  | nil =>
      cases hRaise
      exact ⟨rfl, .refl _⟩
  | cons entry events ih =>
      rw [raiseEvents] at hRaise
      rcases bind_eq_ok_iff.mp hRaise with
        ⟨s₁, hCallback, hRest⟩
      have hFirst := posixCallback_frame hCallback
      have hSecond := ih hRest
      exact ⟨hSecond.1.trans hFirst.1,
        hFirst.2.trans hSecond.2⟩

theorem callApi_frame
    {e : Endpoint P}
    (hCall : callApi e s = .ok s') :
    s'.1 = e ∧ SameSockets s.2 s'.2 :=
  raiseEvents_frame hCall

theorem cycleConnections_sameSockets
    (hCycle : cycleConnections posixCallback s = .ok s') :
    SameSockets s.2 s'.2 := by
  let kept : Posix P → Prop := fun s₁ => SameSockets s.2 s₁.2
  have hNotify : ∀ event c s₁ s₂, event ≠ .acceptReady →
      kept s₁ → notify posixCallback event c s₁ = .ok s₂ →
        kept s₂ :=
    fun _ _ _ _ _ hKept hCall =>
      hKept.trans (posixCallback_frame hCall).2
  exact cycleConnections_invariant hNotify
    (fun _ _ _ hKept _ => hKept) (SameSockets.refl s.2) hCycle

theorem pollStep_sameSockets
    {packet : Option (P × Int)}
    (hPoll : pollStep fmt cfg packet s = .ok s') :
    SameSockets s.2 s'.2 := by
  cases packet with
  | none =>
      cases hPoll
      exact .refl _
  | some received =>
      rcases bind_eq_ok_iff.mp hPoll with ⟨e, -, hCall⟩
      exact (callApi_frame hCall).2

/- A step of the main loop leaves the sockets alone. -/
theorem mainLoopStep_sameSockets
    {input : StepInput P}
    (hStep : mainLoopStep fmt cfg input s = .ok s') :
    SameSockets s.2 s'.2 := by
  unfold mainLoopStep at hStep
  rcases bind_eq_ok_iff.mp hStep with ⟨s₁, hReceive, hRest⟩
  rcases bind_eq_ok_iff.mp hRest with ⟨s₂, hCycle, hRest⟩
  rcases bind_eq_ok_iff.mp hRest with ⟨e, -, hEnd⟩
  cases hEnd
  have hReceived := pollStep_sameSockets hReceive
  have hCycled := cycleConnections_sameSockets hCycle
  exact hReceived.trans hCycled

/-
  The loops that wait take steps of the main loop, and no
  others.
-/
section Loops

variable
    {fd : Nat}
    {inv : Posix P → Prop}
    (hStep : ∀ input s s', inv s →
      mainLoopStep fmt cfg input s = .ok s' → inv s')

include hStep

theorem awaitEstablished_invariant
    {inputs : List (StepInput P)}
    (hInv : inv s)
    (hAwait : awaitEstablished fmt cfg fd inputs s = .ok s') :
    inv s' := by
  induction inputs generalizing s with
  | nil =>
      rw [awaitEstablished] at hAwait
      split at hAwait <;> cases hAwait
      exact hInv
  | cons input inputs ih =>
      rw [awaitEstablished] at hAwait
      split at hAwait
      · cases hAwait
        exact hInv
      · rcases bind_eq_ok_iff.mp hAwait with
          ⟨s₁, hFirst, hRest⟩
        exact ih (hStep _ _ _ hInv hFirst) hRest

theorem awaitAccept_invariant
    {inputs : List (StepInput P)}
    (hInv : inv s)
    (hAwait : awaitAccept fmt cfg fd inputs s = .ok s') :
    inv s' ∧ s'.2.fdAcceptCounter fd ≠ 0 := by
  induction inputs generalizing s with
  | nil =>
      rw [awaitAccept] at hAwait
      split at hAwait
      · next hPositive =>
          cases hAwait
          exact ⟨hInv, hPositive⟩
      · cases hAwait
  | cons input inputs ih =>
      rw [awaitAccept] at hAwait
      split at hAwait
      · next hPositive =>
          cases hAwait
          exact ⟨hInv, hPositive⟩
      · rcases bind_eq_ok_iff.mp hAwait with
          ⟨s₁, hFirst, hRest⟩
        exact ih (hStep _ _ _ hInv hFirst) hRest

/- What is found ready is so in the last state. -/
theorem selectLoop_invariant
    {fds : List Nat}
    {input : Nat → StepInput P}
    {n : Nat}
    {ready : Option ReadyFor}
    (hInv : inv s)
    (hSelect : selectLoop fmt cfg fds input n s =
      .ok (ready, s')) :
    inv s' ∧ (ready ≠ none → findReady s' fds = .ok ready) := by
  induction n generalizing s with
  | zero =>
      cases hSelect
      exact ⟨hInv, fun hNe => absurd rfl hNe⟩
  | succ n ih =>
      rw [selectLoop] at hSelect
      rcases bind_eq_ok_iff.mp hSelect with
        ⟨s₁, hFirst, hRest⟩
      have hInv₁ := hStep _ _ _ hInv hFirst
      rcases bind_eq_ok_iff.mp hRest with
        ⟨found, hFound, hRest⟩
      cases found with
      | none => exact ih hInv₁ hRest
      | some _ =>
          cases hRest
          exact ⟨hInv₁, fun _ => hFound⟩

end Loops

/- A step keeps what sockets there were in the beginning. -/
theorem mainLoopStep_keeps_sockets
    {t : FdTables}
    (input : StepInput P)
    (s₁ s₂ : Posix P)
    (hSame : SameSockets t s₁.2)
    (hStep : mainLoopStep fmt cfg input s₁ = .ok s₂) :
    SameSockets t s₂.2 :=
  hSame.trans (mainLoopStep_sameSockets hStep)

theorem awaitEstablished_sameSockets
    {fd : Nat}
    {inputs : List (StepInput P)}
    (hAwait : awaitEstablished fmt cfg fd inputs s = .ok s') :
    SameSockets s.2 s'.2 :=
  awaitEstablished_invariant mainLoopStep_keeps_sockets
    (.refl s.2) hAwait

theorem awaitAccept_sameSockets
    {fd : Nat}
    {inputs : List (StepInput P)}
    (hAwait : awaitAccept fmt cfg fd inputs s = .ok s') :
    SameSockets s.2 s'.2 :=
  (awaitAccept_invariant mainLoopStep_keeps_sockets
    (.refl s.2) hAwait).1

theorem selectLoop_sameSockets
    {fds : List Nat}
    {input : Nat → StepInput P}
    {n : Nat}
    {ready : Option ReadyFor}
    (hSelect : selectLoop fmt cfg fds input n s =
      .ok (ready, s')) :
    SameSockets s.2 s'.2 :=
  (selectLoop_invariant mainLoopStep_keeps_sockets
    (.refl s.2) hSelect).1

end Events

------------------------------------------------------------
-- What Calls Do to Sockets
------------------------------------------------------------

/- A new fd is taken for an accepted connection. -/
def FdTables.accepts
    (newFd : Nat)
    (accepted : ConnPtr)
    (t : FdTables) : FdTables :=
  { t with
    nbFd := Function.update t.nbFd newFd true
    fdTable := Function.update t.fdTable newFd accepted
    userData := Function.update t.userData accepted newFd }

theorem SameSockets.accepts
    {t t' : FdTables}
    (hSame : SameSockets t t')
    (newFd : Nat)
    (accepted : ConnPtr) :
    SameSockets (t.accepts newFd accepted)
      (t'.accepts newFd accepted) where
  fdTable := by
    simp only [FdTables.accepts, hSame.fdTable]
  nbFd := by
    simp only [FdTables.accepts, hSame.nbFd]
  portOccupied := hSame.portOccupied
  fdSrcPort := hSame.fdSrcPort
  userData := by
    simp only [FdTables.accepts, hSame.userData]

/- The fd that a call is made on. -/
def PosixCall.fd : PosixCall P → Option Nat
| .connect fd .. => some fd
| .bind fd .. => some fd
| .accept fd .. => some fd
| .close fd => some fd
| _ => none

/-
  The tables after a call, up to the counters and status of
  the fds.
-/
inductive SocketEffect
    (t : FdTables) : PosixCall P → FdTables → Prop
| socket {t' : FdTables} {fd : Nat} :
    fd < maxFds → t.nbFd fd = false →
    SameSockets
      { t with
        nbFd := Function.update t.nbFd fd true
        fdTable := Function.update t.fdTable fd 0
        fdSrcPort := Function.update t.fdSrcPort fd 0 } t' →
    SocketEffect t (.socket fd) t'
| connect {t' : FdTables} {fd : Nat} {dstAddr : BitVec 32}
    {sinPort : BitVec 16} {c : ConnPtr} {fresh : Connection}
    {inputs : List (StepInput P)} {port : Nat}
    {portOccupied : Nat → Bool} :
    c ≠ 0 →
    fd < maxFds → t.nbFd fd = true → t.fdTable fd = 0 →
    findFreePort t.portOccupied = .ok (port, portOccupied) →
    SameSockets
      { t with
        portOccupied := portOccupied
        fdTable := Function.update t.fdTable fd c
        userData := Function.update t.userData c fd } t' →
    SocketEffect t
      (.connect fd dstAddr sinPort c fresh inputs) t'
| bind {t' : FdTables} {fd : Nat} {sinPort : BitVec 16}
    {c : ConnPtr} {fresh : Connection}
    {input : StepInput P} :
    c ≠ 0 →
    fd < maxFds → t.nbFd fd = true → t.fdTable fd = 0 →
    SameSockets
      { t with
        fdTable := Function.update t.fdTable fd c
        userData := Function.update t.userData c fd } t' →
    SocketEffect t (.bind fd sinPort c fresh input) t'
| accept {t' : FdTables} {fd newFd : Nat}
    {c accepted : ConnPtr} {fresh : Connection}
    {inputs : List (StepInput P)} {input : StepInput P} :
    newFd < maxFds → t.nbFd newFd = false →
    SameSockets (t.accepts newFd accepted) t' →
    SocketEffect t (.accept fd newFd c fresh inputs input) t'
| close {t' : FdTables} {fd : Nat} :
    fd < maxFds → t.nbFd fd = true →
    SameSockets
      { t with
        portOccupied := Function.update t.portOccupied
          (t.fdSrcPort fd).toNat false
        fdTable := Function.update t.fdTable fd 0
        nbFd := Function.update t.nbFd fd false } t' →
    SocketEffect t (.close fd) t'
| select {t' : FdTables} {fds : List Nat}
    {input : Nat → StepInput P} :
    SameSockets t t' → SocketEffect t (.select fds input) t'
| step {t' : FdTables} {input : StepInput P} :
    SameSockets t t' → SocketEffect t (.step input) t'
| foreign {call : PosixCall P} {fd : Nat} :
    call.fd = some fd → t.nbFd fd = false →
    SocketEffect t call t

section Effects

variable
    {fmt : PacketFormat P}
    {cfg : Config}
    {s s' : Posix P}
    {t t' : FdTables}
    {fd : Nat}

theorem checkFd_ok_iff :
    checkFd fd = .ok () ↔ fd < maxFds := by
  unfold checkFd
  split
  · next hLt => simp [hLt]
  · next hGe => simp [hGe]

theorem grabFreeFd_ok_iff :
    grabFreeFd fd t = .ok t' ↔
      fd < maxFds ∧ t.nbFd fd = false ∧
        t' = { t with
          nbFd := Function.update t.nbFd fd true } := by
  unfold grabFreeFd
  rw [bind_eq_ok_iff]
  constructor
  · rintro ⟨_, hCheck, hRest⟩
    refine ⟨checkFd_ok_iff.mp hCheck, ?_⟩
    split at hRest
    · cases hRest
    · next hFree =>
        cases hRest
        exact ⟨by simpa using hFree, rfl⟩
  · rintro ⟨hLt, hFree, rfl⟩
    refine ⟨(), checkFd_ok_iff.mpr hLt, ?_⟩
    rw [hFree]
    rfl

theorem setUserData_ok_iff
    {c : ConnPtr} :
    setUserData c fd s = .ok s' ↔
      s.1.conns c ≠ none ∧
        s' = (s.1, { s.2 with
          userData :=
            Function.update s.2.userData c fd }) := by
  unfold setUserData
  rw [bind_eq_ok_iff]
  constructor
  · rintro ⟨conn, hLoad, hEnd⟩
    have hConn := Endpoint.loadConn_eq_ok_iff.mp hLoad
    cases hEnd
    exact ⟨by simp [hConn], rfl⟩
  · rintro ⟨hLive, rfl⟩
    rcases Option.ne_none_iff_exists'.mp hLive with
      ⟨conn, hConn⟩
    exact ⟨conn, Endpoint.loadConn_of_some hConn, rfl⟩

/-
  A socket without a connection gets one; the events of
  `nb__establish` are raised on the way.
-/
theorem establishFd_ok_iff
    {c : ConnPtr}
    {fresh : Connection}
    {h a sa : BitVec 32} :
    establishFd fmt cfg fd c fresh h a sa s = .ok s' ↔
      s.2.fdTable fd = 0 ∧
        ∃ e s₁, nbEstablish fmt cfg c fresh h a sa s.1 =
            .ok e ∧
          callApi e s = .ok s₁ ∧
          setUserData c fd (s₁.1, { s₁.2 with
            fdTable :=
              Function.update s₁.2.fdTable fd c }) =
            .ok s' := by
  unfold establishFd
  by_cases hNull : s.2.fdTable fd = 0
  · rw [if_neg (not_not.mpr hNull)]
    simp only [bind_eq_ok_iff, hNull, true_and,
      exists_and_left]
  · rw [if_pos hNull]
    exact iff_of_false (fun hThrow => by cases hThrow)
      (fun hBoth => hNull hBoth.1)

theorem establishFd_sameSockets
    {c : ConnPtr}
    {fresh : Connection}
    {h a sa : BitVec 32}
    (hEstablish : establishFd fmt cfg fd c fresh h a sa s =
      .ok s') :
    s.2.fdTable fd = 0 ∧
      SameSockets
        { s.2 with
          fdTable := Function.update s.2.fdTable fd c
          userData := Function.update s.2.userData c fd }
        s'.2 := by
  rcases establishFd_ok_iff.mp hEstablish with
    ⟨hNull, e, s₁, -, hCall, hSet⟩
  rcases (callApi_frame hCall).2 with
    ⟨hTable, hOwned, hPorts, hSrc, hUser⟩
  rcases setUserData_ok_iff.mp hSet with ⟨-, rfl⟩
  refine ⟨hNull, ?_, hOwned, hPorts, hSrc, ?_⟩
  · rw [hTable]
  · rw [hUser]

/- The part of `nbp_accept` behind its loop, in order. -/
theorem acceptFd_ok_iff
    {newFd : Nat}
    {c : ConnPtr}
    {fresh : Connection}
    {fuel : Nat} :
    acceptFd fmt cfg fd newFd c fresh fuel s = .ok s' ↔
      newFd < maxFds ∧ s.2.nbFd newFd = false ∧
        ∃ accepted e s₁,
          nbAccept fmt cfg (s.2.fdTable fd) c fresh fuel s.1 =
            .ok (accepted, e) ∧
          callApi e (s.1, { s.2 with
            nbFd := Function.update s.2.nbFd newFd true }) =
            .ok s₁ ∧
          setUserData accepted newFd (s₁.1, { s₁.2 with
            fdTable :=
              Function.update s₁.2.fdTable newFd accepted
            fdAcceptCounter :=
              Function.update s₁.2.fdAcceptCounter fd
                (s₁.2.fdAcceptCounter fd - 1) }) =
            .ok s' := by
  unfold acceptFd
  simp only [bind_eq_ok_iff, grabFreeFd_ok_iff]
  constructor
  · rintro ⟨_, ⟨hLt, hFree, rfl⟩, ⟨accepted, e⟩, hAccept,
      s₁, hCall, hSet⟩
    exact ⟨hLt, hFree, accepted, e, s₁, hAccept, hCall, hSet⟩
  · rintro ⟨hLt, hFree, accepted, e, s₁, hAccept, hCall,
      hSet⟩
    exact ⟨_, ⟨hLt, hFree, rfl⟩, ⟨accepted, e⟩, hAccept, s₁,
      hCall, hSet⟩

theorem acceptFd_sameSockets
    {newFd : Nat}
    {c : ConnPtr}
    {fresh : Connection}
    {fuel : Nat}
    (hAccept : acceptFd fmt cfg fd newFd c fresh fuel s =
      .ok s') :
    newFd < maxFds ∧ s.2.nbFd newFd = false ∧
      ∃ accepted,
        SameSockets (s.2.accepts newFd accepted) s'.2 := by
  rcases acceptFd_ok_iff.mp hAccept with
    ⟨hLt, hFree, accepted, e, s₁, -, hCall, hSet⟩
  have hSame := (callApi_frame hCall).2
  rcases setUserData_ok_iff.mp hSet with ⟨-, rfl⟩
  refine ⟨hLt, hFree, accepted, ?_, hSame.nbFd,
    hSame.portOccupied, hSame.fdSrcPort, ?_⟩
  · exact congrArg
      (fun table => Function.update table newFd accepted)
      hSame.fdTable
  · exact congrArg
      (fun user => Function.update user accepted newFd)
      hSame.userData

/- Each call has one of these effects. -/
theorem PosixCalls.socketEffect
    {call : PosixCall P}
    (hCall : PosixCalls fmt cfg s call s') :
    SocketEffect s.2 call s'.2 := by
  cases hCall with
  | socket hSocket =>
      unfold nbpSocket at hSocket
      rcases bind_eq_ok_iff.mp hSocket with ⟨t, hGrab, hEnd⟩
      rcases grabFreeFd_ok_iff.mp hGrab with ⟨hLt, hFree, rfl⟩
      cases hEnd
      exact .socket hLt hFree ⟨rfl, rfl, rfl, rfl, rfl⟩
  | connect hNe _ hConnect =>
      unfold nbpConnect at hConnect
      rcases bind_eq_ok_iff.mp hConnect with
        ⟨_, hCheck, hRest⟩
      split at hRest
      · next hOwned =>
          rcases bind_eq_ok_iff.mp hRest with
            ⟨⟨port, portOccupied⟩, hPort, hRest⟩
          rcases bind_eq_ok_iff.mp hRest with
            ⟨s₁, hEstablish, hAwait⟩
          rcases establishFd_sameSockets hEstablish with
            ⟨hNull, hSame⟩
          exact .connect hNe (checkFd_ok_iff.mp hCheck) hOwned
            hNull hPort
            (hSame.trans (awaitEstablished_sameSockets hAwait))
      · next hForeign =>
          cases hRest
          exact .foreign rfl (by simpa using hForeign)
  | bind hNe _ hBind =>
      unfold nbpBind at hBind
      rcases bind_eq_ok_iff.mp hBind with ⟨_, hCheck, hRest⟩
      split at hRest
      · next hOwned =>
          rcases bind_eq_ok_iff.mp hRest with
            ⟨s₁, hEstablish, hStep⟩
          rcases establishFd_sameSockets hEstablish with
            ⟨hNull, hSame⟩
          exact .bind hNe (checkFd_ok_iff.mp hCheck) hOwned
            hNull (hSame.trans (mainLoopStep_sameSockets hStep))
      · next hForeign =>
          cases hRest
          exact .foreign rfl (by simpa using hForeign)
  | accept _ _ hAccept =>
      unfold nbpAccept at hAccept
      rcases bind_eq_ok_iff.mp hAccept with ⟨_, -, hRest⟩
      split at hRest
      · rcases bind_eq_ok_iff.mp hRest with
          ⟨s₁, hAwait, hRest⟩
        rcases bind_eq_ok_iff.mp hRest with
          ⟨s₂, hFd, hRest⟩
        rcases bind_eq_ok_iff.mp hRest with
          ⟨s₃, hStep, hRest⟩
        rcases bind_eq_ok_iff.mp hRest with ⟨conn, -, hEnd⟩
        cases hEnd
        have hAwaited := awaitAccept_sameSockets hAwait
        rcases acceptFd_sameSockets hFd with
          ⟨hLt, hFree, accepted, hSame⟩
        rw [hAwaited.nbFd] at hFree
        exact .accept hLt hFree
          (((hAwaited.accepts _ accepted).trans hSame).trans
            (mainLoopStep_sameSockets hStep))
      · next hForeign =>
          cases hRest
          exact .foreign rfl (by simpa using hForeign)
  | close hClose =>
      unfold nbpClose at hClose
      rcases bind_eq_ok_iff.mp hClose with ⟨_, hCheck, hRest⟩
      split at hRest
      · next hOwned =>
          rcases bind_eq_ok_iff.mp hRest with ⟨e, -, hEnd⟩
          cases hEnd
          exact .close (checkFd_ok_iff.mp hCheck) hOwned
            ⟨rfl, rfl, rfl, rfl, rfl⟩
      · next hForeign =>
          cases hRest
          exact .foreign rfl (by simpa using hForeign)
  | select hSelect =>
      exact .select (selectLoop_sameSockets hSelect)
  | step hStep => exact .step (mainLoopStep_sameSockets hStep)

end Effects

end NetBlocks
