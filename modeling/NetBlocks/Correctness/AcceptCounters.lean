import NetBlocks.Posix.Calls
import NetBlocks.Correctness.Announcing

/-
  The counters `nbp_accept` and `nbp_select` look at, over
  whole runs of the POSIX interface: a positive one belongs
  to a listening socket with packets to accept.

  Main declarations:
    * `CountersMatch`
    * `AcceptsCounted` and `KeepsCounters`
    * `CounterInvariant`
    * `countersServe_of_run`
-/

namespace NetBlocks

open Except TransitionSystem

variable {P : Type}

------------------------------------------------------------
-- Counters and Sockets
------------------------------------------------------------

/-
  A positive counter of an fd in use is that of a listening
  socket with packets to accept.
-/
def CountersMatch
    (s : Posix P) : Prop :=
  ∀ fd, s.2.nbFd fd = true → s.2.fdAcceptCounter fd ≠ 0 →
    Listens s.1 (s.2.fdTable fd)

/- The fds in use and the live connections belong together. -/
structure SocketsOwn
    (s : Posix P) : Prop where
  conns : ∀ c, s.1.conns c ≠ none →
    s.2.nbFd (s.2.userData c) = true ∧
      s.2.fdTable (s.2.userData c) = c
  fds : ∀ fd, s.2.nbFd fd = true → s.2.fdTable fd ≠ 0 →
    s.1.conns (s.2.fdTable fd) ≠ none ∧
      s.2.userData (s.2.fdTable fd) = fd

/- What is kept by every call, together with the counters. -/
structure CounterInvariant
    (cfg : Config)
    (s : Posix P) : Prop where
  table : TableKept cfg s.1
  sockets : SocketsOwn s
  counters : CountersMatch s

section Invariant

variable
    {fmt : PacketFormat P}
    {cfg : Config}
    {told : List ConnPtr}
    {e : Endpoint P}
    {s s' : Posix P}

/- Null is the address of no connection. -/
theorem ne_zero_of_live
    (hTable : TableInvariant e)
    {c : ConnPtr}
    (hLive : e.conns c ≠ none) :
    c ≠ 0 :=
  hTable.ne_null c ((hTable.live c).mpr hLive)

/- Each listener that is told counts up its own socket. -/
theorem raiseEvents_counters
    (hRaise : raiseEvents
      (told.map (fun l => (.acceptReady, l))) s = .ok s') :
    ∀ fd, s'.2.fdAcceptCounter fd = s.2.fdAcceptCounter fd ∨
      ∃ l ∈ told, s.2.userData l = fd := by
  induction told generalizing s with
  | nil =>
      cases hRaise
      exact fun fd => Or.inl rfl
  | cons l told ih =>
      rw [List.map_cons, raiseEvents] at hRaise
      rcases bind_eq_ok_iff.mp hRaise with
        ⟨s₁, hCallback, hRest⟩
      rw [posixCallback] at hCallback
      rcases bind_eq_ok_iff.mp hCallback with
        ⟨conn, -, hCheck⟩
      rcases bind_eq_ok_iff.mp hCheck with ⟨_, -, hEnd⟩
      cases hEnd
      intro fd
      by_cases hEq : s.2.userData l = fd
      · exact Or.inr ⟨l, List.mem_cons_self, hEq⟩
      · rcases ih hRest fd with hSame | ⟨l', hMem, hUser⟩
        · left
          rw [hSame]
          exact Function.update_of_ne (Ne.symm hEq) _ _
        · exact Or.inr
            ⟨l', List.mem_cons_of_mem l hMem, hUser⟩

/- A call of the API, by the callbacks made inside it. -/
theorem callApi_counters
    (hEvents : e.events =
      s.1.events ++ told.map (fun l => (.acceptReady, l)))
    (hCall : callApi e s = .ok s') :
    s'.1 = e ∧ SameSockets s.2 s'.2 ∧
      ∀ fd, s'.2.fdAcceptCounter fd =
          s.2.fdAcceptCounter fd ∨
        ∃ l ∈ told, s.2.userData l = fd := by
  rcases callApi_frame hCall with ⟨hEndpoint, hSame⟩
  refine ⟨hEndpoint, hSame, ?_⟩
  rw [callApi, hEvents, List.drop_left] at hCall
  let received : Posix P := (e, s.2)
  exact raiseEvents_counters (s := received) hCall

theorem SocketsOwn.of_same
    (hOwn : SocketsOwn s)
    (hLive : ∀ c, s'.1.conns c = none ↔ s.1.conns c = none)
    (hSame : SameSockets s.2 s'.2) :
    SocketsOwn s' := by
  refine ⟨?_, ?_⟩
  · intro c hNe
    rw [hSame.nbFd, hSame.userData, hSame.fdTable]
    exact hOwn.conns c (fun hNone => hNe ((hLive c).mpr hNone))
  · intro fd hOwned hNe
    rw [hSame.fdTable] at hNe ⊢
    rw [hSame.nbFd] at hOwned
    rw [hSame.userData]
    rcases hOwn.fds fd hOwned hNe with ⟨hConn, hUser⟩
    exact ⟨fun hNone => hConn ((hLive _).mp hNone), hUser⟩

/-
  The invariant is kept if entries are only put into queues,
  and only counters of listeners that are told go up.
-/
theorem CounterInvariant.receives
    (hInv : CounterInvariant cfg s)
    (hKept : TableKept cfg s'.1)
    (hTells : Tells noEntry told s.1 s'.1)
    (hSame : SameSockets s.2 s'.2)
    (hCounters : ∀ fd, s'.2.fdAcceptCounter fd =
        s.2.fdAcceptCounter fd ∨
      ∃ l ∈ told, s.2.userData l = fd) :
    CounterInvariant cfg s' := by
  refine ⟨hKept, hInv.sockets.of_same hTells.live hSame, ?_⟩
  intro fd hOwned hPositive
  rw [hSame.nbFd] at hOwned
  rw [hSame.fdTable]
  rcases hCounters fd with hEq | ⟨l, hl, rfl⟩
  · rw [hEq] at hPositive
    exact hTells.listens (hInv.counters fd hOwned hPositive)
      (fun _ => id)
  · rw [(hInv.sockets.conns l (hTells.found l hl)).2]
    exact hTells.ready l hl (fun _ => id)

end Invariant

------------------------------------------------------------
-- Steps of the Main Loop
------------------------------------------------------------

section MainLoop

variable
    {fmt : PacketFormat P}
    {cfg : Config}
    {e e' : Endpoint P}
    {s s' : Posix P}

theorem Calls.tableKept
    {call : Call P}
    (hKept : TableKept cfg e)
    (hGuard : KeepsTable cfg e call)
    (hCall : Calls fmt cfg e call e') :
    TableKept cfg e' := by
  have hApi : ApiCalls fmt cfg e (.call call) e' := .call hCall
  have hOn : OnCalls (KeepsTable cfg) e (.call call) := hGuard
  exact hApi.tableKept hKept hOn

/- Neither the connections nor the table were assigned. -/
theorem TableKept.of_conns_eq
    (hKept : TableKept cfg e)
    (hConns : e'.conns = e.conns)
    (hNetState : e'.netState = e.netState)
    (hHost : e'.myLocalHostId = e.myLocalHostId)
    (hNext : e'.nextPacket = e.nextPacket) :
    TableKept cfg e' := by
  have hSame : SameTable e e' :=
    .of_conns_eq hConns hNetState hHost
  refine ⟨hSame.tableInvariant hKept.table,
    hSame.agrees hKept.agrees, ?_⟩
  rw [QueuedOld, hNext]
  exact hKept.queued.of_conns_eq hConns

theorem pollStep_invariant
    {packet : Option (P × Int)}
    (hInv : CounterInvariant cfg s)
    (hPoll : pollStep fmt cfg packet s = .ok s') :
    CounterInvariant cfg s' := by
  cases packet with
  | none =>
      cases hPoll
      exact hInv
  | some received =>
      rcases received with ⟨x, len⟩
      rcases bind_eq_ok_iff.mp hPoll with
        ⟨e, hIngress, hCall⟩
      have hCalls : Calls fmt cfg s.1 (.ingress x len) e :=
        .ingress hIngress
      have hPolled : Agrees cfg (s.1.polled x) :=
        hInv.table.agrees
      rcases (ingress_iff.mp hIngress).tells hPolled with
        ⟨told, hTells, -⟩
      have hTells' : Tells noEntry told s.1 e :=
        ⟨hTells.events, hTells.live, hTells.kept,
          hTells.found, hTells.ready⟩
      rcases callApi_counters hTells.events hCall with
        ⟨rfl, hSame, hCounters⟩
      exact hInv.receives
        (hCalls.tableKept hInv.table
          ⟨by trivial, by trivial⟩)
        hTells' hSame hCounters

theorem posixCallback_counters
    {event : QueueEvent}
    {c : ConnPtr}
    (hEvent : event ≠ .acceptReady)
    (hCallback : posixCallback event c s = .ok s') :
    s'.2.fdAcceptCounter = s.2.fdAcceptCounter := by
  cases event with
  | acceptReady => exact absurd rfl hEvent
  | readReady =>
      cases hCallback
      rfl
  | established =>
      rw [posixCallback] at hCallback
      rcases bind_eq_ok_iff.mp hCallback with
        ⟨conn, -, hRest⟩
      rcases bind_eq_ok_iff.mp hRest with ⟨_, -, hEnd⟩
      cases hEnd
      rfl

theorem cycleConnections_counterInvariant
    (hInv : CounterInvariant cfg s)
    (hCycle : cycleConnections posixCallback s = .ok s') :
    CounterInvariant cfg s' := by
  refine cycleConnections_invariant ?_ ?_ hInv hCycle
  · intro event c s₁ s₂ hEvent hInv₁ hNotify
    rcases posixCallback_frame hNotify with
      ⟨hEndpoint, hSame⟩
    have hCounter := posixCallback_counters hEvent hNotify
    have hConns : s₂.1.conns = s₁.1.conns := by
      rw [hEndpoint]
    have hNetState : s₂.1.netState = s₁.1.netState := by
      rw [hEndpoint]
    let told : Posix P := (s₁.1, s₂.2)
    have hTold : CounterInvariant cfg told :=
      hInv₁.receives hInv₁.table (.of_conns_eq rfl rfl) hSame
        (fun fd => Or.inl (by rw [hCounter]))
    refine ⟨hInv₁.table.of_conns_eq hConns hNetState
      (by rw [hEndpoint]) (by rw [hEndpoint]), ?_, ?_⟩
    · exact hTold.sockets.of_same (fun c => by rw [hConns])
        (.refl _)
    · intro fd hOwned hPositive
      rcases hTold.counters fd hOwned hPositive with
        ⟨conn, hConn, hRest⟩
      exact ⟨conn, by rw [hConns]; exact hConn, hRest⟩
  · intro c conn s₁ hInv₁ hConn
    let conn' : Connection :=
      { conn with signalingState := .signalHandled }
    have hSame : SameTable s₁.1 (s₁.1.setConn c conn') :=
      .setConn hConn rfl
    have hKept : TableKept cfg (s₁.1.setConn c conn') :=
      ⟨hSame.tableInvariant hInv₁.table.table,
        hSame.agrees hInv₁.table.agrees,
        hInv₁.table.queued.assign hConn rfl
          (fun _ hx => hx)⟩
    have hTells : Tells noEntry [] s₁.1
        (s₁.1.setConn c conn') :=
      .of_assign hConn rfl rfl id (fun _ hx _ => hx)
    exact hInv₁.receives hKept hTells (.refl _)
      (fun fd => Or.inl rfl)

/- A step of the main loop keeps the invariant. -/
theorem mainLoopStep_counterInvariant
    (input : StepInput P)
    (s s' : Posix P)
    (hInv : CounterInvariant cfg s)
    (hStep : mainLoopStep fmt cfg input s = .ok s') :
    CounterInvariant cfg s' := by
  unfold mainLoopStep at hStep
  rcases bind_eq_ok_iff.mp hStep with ⟨s₁, hPoll, hRest⟩
  rcases bind_eq_ok_iff.mp hRest with ⟨s₂, hCycle, hRest⟩
  rcases bind_eq_ok_iff.mp hRest with ⟨e, hTimers, hEnd⟩
  cases hEnd
  have hTick : CounterInvariant cfg (tick input.now s.1, s.2) :=
    hInv.receives
      (hInv.table.of_conns_eq rfl rfl rfl rfl)
      (.of_conns_eq rfl rfl) (.refl _) (fun fd => Or.inl rfl)
  have hCycled := cycleConnections_counterInvariant
    (pollStep_invariant hTick hPoll) hCycle
  have hCalls : Calls fmt cfg s₂.1 .checkTimers e :=
    .checkTimers hTimers
  rcases checkTimersLoop_frame hTimers with
    ⟨timers, out, hEq⟩
  have hTells : Tells noEntry [] s₂.1 e :=
    .of_conns_eq (by rw [hEq]) (by rw [hEq])
  exact hCycled.receives
    (hCalls.tableKept hCycled.table ⟨by trivial, by trivial⟩)
    hTells (.refl _) (fun fd => Or.inl rfl)

end MainLoop

------------------------------------------------------------
-- Opening and Closing Sockets
------------------------------------------------------------

section Sockets

variable
    {fmt : PacketFormat P}
    {cfg : Config}
    {c : ConnPtr}
    {fd : Nat}
    {s s' : Posix P}

/- A new socket has no connection, and its counter is reset. -/
theorem nbpSocket_counterInvariant
    (hInv : CounterInvariant cfg s)
    (hSocket : nbpSocket fd s = .ok s') :
    CounterInvariant cfg s' := by
  unfold nbpSocket at hSocket
  rcases bind_eq_ok_iff.mp hSocket with ⟨t, hGrab, hEnd⟩
  rcases grabFreeFd_ok_iff.mp hGrab with ⟨-, hUnused, rfl⟩
  cases hEnd
  refine ⟨hInv.table, ⟨?_, ?_⟩, ?_⟩
  · intro d hLive
    rcases hInv.sockets.conns d hLive with ⟨hOwned, hEq⟩
    have hNe : s.2.userData d ≠ fd := by
      rintro rfl
      rw [hUnused] at hOwned
      cases hOwned
    exact ⟨(Function.update_of_ne hNe _ _).trans hOwned,
      (Function.update_of_ne hNe _ _).trans hEq⟩
  · intro fd' hOwned hNe
    dsimp only at hOwned hNe ⊢
    by_cases hEq : fd' = fd
    · rw [hEq, Function.update_self] at hNe
      exact absurd rfl hNe
    · rw [Function.update_of_ne hEq] at hOwned hNe ⊢
      exact hInv.sockets.fds fd' hOwned hNe
  · intro fd' hOwned hPositive
    dsimp only at hOwned hPositive ⊢
    by_cases hEq : fd' = fd
    · rw [hEq, Function.update_self] at hPositive
      exact absurd rfl hPositive
    · rw [Function.update_of_ne hEq]
        at hOwned hPositive ⊢
      exact hInv.counters fd' hOwned hPositive

/- A connection that is established is given to its socket. -/
theorem establishFd_counterInvariant
    {fresh : Connection}
    {h a sa : BitVec 32}
    (hInv : CounterInvariant cfg s)
    (hNull : c ≠ 0)
    (hFree : s.1.conns c = none)
    (hOwned : s.2.nbFd fd = true)
    (hEstablish : establishFd fmt cfg fd c fresh h a sa s =
      .ok s') :
    CounterInvariant cfg s' := by
  rcases establishFd_ok_iff.mp hEstablish with
    ⟨hEmpty, e, s₁, hNb, hCall, hSet⟩
  have hEvents : e.events = s.1.events :=
    (nbEstablish_frame hNb).2.2.2.1
  have hQuiet : callApi e s = .ok (e, s.2) := by
    rw [callApi, hEvents, List.drop_length]
    rfl
  cases hQuiet.symm.trans hCall
  rcases setUserData_ok_iff.mp hSet with ⟨-, rfl⟩
  have hCalls : Calls fmt cfg s.1 (.establish c fresh h a sa)
      e := .establish hNull hFree hNb
  have hConns := nbEstablish_conns hNb
  have hOther : ∀ d, s.1.conns d ≠ none → d ≠ c := by
    rintro d hLive rfl
    exact hLive hFree
  refine ⟨hCalls.tableKept hInv.table
    ⟨by trivial, by trivial⟩, ⟨?_, ?_⟩, ?_⟩
  · intro d hLive
    dsimp only at hLive ⊢
    by_cases hEq : d = c
    · rw [hEq, Function.update_self, Function.update_self]
      exact ⟨hOwned, rfl⟩
    · rw [hConns, Function.update_of_ne hEq] at hLive
      rw [Function.update_of_ne hEq]
      rcases hInv.sockets.conns d hLive with ⟨hFd, hTable⟩
      refine ⟨hFd, ?_⟩
      have hNe : s.2.userData d ≠ fd := by
        intro hUser
        rw [hUser, hEmpty] at hTable
        exact ne_zero_of_live hInv.table.table hLive
          hTable.symm
      rw [Function.update_of_ne hNe]
      exact hTable
  · intro fd' hFd hNe
    dsimp only at hFd hNe ⊢
    by_cases hEq : fd' = fd
    · rw [hEq, Function.update_self, Function.update_self,
        hConns, Function.update_self]
      exact ⟨Option.some_ne_none _, rfl⟩
    · rw [Function.update_of_ne hEq] at hNe ⊢
      rcases hInv.sockets.fds fd' hFd hNe with
        ⟨hLive, hUser⟩
      have hNew := hOther _ hLive
      rw [hConns, Function.update_of_ne hNew,
        Function.update_of_ne hNew]
      exact ⟨hLive, hUser⟩
  · intro fd' hFd hPositive
    dsimp only at hFd hPositive ⊢
    rcases hInv.counters fd' hFd hPositive with
      ⟨conn, hConn, hRest⟩
    have hLive : s.1.conns (s.2.fdTable fd') ≠ none := by
      rw [hConn]
      exact Option.some_ne_none _
    have hEq : fd' ≠ fd := by
      rintro rfl
      exact ne_zero_of_live hInv.table.table hLive hEmpty
    rw [Function.update_of_ne hEq]
    refine ⟨conn, ?_, hRest⟩
    rw [hConns, Function.update_of_ne (hOther _ hLive), hConn]

/- The connection of a socket that is closed is freed. -/
theorem nbpClose_counterInvariant
    (fmt : PacketFormat P)
    (hInv : CounterInvariant cfg s)
    (hOwned : s.2.nbFd fd = true)
    (hKeeps : KeepsTable cfg s.1
      (.destablish (s.2.fdTable fd)))
    (hClose : nbpClose cfg fd s = .ok s') :
    CounterInvariant cfg s' := by
  unfold nbpClose at hClose
  rcases bind_eq_ok_iff.mp hClose with ⟨_, -, hRest⟩
  rw [if_pos hOwned] at hRest
  rcases bind_eq_ok_iff.mp hRest with ⟨e, hNb, hEnd⟩
  cases hEnd
  have hCalls : Calls fmt cfg s.1
      (.destablish (s.2.fdTable fd)) e := .destablish hNb
  rcases nbDestablish_ok_iff.mp hNb with ⟨conn, hConn, hEq⟩
  have hConns : e.conns =
      Function.update s.1.conns (s.2.fdTable fd) none := by
    rw [hEq]
  have hLive : s.1.conns (s.2.fdTable fd) ≠ none := by
    rw [hConn]
    exact Option.some_ne_none conn
  have hUser := (hInv.sockets.fds fd hOwned
    (ne_zero_of_live hInv.table.table hLive)).2
  -- no other socket has this connection
  have hOther : ∀ fd', fd' ≠ fd → s.2.nbFd fd' = true →
      s.2.fdTable fd' ≠ 0 →
      s.2.fdTable fd' ≠ s.2.fdTable fd := by
    intro fd' hNe hFd hNull hSame
    have hUser' := (hInv.sockets.fds fd' hFd hNull).2
    rw [hSame, hUser] at hUser'
    exact hNe hUser'.symm
  refine ⟨hCalls.tableKept hInv.table hKeeps, ⟨?_, ?_⟩, ?_⟩
  · intro d hLive'
    have hNe : d ≠ s.2.fdTable fd := by
      rintro rfl
      exact hLive' (by rw [hConns, Function.update_self])
    rw [hConns, Function.update_of_ne hNe] at hLive'
    rcases hInv.sockets.conns d hLive' with ⟨hFd, hTable⟩
    have hNe' : s.2.userData d ≠ fd := by
      intro hUser'
      rw [hUser'] at hTable
      exact hNe hTable.symm
    exact ⟨(Function.update_of_ne hNe' _ _).trans hFd,
      (Function.update_of_ne hNe' _ _).trans hTable⟩
  · intro fd' hFd hNull
    dsimp only at hFd hNull ⊢
    by_cases hEq : fd' = fd
    · rw [hEq, Function.update_self] at hNull
      exact absurd rfl hNull
    · rw [Function.update_of_ne hEq] at hFd hNull ⊢
      rw [hConns, Function.update_of_ne
        (hOther fd' hEq hFd hNull)]
      exact hInv.sockets.fds fd' hFd hNull
  · intro fd' hFd hPositive
    dsimp only at hFd hPositive ⊢
    by_cases hEq : fd' = fd
    · rw [hEq, Function.update_self] at hFd
      cases hFd
    · rw [Function.update_of_ne hEq] at hFd ⊢
      rcases hInv.counters fd' hFd hPositive with
        ⟨conn', hConn', hRest⟩
      have hLive' : s.1.conns (s.2.fdTable fd') ≠ none := by
        rw [hConn']
        exact Option.some_ne_none conn'
      refine ⟨conn', ?_, hRest⟩
      rw [hConns, Function.update_of_ne (hOther fd' hEq hFd
        (ne_zero_of_live hInv.table.table hLive')), hConn']

end Sockets

------------------------------------------------------------
-- Accepting on a Socket
------------------------------------------------------------

/-
  When `nbp_accept` takes an entry: what it counts down is
  what it takes, or there are packets of other peers left.
  The new fd, which no `nbp_socket` reset, is not counted for.
-/
def AcceptsCounted
    (fmt : PacketFormat P)
    (cfg : Config)
    (fd newFd : Nat)
    (c : ConnPtr)
    (s : Posix P) : Prop :=
  s.2.fdAcceptCounter newFd = 0 ∧
    ∀ conn, s.1.conns (s.2.fdTable fd) = some conn →
      ofOthers conn.acceptQueue ≠ [] ∨
        s.2.fdAcceptCounter fd = 1 ∧
          ∃ entry, conn.acceptQueue = [entry] ∧
            ¬ ParkedAgain fmt cfg (s.2.fdTable fd) c conn
              entry s.1

section Accepting

variable
    {fmt : PacketFormat P}
    {cfg : Config}
    {c : ConnPtr}
    {fd newFd : Nat}
    {fresh : Connection}
    {fuel : Nat}
    {s s' : Posix P}

/-
  What `nb__accept` and its callbacks do to the sockets, in
  which `c` is still unknown.
-/
structure SocketAccepts
    (cfg : Config)
    (fd newFd : Nat)
    (c : ConnPtr)
    (s s' : Posix P) : Prop where
  table : TableKept cfg s'.1
  live : ∀ d, s'.1.conns d ≠ none ↔
    d = c ∨ s.1.conns d ≠ none
  sockets : SameSockets (s.2.accepts newFd c) s'.2
  others : ∀ fd', s.2.nbFd fd' = true → fd' ≠ fd →
    s'.2.fdAcceptCounter fd' ≠ 0 →
      Listens s'.1 (s.2.fdTable fd')
  own : s'.2.fdAcceptCounter fd ≠ 0 →
    Listens s'.1 (s.2.fdTable fd)
  fresh : s'.2.fdAcceptCounter newFd = 0

/- The part of `nbp_accept` behind its loop. -/
theorem acceptFd_socketAccepts
    (hInv : CounterInvariant cfg s)
    (hOwned : s.2.nbFd fd = true)
    (hPositive : s.2.fdAcceptCounter fd ≠ 0)
    (hNull : c ≠ 0)
    (hFree : s.1.conns c = none)
    (hCounted : AcceptsCounted fmt cfg fd newFd c s)
    (hAccept : acceptFd fmt cfg fd newFd c fresh fuel s =
      .ok s') :
    s.2.nbFd newFd = false ∧
      SocketAccepts cfg fd newFd c s s' := by
  rcases acceptFd_ok_iff.mp hAccept with
    ⟨-, hUnused, accepted, e, s₁, hNb, hCall, hSet⟩
  refine ⟨hUnused, ?_⟩
  rcases hInv.counters fd hOwned hPositive with
    ⟨conn, hConn, hListener, hQueue⟩
  rcases Option.ne_none_iff_exists'.mp
      (fun hNone => hQueue (List.getLast?_eq_none_iff.mp
        hNone)) with ⟨entry, hLast⟩
  rcases nbAccept_tells hInv.table hConn hListener hLast hNull
      hFree hNb with
    ⟨rfl, told, hTells, hNew, hSingle⟩
  have hCalls : ApiCalls fmt cfg s.1
      (.accept (s.2.fdTable fd) accepted fresh) e :=
    .accept hNull hFree hNb
  have hOn : OnCalls (KeepsTable cfg) s.1
      (.accept (s.2.fdTable fd) accepted fresh : ApiCall P) :=
    trivial
  have hKept := hCalls.tableKept hInv.table hOn
  let opened := s.1.setConn accepted
    (acceptedConn cfg fresh conn entry s.1)
  have hAway : ∀ d, d ≠ accepted →
      opened.conns d = s.1.conns d :=
    fun d hNe => Endpoint.setConn_conns_of_ne _ _ hNe
  have hOld : ∀ d, s.1.conns d ≠ none → d ≠ accepted := by
    rintro d hLive rfl
    exact hLive hFree
  have hFound : ∀ l ∈ told, s.1.conns l ≠ none := by
    intro l hl
    rw [← hAway l (hNew l hl)]
    exact hTells.found l hl
  -- the callbacks made inside the call
  let grabbed : Posix P := (s.1, { s.2 with
    nbFd := Function.update s.2.nbFd newFd true })
  have hEvents : e.events = grabbed.1.events ++
      told.map (fun l => (.acceptReady, l)) := hTells.events
  rcases callApi_counters hEvents hCall with
    ⟨rfl, hSame, hCounters⟩
  rcases setUserData_ok_iff.mp hSet with ⟨-, rfl⟩
  have hDistinct : newFd ≠ fd := by
    rintro rfl
    rw [hUnused] at hOwned
    cases hOwned
  have hOwner : ∀ fd', s.2.nbFd fd' = true → ∀ l ∈ told,
      s.2.userData l = fd' → s.2.fdTable fd' = l := by
    rintro fd' - l hl rfl
    exact (hInv.sockets.conns l (hFound l hl)).2
  refine ⟨hKept, ?_, ?_, ?_, ?_, ?_⟩
  · intro d
    rw [Ne, hTells.live d]
    by_cases hEq : d = accepted
    · rw [hEq]
      simp [Endpoint.setConn_conns_self]
    · rw [Endpoint.setConn_conns_of_ne _ _ hEq]
      simp [hEq]
  · exact ⟨by
      change Function.update s₁.2.fdTable newFd accepted = _
      rw [hSame.fdTable]
      rfl, hSame.nbFd, hSame.portOccupied, hSame.fdSrcPort, by
      change Function.update s₁.2.userData accepted newFd = _
      rw [hSame.userData]
      rfl⟩
  · intro fd' hFd hNe hCount
    have hCount' : s₁.2.fdAcceptCounter fd' ≠ 0 := by
      change Function.update s₁.2.fdAcceptCounter fd _ fd' ≠ 0
        at hCount
      rw [Function.update_of_ne hNe] at hCount
      exact hCount
    have hTaken : ∀ d, s.2.fdTable fd' = d →
        s.1.conns d ≠ none → ∀ x, ¬ entriesOf
          (s.2.fdTable fd) entry.srcAppId entry.srcHostId d
            x := by
      rintro d rfl hLive x ⟨hEq, -⟩
      have hNull' := ne_zero_of_live hInv.table.table hLive
      have hUser := (hInv.sockets.fds fd' hFd hNull').2
      rw [hEq] at hNull' hUser
      rw [(hInv.sockets.fds fd hOwned hNull').2] at hUser
      exact hNe hUser.symm
    rcases hCounters fd' with hEq | ⟨l, hl, hUser⟩
    · rw [hEq] at hCount'
      rcases hInv.counters fd' hFd hCount' with
        ⟨conn', hConn', hRest⟩
      have hLive : s.1.conns (s.2.fdTable fd') ≠ none := by
        rw [hConn']
        exact Option.some_ne_none conn'
      refine hTells.listens ⟨conn', ?_, hRest⟩
        (hTaken _ rfl hLive)
      rw [← hConn']
      exact hAway _ (hOld _ hLive)
    · have hTable := hOwner fd' hFd l hl hUser
      rw [hTable]
      exact hTells.ready l hl
        (hTaken l hTable (hFound l hl))
  · intro hCount
    have hLive : s.1.conns (s.2.fdTable fd) ≠ none := by
      rw [hConn]
      exact Option.some_ne_none conn
    rcases hCounted.2 conn hConn with
      hOthers | ⟨hOne, entry', hEntry, hNot⟩
    · -- an entry of another peer is still there
      rw [ofOthers, hLast] at hOthers
      rcases List.exists_mem_of_ne_nil _ hOthers with ⟨x, hx⟩
      rw [List.mem_filter] at hx
      have hConn' : opened.conns (s.2.fdTable fd) =
          some conn := by
        rw [hAway _ (hOld _ hLive), hConn]
      rcases hTells.kept _ conn hConn' with
        ⟨conn', hThere, hListener', hEntries⟩
      have hStays := hEntries x hx.1 (fun hTaken => by
        have hPeer := hx.2
        rw [hTaken.2] at hPeer
        cases hPeer)
      exact ⟨conn', hThere, hListener' hListener,
        List.ne_nil_of_mem hStays⟩
    · -- the only packet was counted, and no other one is
      have hSame' : entry' = entry := by
        rw [hEntry] at hLast
        exact Option.some.inj hLast
      subst hSame'
      have hKeptOne : s₁.2.fdAcceptCounter fd = 1 := by
        rcases hCounters fd with hEq | ⟨l, hl, hUser⟩
        · exact hEq.trans hOne
        · exact absurd (hOwner fd hOwned l hl hUser).symm
            (hSingle hEntry hNot l hl)
      change Function.update s₁.2.fdAcceptCounter fd _ fd ≠ 0
        at hCount
      rw [Function.update_self, hKeptOne] at hCount
      exact absurd rfl hCount
  · change Function.update s₁.2.fdAcceptCounter fd _ newFd = 0
    rw [Function.update_of_ne hDistinct]
    rcases hCounters newFd with hEq | ⟨l, hl, hUser⟩
    · exact hEq.trans hCounted.1
    · have hFd := (hInv.sockets.conns l (hFound l hl)).1
      rw [show s.2.userData l = newFd from hUser, hUnused]
        at hFd
      cases hFd

/- The new connection is given to the new fd. -/
theorem SocketAccepts.counterInvariant
    (hInv : CounterInvariant cfg s)
    (hNull : c ≠ 0)
    (hFree : s.1.conns c = none)
    (hUnused : s.2.nbFd newFd = false)
    (hAccepts : SocketAccepts cfg fd newFd c s s') :
    CounterInvariant cfg s' := by
  have hOld : ∀ d, s.1.conns d ≠ none → d ≠ c := by
    rintro d hLive rfl
    exact hLive hFree
  have hUsed : ∀ fd', s.2.nbFd fd' = true → fd' ≠ newFd := by
    rintro fd' hFd rfl
    rw [hUnused] at hFd
    cases hFd
  refine ⟨hAccepts.table, ⟨?_, ?_⟩, ?_⟩
  · intro d hLive
    rw [hAccepts.sockets.nbFd, hAccepts.sockets.userData,
      hAccepts.sockets.fdTable]
    simp only [FdTables.accepts]
    rcases (hAccepts.live d).mp hLive with rfl | hLive'
    · simp
    · rw [Function.update_of_ne (hOld d hLive')]
      rcases hInv.sockets.conns d hLive' with ⟨hFd, hTable⟩
      rw [Function.update_of_ne (hUsed _ hFd),
        Function.update_of_ne (hUsed _ hFd)]
      exact ⟨hFd, hTable⟩
  · intro fd' hFd hNe
    rw [hAccepts.sockets.nbFd] at hFd
    rw [hAccepts.sockets.fdTable] at hNe ⊢
    rw [hAccepts.sockets.userData]
    simp only [FdTables.accepts] at hFd hNe ⊢
    by_cases hEq : fd' = newFd
    · rw [hEq, Function.update_self, Function.update_self]
      exact ⟨(hAccepts.live c).mpr (Or.inl rfl), rfl⟩
    · rw [Function.update_of_ne hEq] at hFd hNe ⊢
      rcases hInv.sockets.fds fd' hFd hNe with
        ⟨hLive, hUser⟩
      rw [Function.update_of_ne (hOld _ hLive)]
      exact ⟨(hAccepts.live _).mpr (Or.inr hLive), hUser⟩
  · intro fd' hFd hPositive
    rw [hAccepts.sockets.nbFd] at hFd
    rw [hAccepts.sockets.fdTable]
    simp only [FdTables.accepts] at hFd ⊢
    by_cases hEq : fd' = newFd
    · rw [hEq, hAccepts.fresh] at hPositive
      exact absurd rfl hPositive
    · rw [Function.update_of_ne hEq] at hFd ⊢
      by_cases hOwn : fd' = fd
      · subst hOwn
        exact hAccepts.own hPositive
      · exact hAccepts.others fd' hFd hOwn hPositive

end Accepting

------------------------------------------------------------
-- Runs
------------------------------------------------------------

/-
  The calls after which counters can be relied on:
  `nbp_accept` takes what is counted, and `nbp_close` deletes
  the entry of its own connection from the table.
-/
def KeepsCounters
    (fmt : PacketFormat P)
    (cfg : Config)
    (s : Posix P) : PosixCall P → Prop
| .accept fd newFd c _ inputs _ =>
    s.2.nbFd fd = true →
      ∀ s₁, awaitAccept fmt cfg fd inputs s = .ok s₁ →
        AcceptsCounted fmt cfg fd newFd c s₁
| .close fd =>
    s.2.nbFd fd = true →
      KeepsTable cfg s.1 (.destablish (s.2.fdTable fd))
| _ => True

section Runs

variable
    {fmt : PacketFormat P}
    {cfg : Config}
    {e : Endpoint P}
    {fresh : NetState}
    {s s' : Posix P}

theorem counterInvariant_netInit
    (hConns : ∀ c, e.conns c = none) :
    CounterInvariant cfg (nbNetInit fresh e, .zero) where
  table := tableKept_netInit fresh hConns
  sockets := by
    refine ⟨fun c hLive => absurd (hConns c) hLive, ?_⟩
    intro fd hOwned
    cases hOwned
  counters := by
    intro fd hOwned
    cases hOwned

/- The live connections are known from the sockets. -/
theorem SocketsOwn.live_of_same
    {c : ConnPtr}
    (hOwn : SocketsOwn s)
    (hOwn' : SocketsOwn s')
    (hSame : SameSockets s.2 s'.2)
    (hNull : c ≠ 0)
    (hLive : s'.1.conns c ≠ none) :
    s.1.conns c ≠ none := by
  rcases hOwn'.conns c hLive with ⟨hFd, hTable⟩
  rw [hSame.nbFd] at hFd
  rw [hSame.fdTable] at hTable
  have hThere := hOwn.fds _ hFd (by rw [hTable]; exact hNull)
  rw [hTable] at hThere
  exact hThere.1

/- The state in which the wait for a packet ends. -/
theorem waits_counterInvariant
    {c : ConnPtr}
    {fd : Nat}
    {inputs : List (StepInput P)}
    (hInv : CounterInvariant cfg s)
    (hNull : c ≠ 0)
    (hFree : s.1.conns c = none)
    (hAwait : awaitAccept fmt cfg fd inputs s = .ok s') :
    CounterInvariant cfg s' ∧ s'.2.fdAcceptCounter fd ≠ 0 ∧
      s'.1.conns c = none ∧ SameSockets s.2 s'.2 := by
  rcases awaitAccept_invariant mainLoopStep_counterInvariant
    hInv hAwait with ⟨hInv', hPositive⟩
  have hSame := awaitAccept_sameSockets hAwait
  refine ⟨hInv', hPositive, ?_, hSame⟩
  by_contra hLive
  exact hInv.sockets.live_of_same hInv'.sockets hSame hNull
    hLive hFree

/- What one call preserves. -/
theorem PosixCalls.counterInvariant
    {call : PosixCall P}
    (hInv : CounterInvariant cfg s)
    (hKeeps : KeepsCounters fmt cfg s call)
    (hCall : PosixCalls fmt cfg s call s') :
    CounterInvariant cfg s' := by
  cases hCall with
  | socket hSocket =>
      exact nbpSocket_counterInvariant hInv hSocket
  | connect hNull hFree hConnect =>
      unfold nbpConnect at hConnect
      rcases bind_eq_ok_iff.mp hConnect with ⟨_, -, hRest⟩
      split at hRest
      · next hOwned =>
          rcases bind_eq_ok_iff.mp hRest with
            ⟨⟨port, portOccupied⟩, -, hRest⟩
          rcases bind_eq_ok_iff.mp hRest with
            ⟨s₁, hEstablish, hAwait⟩
          have hInv₀ : CounterInvariant cfg
              (s.1, { s.2 with portOccupied }) :=
            ⟨hInv.table, ⟨hInv.sockets.conns,
              hInv.sockets.fds⟩, hInv.counters⟩
          exact awaitEstablished_invariant
            mainLoopStep_counterInvariant
            (establishFd_counterInvariant hInv₀ hNull hFree
              hOwned hEstablish) hAwait
      · cases hRest
        exact hInv
  | bind hNull hFree hBind =>
      unfold nbpBind at hBind
      rcases bind_eq_ok_iff.mp hBind with ⟨_, -, hRest⟩
      split at hRest
      · next hOwned =>
          rcases bind_eq_ok_iff.mp hRest with
            ⟨s₁, hEstablish, hStep⟩
          exact mainLoopStep_counterInvariant _ _ _
            (establishFd_counterInvariant hInv hNull hFree
              hOwned hEstablish) hStep
      · cases hRest
        exact hInv
  | accept hNull hFree hAccept =>
      unfold nbpAccept at hAccept
      rcases bind_eq_ok_iff.mp hAccept with ⟨_, -, hRest⟩
      split at hRest
      · next hOwned =>
          rcases bind_eq_ok_iff.mp hRest with
            ⟨s₁, hAwait, hRest⟩
          rcases bind_eq_ok_iff.mp hRest with
            ⟨s₂, hFd, hRest⟩
          rcases bind_eq_ok_iff.mp hRest with
            ⟨s₃, hStep, hRest⟩
          rcases bind_eq_ok_iff.mp hRest with ⟨_, -, hEnd⟩
          cases hEnd
          rcases waits_counterInvariant hInv hNull hFree
              hAwait with ⟨hInv₁, hPositive, hFree₁, hSame⟩
          rcases acceptFd_socketAccepts hInv₁
              (by rw [hSame.nbFd]; exact hOwned) hPositive
              hNull hFree₁ (hKeeps hOwned s₁ hAwait) hFd with
            ⟨hUnused, hAccepts⟩
          exact mainLoopStep_counterInvariant _ _ _
            (hAccepts.counterInvariant hInv₁ hNull hFree₁
              hUnused) hStep
      · cases hRest
        exact hInv
  | @close _ fd hClose =>
      by_cases hOwned : s.2.nbFd fd = true
      · exact nbpClose_counterInvariant fmt hInv hOwned
          (hKeeps hOwned) hClose
      · unfold nbpClose at hClose
        rcases bind_eq_ok_iff.mp hClose with ⟨_, -, hRest⟩
        rw [if_neg hOwned] at hRest
        cases hRest
        exact hInv
  | select hSelect =>
      exact (selectLoop_invariant
        mainLoopStep_counterInvariant hInv hSelect).1
  | step hStep =>
      exact mainLoopStep_counterInvariant _ _ _ hInv hStep

/- What is reported for accepting was counted. -/
theorem counter_of_findReady
    {fd : Nat}
    {fds : List Nat}
    (hReady : findReady s fds = .ok (some (.accept fd))) :
    fd ∈ fds ∧ s.2.fdAcceptCounter fd ≠ 0 := by
  induction fds with
  | nil => cases hReady
  | cons fd' fds ih =>
      rw [findReady] at hReady
      rcases bind_eq_ok_iff.mp hReady with ⟨_, -, hRest⟩
      split at hRest
      · next hPositive =>
          cases hRest
          exact ⟨List.mem_cons_self, hPositive⟩
      · rcases bind_eq_ok_iff.mp hRest with
          ⟨conn, -, hRest⟩
        split at hRest
        · cases hRest
        · rcases ih hRest with ⟨hMem, hPositive⟩
          exact ⟨List.mem_cons_of_mem fd' hMem, hPositive⟩

/-
  The counters can be relied on: `nbp_accept` finds a packet
  once its wait is over, and `nbp_select` reports none but
  listening sockets as ready for accepting.
-/
structure CountersServe
    (fmt : PacketFormat P)
    (cfg : Config)
    (s : Posix P) : Prop where
  counters : CountersMatch s
  accepts : ∀ fd inputs s₁ c fresh fuel result e,
    s.2.nbFd fd = true →
    awaitAccept fmt cfg fd inputs s = .ok s₁ →
    c ≠ 0 →
    nbAccept fmt cfg (s₁.2.fdTable fd) c fresh fuel s₁.1 =
      .ok (result, e) →
    result ≠ 0
  selects : ∀ fds input fd s₁,
    (∀ fd ∈ fds, s.2.nbFd fd = true) →
    nbpSelect fmt cfg fds input s =
      .ok (some (.accept fd), s₁) →
    Listens s₁.1 (s₁.2.fdTable fd)

theorem CounterInvariant.countersServe
    (hInv : CounterInvariant cfg s) :
    CountersServe fmt cfg s where
  counters := hInv.counters
  accepts := by
    intro fd inputs s₁ c newConn fuel result e hOwned hAwait
      hNull hAccept
    rcases awaitAccept_invariant mainLoopStep_counterInvariant
      hInv hAwait with ⟨hInv₁, hPositive⟩
    have hSame := awaitAccept_sameSockets hAwait
    rcases hInv₁.counters fd (by rw [hSame.nbFd]; exact hOwned)
      hPositive with ⟨conn, hConn, -, hQueue⟩
    unfold nbAccept at hAccept
    rw [Endpoint.loadConn_of_some hConn, ok_bind] at hAccept
    rcases Option.ne_none_iff_exists'.mp
        (fun hNone => hQueue (List.getLast?_eq_none_iff.mp
          hNone)) with ⟨entry, hLast⟩
    rw [hLast] at hAccept
    rcases bind_eq_ok_iff.mp hAccept with ⟨e₂, -, hRest⟩
    rcases bind_eq_ok_iff.mp hRest with ⟨e₃, -, hRest⟩
    rcases bind_eq_ok_iff.mp hRest with ⟨e₄, -, hEnd⟩
    cases hEnd
    exact hNull
  selects := by
    intro fds input fd s₁ hAll hSelect
    rcases selectLoop_invariant mainLoopStep_counterInvariant
      hInv hSelect with ⟨hInv₁, hFound⟩
    have hSame := selectLoop_sameSockets hSelect
    rcases counter_of_findReady (hFound (by simp)) with
      ⟨hMem, hPositive⟩
    exact hInv₁.counters fd
      (by rw [hSame.nbFd]; exact hAll fd hMem) hPositive

/-
  In every run in which `nbp_accept` takes what is counted,
  positive counters mean packets to accept.
-/
theorem countersServe_of_run
    {calls : List (PosixCall P)}
    (hConns : ∀ c, e.conns c = none)
    (hRun : Run (Guarded (KeepsCounters fmt cfg)
      (PosixCalls fmt cfg)) (nbNetInit fresh e, .zero) calls
      s) :
    CountersServe fmt cfg s := by
  have hStep : ∀ s₁ call s₂, CounterInvariant cfg s₁ →
      Guarded (KeepsCounters fmt cfg) (PosixCalls fmt cfg)
        s₁ call s₂ → CounterInvariant cfg s₂ :=
    fun _ _ _ hInv hStep => hStep.2.counterInvariant hInv
      hStep.1
  exact (hRun.invariant hStep
    (counterInvariant_netInit hConns)).countersServe

end Runs

------------------------------------------------------------
-- Two Packets of One Peer
------------------------------------------------------------

/- A step that receives a packet of app 8 at host 9. -/
def packetStep : StepInput PacketBuffer where
  now := 0
  packet := some (packetToSeven 9 8, 39)

/- A step that receives nothing. -/
def quietStep : StepInput PacketBuffer where
  now := 0
  packet := none

/- The stack of the server. -/
def serverConfig : Config :=
  plainConfig .srcDstIdentifier

/- Socket 3 is to listen as app 7. -/
def bindThree : PosixCall PacketBuffer :=
  .bind 3 7 1 blankConnection quietStep

/- Socket 3 listens, and `n` packets arrive. -/
def listenThree :
    Nat → Except Fault (Posix PacketBuffer)
| 0 => do
    let s ← nbpSocket 3 (bareStack, .zero)
    nbpBind netPacketFormat serverConfig 3 7 1
      blankConnection quietStep s
| n + 1 => do
    let s ← listenThree n
    mainLoopStep netPacketFormat serverConfig packetStep s

theorem listenThree_run
    {n : Nat}
    {s : Posix PacketBuffer}
    (hListen : listenThree n = .ok s) :
    Run (Guarded (KeepsCounters netPacketFormat serverConfig)
        (PosixCalls netPacketFormat serverConfig))
      (bareStack, .zero)
      (.socket 3 :: bindThree ::
        List.replicate n (.step packetStep)) s := by
  induction n generalizing s with
  | zero =>
      rcases bind_eq_ok_iff.mp hListen with
        ⟨s₁, hSocket, hBind⟩
      have hFree : s₁.1.conns 1 = none := by
        rcases bind_eq_ok_iff.mp hSocket with ⟨t, -, hEnd⟩
        cases hEnd
        rfl
      exact .cons ⟨by trivial, .socket hSocket⟩
        (.cons ⟨by trivial, .bind (by decide) hFree hBind⟩
          (.nil s))
  | succ n ih =>
      rcases bind_eq_ok_iff.mp hListen with
        ⟨s₁, hFirst, hStep⟩
      have hLast : Run (Guarded
          (KeepsCounters netPacketFormat serverConfig)
          (PosixCalls netPacketFormat serverConfig)) s₁
          [.step packetStep] s :=
        .cons ⟨by trivial, .step hStep⟩ (.nil s)
      have hRun := (ih hFirst).append hLast
      rw [List.replicate_succ']
      exact hRun

/- A connection is accepted at socket 3, as socket 4. -/
def acceptThree
    (s : Posix PacketBuffer) :
    Except Fault (Option SockAddr × Posix PacketBuffer) :=
  nbpAccept netPacketFormat serverConfig 3 4 2
    blankConnection 5 [] quietStep s

/-
  Both packets of a peer go to its connection, and one of
  them is still counted.
-/
theorem not_forall_countersServe :
    ¬ ∀ (fmt : PacketFormat PacketBuffer) cfg fresh e calls s,
      (∀ c, e.conns c = none) →
      Run (PosixCalls fmt cfg) (nbNetInit fresh e, .zero)
        calls s →
      CountersServe fmt cfg s := by
  intro hAll
  have hTable : (do
      let s ← listenThree 2
      let (_, s') ← acceptThree s
      return ((s.1.conns 2).isNone, s'.2.nbFd 3,
        s'.2.fdAcceptCounter 3,
        (s'.1.conns (s'.2.fdTable 3)).map
          Connection.acceptQueue)) =
      .ok (true, true, 1, some []) := by
    decide +kernel
  rcases bind_eq_ok_iff.mp hTable with ⟨s, hListen, hRest⟩
  rcases bind_eq_ok_iff.mp hRest with
    ⟨⟨addr, s'⟩, hAccept, hEnd⟩
  simp only [pure_eq_ok, Except.ok.injEq, Prod.mk.injEq,
    Option.isNone_iff_eq_none, Option.map_eq_some_iff]
    at hEnd
  rcases hEnd with
    ⟨hFree, hOwned, hCounter, conn, hConn, hQueue⟩
  have hStep : PosixCalls netPacketFormat serverConfig s
      (.accept 3 4 2 blankConnection [] quietStep) s' :=
    .accept (by decide) hFree hAccept
  have hRun := ((listenThree_run hListen).mono
    (fun _ _ _ hGuarded => hGuarded.2)).append
      (.cons hStep (.nil s'))
  have hServe := hAll netPacketFormat serverConfig
    blankNetState bareEndpoint _ s' (fun _ => rfl) hRun
  rcases hServe.counters 3 hOwned (by rw [hCounter]; decide)
    with ⟨conn', hConn', -, hNe⟩
  cases hConn.symm.trans hConn'
  exact hNe hQueue

/- The packet of a peer is accepted. -/
theorem countersServe_of_run_one :
    ∃ (s : Posix PacketBuffer) (calls : List _),
      s.2.nbFd 4 = true ∧
      Run (Guarded (KeepsCounters netPacketFormat serverConfig)
          (PosixCalls netPacketFormat serverConfig))
        (bareStack, .zero) calls s ∧
      CountersServe netPacketFormat serverConfig s := by
  have hTable : (do
      let s ← listenThree 1
      let (_, s') ← acceptThree s
      return ((s.1.conns 2).isNone, s'.2.nbFd 4)) =
      .ok (true, true) := by
    decide +kernel
  have hParked : (do
      let s ← listenThree 1
      return (s.2.fdTable 3, s.2.fdAcceptCounter 3,
        s.2.fdAcceptCounter 4,
        (s.1.conns 1).map Connection.acceptQueue)) =
      .ok (1, 1, 0, some [⟨8, 9, 0⟩]) := by
    decide +kernel
  have hPacket : (do
      let s ← listenThree 1
      let y := netPacketFormat.restoreTotalLen (s.1.packets 0)
      return ((s.1.conns 1).map Connection.localAppId,
        netPacketFormat.getWord .dstAppId y,
        netPacketFormat.getWord .srcAppId y,
        netPacketFormat.getInteger .srcHostId y,
        s.1.hostLocalId 9)) = .ok (some 7, 7, 8, 9, 9) := by
    decide +kernel
  rcases bind_eq_ok_iff.mp hTable with ⟨s, hListen, hRest⟩
  rcases bind_eq_ok_iff.mp hRest with
    ⟨⟨addr, s'⟩, hAccept, hEnd⟩
  rw [hListen, ok_bind] at hParked hPacket
  simp only [pure_eq_ok, Except.ok.injEq, Prod.mk.injEq,
    Option.isNone_iff_eq_none, Option.map_eq_some_iff]
    at hEnd hParked hPacket
  rcases hEnd with ⟨hFree, hOwned⟩
  rcases hParked with
    ⟨hFd, hCounter, hReset, conn, hConn, hQueue⟩
  rcases hPacket with
    ⟨⟨conn', hConn', hLocal⟩, hDst, hSrc, hHost, hLookup⟩
  cases hConn.symm.trans hConn'
  have hKeeps : KeepsCounters netPacketFormat serverConfig s
      (.accept 3 4 2 blankConnection [] quietStep) := by
    intro _ s₁ hAwait
    have hEnd : s₁ = s := by
      rw [awaitAccept, if_pos (by rw [hCounter]; decide)]
        at hAwait
      exact (Except.ok.inj hAwait).symm
    subst hEnd
    refine ⟨hReset, ?_⟩
    intro conn' hConn'
    rw [hFd, hConn] at hConn'
    cases hConn'
    refine Or.inr ⟨hCounter, _, hQueue, ?_⟩
    rintro ⟨-, hOther⟩
    have hChecked : checkPacket netPacketFormat serverConfig
        (s₁.1.packets 0) = .ok
          (netPacketFormat.restoreTotalLen (s₁.1.packets 0),
            true) := rfl
    have hMatch := hOther _ hChecked
    rw [hDst, hSrc, hHost] at hMatch
    have hEntry : acceptedEntry s₁.1 2 conn ⟨8, 9, 0⟩ =
        ⟨2, 7, 8, 9⟩ := by
      rw [acceptedEntry, hLocal]
      exact congrArg (TableEntry.mk 2 7 8) hLookup
    rw [hEntry] at hMatch
    exact absurd hMatch (by decide)
  have hStep : PosixCalls netPacketFormat serverConfig s
      (.accept 3 4 2 blankConnection [] quietStep) s' :=
    .accept (by decide) hFree hAccept
  have hRun := (listenThree_run hListen).append
    (.cons ⟨hKeeps, hStep⟩ (.nil s'))
  have hConns : ∀ c, bareEndpoint.conns c = none :=
    fun _ => rfl
  exact ⟨s', _, hOwned, hRun,
    countersServe_of_run hConns hRun⟩

end NetBlocks
