import NetBlocks.Correctness.Redelivery

/-
  Timers over the life of connections, and over repeated
  initialization: which timers are active, and that all other
  ones are on the free list.

  Main declarations:
    * `StackCall` and `StackRecords`
    * `EndsClean`
    * `timersAccounted_of_run`
-/

namespace NetBlocks

open TransitionSystem Except

variable {P : Type}

------------------------------------------------------------
-- Calls on the Whole Stack
------------------------------------------------------------

/-
  A call of the API, where the stack can also be initialized
  again. `fresh` is what `malloc` returns for its state.
-/
inductive StackCall (P : Type) where
| netInit (fresh : NetState)
| call (call : Call P)

/- A call on the stack, and what the ledger notes of it. -/
inductive StackRecords
    (fmt : PacketFormat P)
    (cfg : Config) :
    Endpoint P × Ledger → StackCall P →
      Endpoint P × Ledger → Prop
| netInit {s : Endpoint P × Ledger} {fresh : NetState} :
    StackRecords fmt cfg s (.netInit fresh)
      (nbNetInit fresh s.1, s.2)
| call {s s' : Endpoint P × Ledger} {call : Call P} :
    Records fmt cfg s call s' →
    StackRecords fmt cfg s (.call call) s'

/-
  Slots are kept, no packet of a connection that is torn down
  is unacknowledged, and the stack is initialized while no
  timer is active.
-/
def EndsClean
    (fmt : PacketFormat P)
    (cfg : Config)
    (e : Endpoint P) : StackCall P → Prop
| .netInit _ => e.timers.timersHead = none
| .call (.destablish c) => ∀ conn, e.conns c = some conn →
    ∀ k, conn.redeliveryBuffer k = none
| .call call => KeepsSlots fmt cfg e call

/-
  The active timers are exactly those of unacknowledged
  packets of live connections, and all others are free.
-/
structure TimersAccounted
    (fmt : PacketFormat P)
    (e : Endpoint P)
    (ledger : Ledger) : Prop where
  active : ∀ t, e.timers.IsActive t ↔
    ∃ r ∈ ledger, r.acked = false ∧
      (∃ c, r.conn = some c ∧ e.conns c ≠ none) ∧
      e.timerOf fmt r.packet = some t
  argument : ∀ r ∈ ledger, r.acked = false →
    ∀ t, e.timerOf fmt r.packet = some t →
      (e.timers.allocatedTimers t).argument = r.packet
  free : ∀ t, e.timers.IsFree t ↔ ¬ e.timers.IsActive t

/- Also, no unacknowledged packet lost its connection. -/
structure AccountingInvariant
    (fmt : PacketFormat P)
    (s : Endpoint P × Ledger) : Prop where
  redelivery : RedeliveryInvariant fmt s
  owned : ∀ r ∈ s.2, r.acked = false → r.conn ≠ none

section Accounting

variable
    {fmt : PacketFormat P}
    {cfg : Config}
    {e : Endpoint P}
    {s s' : Endpoint P × Ledger}

theorem AccountingInvariant.timersAccounted
    (hInvariant : AccountingInvariant fmt s) :
    TimersAccounted fmt s.1 s.2 := by
  rcases hInvariant.redelivery with ⟨-, active, free, hBooks⟩
  refine ⟨?_, ?_, ?_⟩
  · intro t
    rw [hBooks.pool.isActive_iff]
    constructor
    · intro ht
      rcases hBooks.timed t ht with ⟨r, hr, hUnacked, hTimer⟩
      cases hConn : r.conn with
      | none =>
          exact absurd hConn
            (hInvariant.owned r hr hUnacked)
      | some c =>
          refine ⟨r, hr, hUnacked, ⟨c, hConn, ?_⟩, hTimer⟩
          have hLive := hBooks.owner r hr c hConn
          simpa [Endpoint.buffers] using hLive
    · rintro ⟨r, hr, hUnacked, -, hTimer⟩
      exact (hBooks.argument_eq hr hUnacked hTimer).1
  · intro r hr hUnacked t hTimer
    exact (hBooks.argument_eq hr hUnacked hTimer).2
  · intro t
    rw [hBooks.pool.isActive_iff, hBooks.pool.isFree_iff]
    have hDisjoint :=
      List.disjoint_of_nodup_append hBooks.pool.nodup
    constructor
    · intro hFree hActive
      exact hDisjoint hActive hFree
    · intro hNot
      rcases List.mem_append.mp (hBooks.all t) with
        hActive | hFree
      · exact absurd hActive hNot
      · exact hFree

/- Without live connections no timer is active. -/
theorem TimersAccounted.none_active
    {ledger : Ledger}
    (hAccounted : TimersAccounted fmt e ledger)
    (hConns : ∀ c, e.conns c = none)
    (t : TimerPtr) :
    ¬ e.timers.IsActive t := by
  rw [hAccounted.active t]
  rintro ⟨r, -, -, ⟨c, -, hLive⟩, -⟩
  exact hLive (hConns c)

/- New entries have a connection, and acks keep it. -/
theorem record_owned
    {ledger : Ledger}
    {call : Call P}
    (hOwned : ∀ r ∈ ledger, r.acked = false → r.conn ≠ none)
    (hCall : ∀ c, call ≠ .destablish c) :
    ∀ r ∈ record fmt cfg e ledger call,
      r.acked = false → r.conn ≠ none := by
  have hAppend : ∀ c p n, ∀ r ∈ ledger ++
      [(⟨some c, p, n, false⟩ : SentRecord)],
      r.acked = false → r.conn ≠ none := by
    intro c p n r hr hUnacked
    rcases List.mem_append.mp hr with hr | hr
    · exact hOwned r hr hUnacked
    · rw [List.mem_singleton.mp hr]
      simp
  cases call with
  | establish c fresh h a sa =>
      rw [record]
      split
      · exact hAppend _ _ _
      · exact hOwned
  | destablish c => exact absurd rfl (hCall c)
  | send c buff =>
      rw [record]
      split
      · exact hOwned
      · exact hAppend _ _ _
  | ingress x len =>
      rw [record]
      split
      · exact hOwned
      · intro r' hr' hUnacked
        rcases List.mem_map.mp hr' with ⟨r, hr, rfl⟩
        rw [SentRecord.receiveAck_conn]
        exact hOwned r hr
          (SentRecord.receiveAck_acked_eq_false_iff.mp
            hUnacked).1
  | checkTimers => exact hOwned
  | tick now => exact hOwned
  | read c maxLen => exact hOwned

/-
  A connection without unacknowledged packets is torn down:
  the books lose only records that are acknowledged.
-/
theorem AccountingInvariant.destablished
    {c : ConnPtr}
    (hInvariant : AccountingInvariant fmt s)
    (hClean : EndsClean fmt cfg s.1 (.call (.destablish c)))
    (hLive : ∃ conn, s.1.conns c = some conn) :
    ∀ r ∈ record fmt cfg s.1 s.2 (.destablish c),
      r.acked = false → r.conn ≠ none := by
  rcases hInvariant.redelivery with ⟨-, active, free, hBooks⟩
  rcases hLive with ⟨conn, hConn⟩
  intro r' hr' hUnacked hNone
  rcases List.mem_map.mp hr' with ⟨r, hr, rfl⟩
  rw [SentRecord.orphan_acked] at hUnacked
  cases hOwner : r.conn with
  | none => exact hInvariant.owned r hr hUnacked hOwner
  | some d =>
      by_cases hEq : d = c
      · subst hEq
        have hHeld := hBooks.held r hr hUnacked d _ hOwner
          (buffers_of_some hConn)
        rw [hClean conn hConn] at hHeld
        cases hHeld
      · have hKept := SentRecord.orphan_conn_eq_some_iff.mpr
          ⟨hOwner, hEq⟩
        rw [hNone] at hKept
        cases hKept

/- Initializing again keeps what was acknowledged. -/
theorem AccountingInvariant.netInit
    (fresh : NetState)
    (hInvariant : AccountingInvariant fmt s)
    (hHead : s.1.timers.timersHead = none) :
    AccountingInvariant fmt (nbNetInit fresh s.1, s.2) := by
  refine ⟨?_, hInvariant.owned⟩
  rcases hInvariant.redelivery with
    ⟨hHosts, active, free, hBooks⟩
  have hActive : active = [] := by
    have hFirst := hBooks.pool.active_lists.1
    change s.1.timers.timersHead = _ at hFirst
    rw [hHead] at hFirst
    exact List.head?_eq_none_iff.mp hFirst.symm
  subst hActive
  have hAcked : ∀ r ∈ s.2, r.acked = true := by
    intro r hr
    cases hUnacked : r.acked with
    | true => rfl
    | false =>
        rcases hBooks.armed r hr hUnacked with ⟨t, ht, -⟩
        cases ht
  refine ⟨.netInit fresh hHosts.remote, ?_⟩
  have hEmpty : ∀ c b k, s.1.buffers c = some b →
      b k = none := by
    intro c b k hB
    cases hSlot : b k with
    | none => rfl
    | some p =>
        rcases hBooks.slots c b k p hB hSlot with
          ⟨r, hr, hUnacked, -⟩
        rw [hAcked r hr] at hUnacked
        cases hUnacked
  rcases Books.netInit fresh hHead hAcked hBooks.owner hEmpty
      hBooks.number hBooks.distinct hBooks.handedOut with
    ⟨all, hReset⟩
  exact ⟨[], all, hReset⟩

/- What one call preserves. -/
theorem StackRecords.accountingInvariant
    {call : StackCall P}
    (hReliable : cfg.reliableEnabled = true)
    (hInvariant : AccountingInvariant fmt s)
    (hClean : EndsClean fmt cfg s.1 call)
    (hRecords : StackRecords fmt cfg s call s') :
    AccountingInvariant fmt s' := by
  cases hRecords with
  | netInit => exact hInvariant.netInit _ hClean
  | @call _ call hRecords =>
      have hSlots : KeepsSlots fmt cfg s.1 call := by
        cases call with
        | destablish c => trivial
        | send c buff => exact hClean
        | ingress x len => exact hClean
        | _ => trivial
      refine ⟨hRecords.redeliveryInvariant hReliable
        hInvariant.redelivery hSlots, ?_⟩
      rcases hRecords with ⟨hCall, hLedger⟩
      rw [hLedger]
      by_cases hEnds : ∃ c, call = .destablish c
      · rcases hEnds with ⟨c, rfl⟩
        cases hCall with
        | destablish hDestablish =>
            rcases nbDestablish_ok_iff.mp hDestablish with
              ⟨conn, hConn, -⟩
            exact hInvariant.destablished hClean ⟨conn, hConn⟩
      · exact record_owned hInvariant.owned
          (fun c hEq => hEnds ⟨c, hEq⟩)

/-
  In every run that keeps slots, tears down connections only
  when all their packets are acknowledged, and initializes
  the stack only while no timer is active, the active timers
  are exactly those of unacknowledged packets of live
  connections.
-/
theorem timersAccounted_of_run
    {fresh : NetState}
    {calls : List (StackCall P)}
    (hReliable : cfg.reliableEnabled = true)
    (hConns : ∀ c, e.conns c = none)
    (hHead : e.timers.timersHead = none)
    (hRun : Run
      (Guarded (fun s => EndsClean fmt cfg s.1)
        (StackRecords fmt cfg))
      (nbNetInit fresh e, []) calls s') :
    TimersAccounted fmt s'.1 s'.2 ∧
      ((∀ c, s'.1.conns c = none) →
        ∀ t, ¬ s'.1.timers.IsActive t) := by
  have hStep : ∀ (s : Endpoint P × Ledger) call s₁,
      AccountingInvariant fmt s →
      Guarded (fun s => EndsClean fmt cfg s.1)
        (StackRecords fmt cfg) s call s₁ →
      AccountingInvariant fmt s₁ :=
    fun _ _ _ hInvariant hGuarded =>
      hGuarded.2.accountingInvariant hReliable hInvariant
        hGuarded.1
  have hInit : AccountingInvariant fmt
      (nbNetInit fresh e, []) :=
    ⟨redeliveryInvariant_netInit fresh hConns hHead, by simp⟩
  have hAccounted :=
    (hRun.invariant hStep hInit).timersAccounted
  exact ⟨hAccounted, hAccounted.none_active⟩

end Accounting

------------------------------------------------------------
-- A Connection Torn Down Too Early
------------------------------------------------------------

/- Sending the payload `hi` on the small stack. -/
def sendHi
    (e : Endpoint PacketBuffer) :
    Except Fault (Nat × Endpoint PacketBuffer) :=
  nbSend netPacketFormat reliableConfig 1 [104, 105] e

/- What the ledger notes of it on an empty one. -/
def recordHi
    (e : Endpoint PacketBuffer) : Ledger :=
  record netPacketFormat reliableConfig e []
    (.send 1 [104, 105])

theorem records_sendHi
    {n : Nat}
    {e₁ e₂ : Endpoint PacketBuffer}
    (hSend : sendHi e₁ = .ok (n, e₂)) :
    Records netPacketFormat reliableConfig (e₁, [])
      (.send 1 [104, 105]) (e₂, recordHi e₁) :=
  ⟨.send hSend, rfl⟩

/-
  The timer of a packet stays active when its connection is
  torn down, and no connection is live any more.
-/
theorem not_forall_timersAccounted :
    ¬ ∀ (fmt : PacketFormat PacketBuffer) cfg e fresh calls
        s',
      cfg.reliableEnabled = true →
      (∀ c, e.conns c = none) →
      e.timers.timersHead = none →
      Run (StackRecords fmt cfg) (nbNetInit fresh e, [])
        calls s' →
      TimersAccounted fmt s'.1 s'.2 := by
  intro hAll
  have hTable : (do
      let e₁ ← establishReliable bareStack
      let (_, e₂) ← sendHi e₁
      let e₃ ← nbDestablish reliableConfig 1 e₂
      return (e₃.timers.timersHead.map (fun t =>
          (e₃.timers.allocatedTimers t).next),
        (recordHi e₁).map (fun r : SentRecord =>
          (r.orphan 1).conn))) =
      .ok (some none, [none]) := by
    decide +kernel
  rcases bind_eq_ok_iff.mp hTable with ⟨e₁, hFirst, hRest⟩
  rcases bind_eq_ok_iff.mp hRest with
    ⟨⟨n, e₂⟩, hSecond, hRest⟩
  rcases bind_eq_ok_iff.mp hRest with ⟨e₃, hThird, hEnd⟩
  simp only [pure_eq_ok, Except.ok.injEq, Prod.mk.injEq,
    Option.map_eq_some_iff] at hEnd
  rcases hEnd with ⟨⟨t, hHead, hLast⟩, hOrphans⟩
  let ledger := (recordHi e₁).map (SentRecord.orphan 1)
  have hRecords : Records netPacketFormat reliableConfig
      (e₂, recordHi e₁) (.destablish 1) (e₃, ledger) :=
    ⟨.destablish hThird, rfl⟩
  have hAccounted : TimersAccounted netPacketFormat e₃
      ledger :=
    hAll netPacketFormat reliableConfig bareEndpoint
      blankNetState _ (e₃, ledger) rfl (fun _ => rfl) rfl
      (.cons (.call (records_establishReliable hFirst))
        (.cons (.call (records_sendHi hSecond))
          (.cons (.call hRecords) (.nil _))))
  have hActive : e₃.timers.IsActive t :=
    ⟨[t], ⟨hHead, hLast⟩, List.mem_singleton_self t⟩
  rcases (hAccounted.active t).mp hActive with
    ⟨r, hr, -, ⟨c, hConn, -⟩, -⟩
  have hNone : some c ∈ ([none] : List (Option ConnPtr)) := by
    rcases List.mem_map.mp hr with ⟨r₀, hr₀, rfl⟩
    rw [← hOrphans, ← hConn]
    exact List.mem_map.mpr ⟨r₀, hr₀, rfl⟩
  simp at hNone

/- The timer of a packet in flight is accounted for. -/
theorem timersAccounted_of_run_one :
    ∃ s' calls, s'.2 ≠ [] ∧
      Run (Guarded
        (fun s => EndsClean netPacketFormat reliableConfig
          s.1)
        (StackRecords netPacketFormat reliableConfig))
        (bareStack, []) calls s' ∧
      TimersAccounted netPacketFormat s'.1 s'.2 ∧
        ((∀ c, s'.1.conns c = none) →
          ∀ t, ¬ s'.1.timers.IsActive t) := by
  have hTable : (do
      let e₁ ← establishReliable bareStack
      let (n, _) ← sendHi e₁
      return ((e₁.conns 1).map (fun conn : Connection =>
        (conn.redeliveryBuffer
          (slot (conn.lastSentSequence + 1))).isNone), n)) =
      .ok (some true, 2) := by
    decide +kernel
  rcases bind_eq_ok_iff.mp hTable with ⟨e₁, hFirst, hRest⟩
  rcases bind_eq_ok_iff.mp hRest with
    ⟨⟨n, e₂⟩, hSecond, hEnd⟩
  simp only [pure_eq_ok, Except.ok.injEq, Prod.mk.injEq,
    Option.map_eq_some_iff, Option.isNone_iff_eq_none]
    at hEnd
  rcases hEnd with ⟨⟨conn, hConn, hEmpty⟩, -⟩
  have hSlots : EndsClean netPacketFormat reliableConfig e₁
      (.call (.send 1 [104, 105])) := by
    intro conn' hConn'
    cases hConn.symm.trans hConn'
    exact hEmpty
  have hLedger : recordHi e₁ ≠ [] := by
    simp only [recordHi, record, hConn]
    exact List.cons_ne_nil _ _
  have hRun : Run (Guarded
      (fun s => EndsClean netPacketFormat reliableConfig s.1)
      (StackRecords netPacketFormat reliableConfig))
      (bareStack, [])
      [.call (.establish 1 blankConnection 9 8 7),
        .call (.send 1 [104, 105])] (e₂, recordHi e₁) :=
    .cons ⟨trivial,
        .call (records_establishReliable hFirst)⟩
      (.cons ⟨hSlots, .call (records_sendHi hSecond)⟩
        (.nil _))
  exact ⟨_, _, hLedger, hRun,
    timersAccounted_of_run rfl (fun _ => rfl) rfl hRun⟩

end NetBlocks
