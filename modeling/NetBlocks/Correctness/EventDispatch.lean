import NetBlocks.Core.ApiCalls
import NetBlocks.Core.Dispatch
import NetBlocks.Correctness.ConnectionTable

/-
  Event dispatch with callbacks that open and close
  connections: which connections a pass over the table
  touches, and which of them are told that they can be read.

  Main declarations:
    * `PassPoint` and `PassStep`
    * `cycleConnections_steps`
    * `Orderly`
    * `PassInvariant.step`
    * `dispatches_of_run`
-/

namespace NetBlocks

open Except TransitionSystem

variable {P : Type}

------------------------------------------------------------
-- A Process That Dispatches Events
------------------------------------------------------------

/-
  Where the process is: in its own code, or in a pass, at the
  head of the loop for index `i`, in a callback for the
  connection `c` that was found there, or at an access to it.
-/
inductive PassPoint where
| outside
| top (i : Nat)
| inEstablished (i : Nat) (c : ConnPtr)
| handles (i : Nat) (c : ConnPtr)
| checks (i : Nat) (c : ConnPtr)
| inReadReady (i : Nat) (c : ConnPtr)
deriving DecidableEq, Repr

/-
  The process, with what is remembered of the pass: the
  connections that have had something to read all along, and
  the number of callbacks made before it.
-/
structure PassState (P : Type) where
  point : PassPoint
  endpoint : Endpoint P
  waiting : ConnPtr → Prop
  before : Nat

/- The connection at an address has something to read. -/
def HasInput
    (e : Endpoint P)
    (c : ConnPtr) : Prop :=
  ∃ conn, e.conns c = some conn ∧ conn.inputQueue ≠ []

namespace PassState

/- The process goes on, at a point and with an endpoint. -/
def goesOn
    (s : PassState P)
    (point : PassPoint)
    (e : Endpoint P) : PassState P :=
  { s with
    point := point
    endpoint := e
    waiting := fun c => s.waiting c ∧ HasInput e c }

/- A pass begins. -/
def begins
    (s : PassState P) : PassState P where
  point := .top 0
  endpoint := s.endpoint
  waiting := HasInput s.endpoint
  before := s.endpoint.events.length

end PassState

/- A callback is made. -/
def Endpoint.notified
    (event : QueueEvent)
    (c : ConnPtr)
    (e : Endpoint P) : Endpoint P :=
  { e with events := e.events ++ [(event, c)] }

/- The connection counts as told of the signal. -/
def Connection.handled
    (conn : Connection) : Connection :=
  { conn with signalingState := .signalHandled }

/-
  The steps of the process. In its own code and in callbacks
  it makes any calls of the API, which are the labels.
-/
inductive PassStep
    (fmt : PacketFormat P)
    (cfg : Config)
    (s : PassState P) :
    Option (ApiCall P) → PassState P → Prop
| calls {e' : Endpoint P} {call : ApiCall P} :
    (s.point = .outside ∨ (∃ i c,
      s.point = .inEstablished i c ∨
        s.point = .inReadReady i c)) →
    ApiCalls fmt cfg s.endpoint call e' →
    PassStep fmt cfg s (some call) (s.goesOn s.point e')
| begins :
    s.point = .outside →
    PassStep fmt cfg s none s.begins
| ends {i : Nat} :
    s.point = .top i →
    ¬ i < s.endpoint.netState.numConn →
    PassStep fmt cfg s none (s.goesOn .outside s.endpoint)
| established {i : Nat} {c : ConnPtr} {conn : Connection} :
    s.point = .top i →
    i < s.endpoint.netState.numConn →
    s.endpoint.netState.activeConnections i = c →
    s.endpoint.conns c = some conn →
    conn.signalingState = .signaled →
    PassStep fmt cfg s none
      (s.goesOn (.inEstablished i c)
        (s.endpoint.notified .established c))
| skipped {i : Nat} {c : ConnPtr} {conn : Connection} :
    s.point = .top i →
    i < s.endpoint.netState.numConn →
    s.endpoint.netState.activeConnections i = c →
    s.endpoint.conns c = some conn →
    conn.signalingState ≠ .signaled →
    PassStep fmt cfg s none
      (s.goesOn (.checks i c) s.endpoint)
| returned {i : Nat} {c : ConnPtr} :
    s.point = .inEstablished i c →
    PassStep fmt cfg s none
      (s.goesOn (.handles i c) s.endpoint)
| handled {i : Nat} {c : ConnPtr} {conn : Connection} :
    s.point = .handles i c →
    s.endpoint.conns c = some conn →
    PassStep fmt cfg s none
      (s.goesOn (.checks i c)
        (s.endpoint.setConn c conn.handled))
| readReady {i : Nat} {c : ConnPtr} {conn : Connection} :
    s.point = .checks i c →
    s.endpoint.conns c = some conn →
    conn.inputQueue ≠ [] →
    PassStep fmt cfg s none
      (s.goesOn (.inReadReady i c)
        (s.endpoint.notified .readReady c))
| quiet {i : Nat} {c : ConnPtr} {conn : Connection} :
    s.point = .checks i c →
    s.endpoint.conns c = some conn →
    conn.inputQueue = [] →
    PassStep fmt cfg s none
      (s.goesOn (.top (i + 1)) s.endpoint)
| moved {i : Nat} {c : ConnPtr} :
    s.point = .inReadReady i c →
    PassStep fmt cfg s none
      (s.goesOn (.top (i + 1)) s.endpoint)

/- The connection that the code of the pass accesses next. -/
def PassState.accesses
    (s : PassState P) : Option ConnPtr :=
  match s.point with
  | .top i =>
      if i < s.endpoint.netState.numConn then
        some (s.endpoint.netState.activeConnections i)
      else
        none
  | .handles _ c => some c
  | .checks _ c => some c
  | _ => none

/- How often a connection was told that it can be read. -/
def PassState.told
    (s : PassState P)
    (c : ConnPtr) : Nat :=
  (s.endpoint.events.drop s.before).count (.readReady, c)

/-
  The pass only accesses live connections, and when it is
  over, each connection that has had something to read all
  along was told so once.
-/
structure Dispatches
    (s : PassState P) : Prop where
  live : ∀ c, s.accesses = some c → s.endpoint.conns c ≠ none
  once : ∀ i, s.point = .top i →
    ¬ i < s.endpoint.netState.numConn →
    ∀ c, s.waiting c → s.told c = 1

------------------------------------------------------------
-- Orderly Callbacks
------------------------------------------------------------

/- The last index of the table that the pass has reached. -/
def PassPoint.index : PassPoint → Option Nat
| .inEstablished i _ => some i
| .inReadReady i _ => some i
| _ => none

/- The connection whose callback for the signal is running. -/
def PassPoint.signaled : PassPoint → Option ConnPtr
| .inEstablished _ c => some c
| _ => none

/-
  A connection that is destablished finds its own entry. In a
  callback the entry is one the pass has not reached yet, or
  there is none of these left. And the callback for a signal
  does not destablish its own connection.
-/
def Orderly
    (cfg : Config)
    (s : PassState P) : Option (ApiCall P) → Prop
| some (.call (.destablish d)) =>
    FindsOwnEntry cfg s.endpoint (.destablish d) ∧
      (∀ i, s.point.index = some i →
        i < s.endpoint.netState.connections.idxOf d ∨
          s.endpoint.netState.numConn ≤ i + 1) ∧
      s.point.signaled ≠ some d
| _ => True

------------------------------------------------------------
-- The Pass as Steps
------------------------------------------------------------

section Steps

variable
    {U : Type}
    {fmt : PacketFormat P}
    {cfg : Config}
    {callback : Callback P U}
    {guard : PassState P → Option (ApiCall P) → Prop}
    {s s' : Endpoint P × U}
    {t : PassState P}
    {i : Nat}
    {c : ConnPtr}

/-
  What `callback_f` does is a sequence of calls, each of
  which meets a condition.
-/
def CallsBack
    (fmt : PacketFormat P)
    (cfg : Config)
    (guard : PassState P → Option (ApiCall P) → Prop)
    (callback : Callback P U) : Prop :=
  ∀ event c s s' (t : PassState P),
    callback event c s = .ok s' →
      t.endpoint = s.1 →
      (∃ i, t.point = .inEstablished i c ∨
        t.point = .inReadReady i c) →
      ∃ calls t', Run (Guarded guard (PassStep fmt cfg)) t
          calls t' ∧
        t'.point = t.point ∧ t'.endpoint = s'.1

theorem cycleEstablished_steps
    (hCallback : CallsBack fmt cfg guard callback)
    (hGuard : ∀ t, guard t none)
    (hPoint : t.point = .top i)
    (hLt : i < t.endpoint.netState.numConn)
    (hAt : t.endpoint.netState.activeConnections i = c)
    (hEndpoint : t.endpoint = s.1)
    (hCycle : cycleEstablished callback c s = .ok s') :
    ∃ calls t', Run (Guarded guard (PassStep fmt cfg)) t
        calls t' ∧
      t'.point = .checks i c ∧ t'.endpoint = s'.1 := by
  unfold cycleEstablished at hCycle
  rcases bind_eq_ok_iff.mp hCycle with ⟨conn, hLoad, hRest⟩
  have hConn := Endpoint.loadConn_eq_ok_iff.mp hLoad
  rw [← hEndpoint] at hConn
  split at hRest
  · next hSignaled =>
      rcases bind_eq_ok_iff.mp hRest with
        ⟨s₁, hCall, hRest⟩
      rcases bind_eq_ok_iff.mp hRest with
        ⟨conn₁, hLoad₁, hEnd⟩
      have hConn₁ := Endpoint.loadConn_eq_ok_iff.mp hLoad₁
      rw [Endpoint.modifyConn_eq hConn₁] at hEnd
      cases hEnd
      let t₁ := t.goesOn (.inEstablished i c)
        (t.endpoint.notified .established c)
      have hEnter : PassStep fmt cfg t none t₁ :=
        .established hPoint hLt hAt hConn hSignaled
      rcases hCallback _ c _ _ t₁ hCall
          (by rw [← hEndpoint]; rfl) ⟨i, Or.inl rfl⟩ with
        ⟨calls, t₂, hCalls, hPoint₂, hEndpoint₂⟩
      rw [← hEndpoint₂] at hConn₁ ⊢
      have hReturn : PassStep fmt cfg t₂ none
          (t₂.goesOn (.handles i c) t₂.endpoint) :=
        .returned hPoint₂
      let t₃ := t₂.goesOn (.handles i c) t₂.endpoint
      have hHandle : PassStep fmt cfg t₃ none
          (t₃.goesOn (.checks i c)
            (t₃.endpoint.setConn c conn₁.handled)) :=
        .handled rfl hConn₁
      exact ⟨_, _, .cons ⟨hGuard _, hEnter⟩
        (hCalls.append (.cons ⟨hGuard _, hReturn⟩
          (.cons ⟨hGuard _, hHandle⟩ (.nil _)))), rfl, rfl⟩
  · next hNot =>
      cases hRest
      have hSkip : PassStep fmt cfg t none
          (t.goesOn (.checks i c) t.endpoint) :=
        .skipped hPoint hLt hAt hConn hNot
      exact ⟨_, _, .cons ⟨hGuard _, hSkip⟩ (.nil _), rfl,
        hEndpoint⟩

theorem cycleReadReady_steps
    (hCallback : CallsBack fmt cfg guard callback)
    (hGuard : ∀ t, guard t none)
    (hPoint : t.point = .checks i c)
    (hEndpoint : t.endpoint = s.1)
    (hCycle : cycleReadReady callback c s = .ok s') :
    ∃ calls t', Run (Guarded guard (PassStep fmt cfg)) t
        calls t' ∧
      t'.point = .top (i + 1) ∧ t'.endpoint = s'.1 := by
  unfold cycleReadReady at hCycle
  rcases bind_eq_ok_iff.mp hCycle with ⟨conn, hLoad, hRest⟩
  have hConn := Endpoint.loadConn_eq_ok_iff.mp hLoad
  rw [← hEndpoint] at hConn
  split at hRest
  · next hInput =>
      let t₁ := t.goesOn (.inReadReady i c)
        (t.endpoint.notified .readReady c)
      have hEnter : PassStep fmt cfg t none t₁ :=
        .readReady hPoint hConn hInput
      rcases hCallback _ c _ _ t₁ hRest
          (by rw [← hEndpoint]; rfl) ⟨i, Or.inr rfl⟩ with
        ⟨calls, t₂, hCalls, hPoint₂, hEndpoint₂⟩
      have hMove : PassStep fmt cfg t₂ none
          (t₂.goesOn (.top (i + 1)) t₂.endpoint) :=
        .moved hPoint₂
      exact ⟨_, _, .cons ⟨hGuard _, hEnter⟩
        (hCalls.append (.cons ⟨hGuard _, hMove⟩ (.nil _))),
        rfl, hEndpoint₂⟩
  · next hEmpty =>
      cases hRest
      have hQuiet : PassStep fmt cfg t none
          (t.goesOn (.top (i + 1)) t.endpoint) :=
        .quiet hPoint hConn (not_not.mp hEmpty)
      exact ⟨_, _, .cons ⟨hGuard _, hQuiet⟩ (.nil _), rfl,
        hEndpoint⟩

theorem cycleLoop_steps
    {fuel : Nat}
    (hCallback : CallsBack fmt cfg guard callback)
    (hGuard : ∀ t, guard t none)
    (hPoint : t.point = .top i)
    (hEndpoint : t.endpoint = s.1)
    (hCycle : cycleLoop callback fuel i s = .ok s') :
    ∃ calls t' j, Run (Guarded guard (PassStep fmt cfg)) t
        calls t' ∧
      t'.point = .top j ∧ t'.endpoint = s'.1 ∧
      ¬ j < t'.endpoint.netState.numConn := by
  induction fuel generalizing i s t with
  | zero => cases hCycle
  | succ fuel ih =>
      rw [cycleLoop] at hCycle
      split at hCycle
      · next hLt =>
          rcases bind_eq_ok_iff.mp hCycle with
            ⟨s₂, hBody, hRest⟩
          rcases bind_eq_ok_iff.mp hBody with
            ⟨s₁, hFirst, hSecond⟩
          rcases cycleEstablished_steps hCallback hGuard
              hPoint (by rw [hEndpoint]; exact hLt)
              (by rw [hEndpoint]) hEndpoint hFirst with
            ⟨calls₁, t₁, hRun₁, hPoint₁, hEndpoint₁⟩
          rcases cycleReadReady_steps hCallback hGuard
              hPoint₁ hEndpoint₁ hSecond with
            ⟨calls₂, t₂, hRun₂, hPoint₂, hEndpoint₂⟩
          rcases ih hPoint₂ hEndpoint₂ hRest with
            ⟨calls₃, t₃, j, hRun₃, hEnd⟩
          exact ⟨_, t₃, j,
            hRun₁.append (hRun₂.append hRun₃), hEnd⟩
      · next hEnd =>
          cases hCycle
          exact ⟨[], t, i, .nil t, hPoint, hEndpoint,
            by rw [hEndpoint]; exact hEnd⟩

/- A pass that returns is a sequence of these steps. -/
theorem cycleConnections_steps
    (hCallback : CallsBack fmt cfg guard callback)
    (hGuard : ∀ t, guard t none)
    (hPoint : t.point = .outside)
    (hEndpoint : t.endpoint = s.1)
    (hCycle : cycleConnections callback s = .ok s') :
    ∃ calls t', Run (Guarded guard (PassStep fmt cfg)) t
        calls t' ∧
      t'.point = .outside ∧ t'.endpoint = s'.1 := by
  have hBegin : PassStep fmt cfg t none t.begins :=
    .begins hPoint
  rcases cycleLoop_steps hCallback hGuard rfl
      (show t.begins.endpoint = s.1 from hEndpoint) hCycle
    with ⟨calls, t₁, j, hRun, hTop, hEndpoint₁, hOver⟩
  have hEnd : PassStep fmt cfg t₁ none
      (t₁.goesOn .outside t₁.endpoint) := .ends hTop hOver
  exact ⟨_, _, .cons ⟨hGuard _, hBegin⟩
    (hRun.append (.cons ⟨hGuard _, hEnd⟩ (.nil _))), rfl,
    hEndpoint₁⟩

end Steps

------------------------------------------------------------
-- Places in the Table
------------------------------------------------------------

/- The connections from an index of the table on. -/
def Endpoint.from
    (e : Endpoint P)
    (k : Nat) : List ConnPtr :=
  e.netState.connections.drop k

/-
  The connections that are live before and after are behind
  an index of the table after if they were before.
-/
def KeepsPlaces
    (k : Nat)
    (e e' : Endpoint P) : Prop :=
  ∀ d, e.conns d ≠ none → e'.conns d ≠ none →
    (d ∈ e'.from k ↔ d ∈ e.from k)

section Places

variable
    {fmt : PacketFormat P}
    {cfg : Config}
    {e e' : Endpoint P}
    {k : Nat}

theorem from_eq_nil
    (hEnd : e.netState.numConn ≤ k) :
    e.from k = [] := by
  rw [Endpoint.from, List.drop_eq_nil_iff,
    NetState.length_connections]
  exact hEnd

/- The head of the loop is at the first of what is left. -/
theorem from_eq_cons
    {i : Nat}
    (hLt : i < e.netState.numConn) :
    e.from i = e.netState.activeConnections i ::
      e.from (i + 1) := by
  have hLength : i < e.netState.connections.length := by
    rw [NetState.length_connections]
    exact hLt
  rw [Endpoint.from, List.drop_eq_getElem_cons hLength]
  simp [NetState.connections, Endpoint.from]

theorem SameTable.keepsPlaces
    (hSame : SameTable e e') :
    KeepsPlaces k e e' := by
  intro d _ _
  rw [Endpoint.from, hSame.netState]
  rfl

/- A new entry is behind all others. -/
theorem TableAdds.keepsPlaces
    {x : TableEntry}
    (hAdds : TableAdds e x e') :
    KeepsPlaces k e e' := by
  intro d hLive _
  have hNe : d ≠ x.conn := by
    rintro rfl
    exact describe_ne_none_iff.mpr hLive hAdds.fresh.2
  rw [Endpoint.from, Endpoint.from, hAdds.connections,
    List.drop_append, List.mem_append]
  constructor
  · rintro (hd | hd)
    · exact hd
    · exact absurd (List.mem_singleton.mp
        (List.mem_of_mem_drop hd)) hNe
  · exact Or.inl

/-
  The last entry fills the gap: it keeps its place behind the
  index if the gap is there too, or if none is behind it.
-/
theorem TableDeletes.keepsPlaces
    {x : TableEntry}
    (hDeletes : TableDeletes cfg e x e')
    (hTable : TableInvariant e)
    (hOwn : FindsOwnEntry cfg e (.destablish x.conn))
    (hBehind : k ≤ e.netState.connections.idxOf x.conn ∨
      e.netState.numConn ≤ k) :
    KeepsPlaces k e e' := by
  rcases hDeletes.split hTable hOwn with
    ⟨before, own, behind, hConn, hEntries, hEntries'⟩
  have hList : e.netState.connections =
      before.map TableEntry.conn ++
        x.conn :: behind.map TableEntry.conn := by
    rw [NetState.connections_eq, hEntries, List.map_append,
      List.map_cons, hConn]
  have hList' : e'.netState.connections =
      before.map TableEntry.conn ++
        (TableEntry.fillGap cfg.flowIdentifier own
          behind).map TableEntry.conn := by
    rw [NetState.connections_eq, hEntries', List.map_append]
  have hPerm := TableEntry.fillGap_perm cfg.flowIdentifier
    own behind
  intro d _ hLive
  have hNe : d ≠ x.conn := by
    rintro rfl
    rw [← describe_ne_none_iff, hDeletes.describe,
      Function.update_self] at hLive
    exact hLive rfl
  rcases hBehind with hBehind | hEnd
  · -- the gap is behind the index
    have hFirst : x.conn ∉ before.map TableEntry.conn := by
      have hNodup := hTable.nodup
      rw [hList, List.nodup_append] at hNodup
      intro hx
      exact hNodup.2.2 _ hx _ (by simp) rfl
    rw [hList, List.idxOf_append_of_notMem hFirst,
      List.idxOf_cons_self, Nat.add_zero] at hBehind
    rw [Endpoint.from, Endpoint.from, hList, hList',
      List.drop_append_of_le_length hBehind,
      List.drop_append_of_le_length hBehind,
      List.mem_append, List.mem_append, List.mem_cons,
      hPerm.mem_iff, or_iff_right hNe]
  · -- no entry was behind the index
    have hEnd' : e'.netState.numConn ≤ k := by
      have hLength := congrArg List.length hList
      have hLength' := congrArg List.length hList'
      have hSame := hPerm.length_eq
      simp only [NetState.length_connections,
        List.length_append, List.length_cons]
        at hLength hLength'
      omega
    rw [from_eq_nil hEnd, from_eq_nil hEnd']

end Places

------------------------------------------------------------
-- What the API Keeps
------------------------------------------------------------

section Api

variable
    {fmt : PacketFormat P}
    {cfg : Config}
    {queued : PacketPtr → Prop}
    {e e' : Endpoint P}
    {call : ApiCall P}
    {move : AcceptMove}

/-
  What `nb__accept` keeps from one endpoint to the next,
  relative to the one it was called in.
-/
structure AcceptKeeps
    (k : Nat)
    (e e' : Endpoint P) : Prop where
  table : TableInvariant e'
  live : ∀ d, e.conns d ≠ none → e'.conns d ≠ none
  places : KeepsPlaces k e e'
  announces : Announces e e'

theorem AcceptStep.acceptKeeps
    {e₁ : Endpoint P}
    {k : Nat}
    (hKeeps : AcceptKeeps k e e₁)
    (hStep : AcceptStep fmt cfg queued e₁ move e') :
    AcceptKeeps k e e' := by
  have hLive : ∀ d, e₁.conns d ≠ none →
      e'.conns d ≠ none := by
    intro d hd
    rw [← describe_ne_none_iff] at hd ⊢
    rcases hStep.table with ⟨x, hAdds⟩ | hSame
    · rw [hAdds.describe, Function.update_apply]
      split
      · simp
      · exact hd
    · rw [hSame.describe]
      exact hd
  have hPlaces : KeepsPlaces k e₁ e' := by
    rcases hStep.table with ⟨x, hAdds⟩ | hSame
    · exact hAdds.keepsPlaces
    · exact hSame.keepsPlaces
  refine ⟨?_, fun d hd => hLive d (hKeeps.live d hd), ?_,
    hKeeps.announces.trans hStep.announces⟩
  · rcases hStep.table with ⟨x, hAdds⟩ | hSame
    · exact hAdds.tableInvariant hKeeps.table
    · exact hSame.tableInvariant hKeeps.table
  · intro d hd hd'
    have hd₁ := hKeeps.live d hd
    exact (hPlaces d hd₁ hd').trans (hKeeps.places d hd hd₁)

/-
  What a call in a callback keeps: the table is sound, a
  connection is live unless it is destablished, and it keeps
  its place behind an index if a destablished one is there.
-/
structure CallKeeps
    (k : Nat)
    (call : ApiCall P)
    (e e' : Endpoint P) : Prop where
  table : TableInvariant e'
  queued : QueuedOld e'
  live : ∀ d, e.conns d ≠ none →
    call ≠ .call (.destablish d) → e'.conns d ≠ none
  places : KeepsPlaces k e e'
  announces : Announces e e'

theorem Calls.keepsPlaces
    {k : Nat}
    {call : Call P}
    (hTable : TableInvariant e)
    (hOwn : FindsOwnEntry cfg e call)
    (hBehind : ∀ d, call = .destablish d →
      k ≤ e.netState.connections.idxOf d ∨
        e.netState.numConn ≤ k)
    (hCall : Calls fmt cfg e call e') :
    KeepsPlaces k e e' := by
  cases hCall.table with
  | adds hAdds => exact hAdds.keepsPlaces
  | deletes hDeletes =>
      exact hDeletes.keepsPlaces hTable hOwn (hBehind _ rfl)
  | same hSame => exact hSame.keepsPlaces

theorem ApiCalls.keeps
    {k : Nat}
    (hTable : TableInvariant e)
    (hQueued : QueuedOld e)
    (hOrderly : ∀ d, call = .call (.destablish d) →
      FindsOwnEntry cfg e (.destablish d) ∧
        (k ≤ e.netState.connections.idxOf d ∨
          e.netState.numConn ≤ k))
    (hApi : ApiCalls fmt cfg e call e') :
    CallKeeps k call e e' := by
  have hAccepts := hApi
  cases hApi with
  | @call _ call hCall =>
      have hOwn : FindsOwnEntry cfg e call := by
        cases call with
        | destablish d => exact (hOrderly d rfl).1
        | _ => trivial
      refine ⟨hCall.tableInvariant hTable hOwn,
        hCall.queuedOld hQueued, ?_, ?_, hCall.announces⟩
      · intro d hd hNot
        rcases Option.ne_none_iff_exists'.mp hd with
          ⟨conn, hConn⟩
        rcases hCall.kept hConn (fun hEq => hNot (hEq ▸ rfl))
          with ⟨conn', hConn', -⟩
        simp [hConn']
      · apply hCall.keepsPlaces hTable hOwn
        rintro d rfl
        exact (hOrderly d rfl).2
  | accept =>
      have hStart : AcceptKeeps k e e :=
        ⟨hTable, fun _ hd => hd, fun _ _ _ => Iff.rfl,
          .of_eq rfl⟩
      have hKeeps := ApiCalls.invariant (AcceptKeeps k e)
        (fun _ hEq => by cases hEq)
        (fun _ _ _ hKeeps hStep => hStep.acceptKeeps hKeeps)
        hQueued hStart hAccepts
      exact ⟨hKeeps.1.table, hKeeps.2,
        fun d hd _ => hKeeps.1.live d hd, hKeeps.1.places,
        hKeeps.1.announces⟩

end Api

------------------------------------------------------------
-- The Invariant of a Pass
------------------------------------------------------------

namespace PassPoint

/- The entry that the pass is working on. -/
def current : PassPoint → Option (Nat × ConnPtr)
| .inEstablished i c => some (i, c)
| .handles i c => some (i, c)
| .checks i c => some (i, c)
| _ => none

/- The connections that can still be told of their input. -/
def pending
    (e : Endpoint P) : PassPoint → List ConnPtr
| .outside => []
| .top i => e.from i
| .inEstablished i c => c :: e.from (i + 1)
| .handles i c => c :: e.from (i + 1)
| .checks i c => c :: e.from (i + 1)
| .inReadReady i _ => e.from (i + 1)

end PassPoint

/-
  The entry being worked on is live and in front of what is
  left. Who has had input all along was told of it once, or
  not yet while it is still pending.
-/
structure PassInvariant
    (s : PassState P) : Prop where
  table : TableInvariant s.endpoint
  queued : QueuedOld s.endpoint
  input : ∀ c, s.waiting c → HasInput s.endpoint c
  current : ∀ i c, s.point.current = some (i, c) →
    s.endpoint.conns c ≠ none ∧ c ∉ s.endpoint.from (i + 1)
  start : s.point ≠ .outside →
    s.before ≤ s.endpoint.events.length
  told : s.point ≠ .outside → ∀ c, s.waiting c →
    s.told c = if c ∈ s.point.pending s.endpoint then 0 else 1

section Invariant

variable
    {fmt : PacketFormat P}
    {cfg : Config}
    {s s' : PassState P}
    {call : Option (ApiCall P)}

/- How often a list of events tells of input. -/
theorem count_told_append
    {events : List (QueueEvent × ConnPtr)}
    {before : Nat}
    (more : List (QueueEvent × ConnPtr))
    (hBefore : before ≤ events.length)
    (c : ConnPtr) :
    ((events ++ more).drop before).count (.readReady, c) =
      (events.drop before).count (.readReady, c) +
        more.count (.readReady, c) := by
  rw [List.drop_append_of_le_length hBefore,
    List.count_append]

/- Being told of a parked packet is another event. -/
theorem Announces.told
    {e e' : Endpoint P}
    {before : Nat}
    (hAnnounces : Announces e e')
    (hBefore : before ≤ e.events.length)
    (c : ConnPtr) :
    before ≤ e'.events.length ∧
      (e'.events.drop before).count (.readReady, c) =
        (e.events.drop before).count (.readReady, c) := by
  rcases hAnnounces with ⟨listeners, hEvents⟩
  have hNone : (listeners.map (fun d =>
      ((QueueEvent.acceptReady, d) : QueueEvent × ConnPtr))
      ).count (.readReady, c) = 0 := by
    rw [List.count_eq_zero, List.mem_map]
    rintro ⟨d, -, hEq⟩
    cases hEq
  rw [hEvents, count_told_append _ hBefore, hNone,
    List.length_append]
  exact ⟨Nat.le_add_right_of_le hBefore, rfl⟩

/- The entry at the head of the loop. -/
theorem TableInvariant.atTop
    {e : Endpoint P}
    {i : Nat}
    {c : ConnPtr}
    (hTable : TableInvariant e)
    (hLt : i < e.netState.numConn)
    (hAt : e.netState.activeConnections i = c) :
    e.from i = c :: e.from (i + 1) ∧
      e.conns c ≠ none ∧ c ∉ e.from (i + 1) := by
  have hCons := from_eq_cons hLt
  rw [hAt] at hCons
  have hNodup : (e.from i).Nodup :=
    hTable.nodup.sublist (List.drop_sublist i _)
  have hMem : c ∈ e.netState.connections := by
    apply List.mem_of_mem_drop (i := i)
    change c ∈ e.from i
    rw [hCons]
    exact List.mem_cons_self
  rw [hCons, List.nodup_cons] at hNodup
  exact ⟨hCons, (hTable.live c).mp hMem, hNodup.1⟩

/- The callback of an entry is called, or it is skipped. -/
theorem PassInvariant.worksOn
    {i : Nat}
    {c : ConnPtr}
    {point : PassPoint}
    {e : Endpoint P}
    (hInv : PassInvariant s)
    (hPoint : s.point = .top i)
    (hLt : i < s.endpoint.netState.numConn)
    (hAt : s.endpoint.netState.activeConnections i = c)
    (hCurrent : point.current = some (i, c))
    (hPending : point.pending e = c :: e.from (i + 1))
    (hConns : e.conns = s.endpoint.conns)
    (hNetState : e.netState = s.endpoint.netState)
    (hHost : e.myLocalHostId = s.endpoint.myLocalHostId)
    (hNext : e.nextPacket = s.endpoint.nextPacket)
    (hEvents : ∀ before ≤ s.endpoint.events.length,
      before ≤ e.events.length ∧ ∀ d,
        (e.events.drop before).count (.readReady, d) =
          (s.endpoint.events.drop before).count
            (.readReady, d)) :
    PassInvariant (s.goesOn point e) := by
  have hActive : s.point ≠ .outside := by
    rw [hPoint]
    exact PassPoint.noConfusion
  rcases hInv.table.atTop hLt hAt with ⟨hCons, hLive, hNot⟩
  have hFrom : ∀ k, e.from k = s.endpoint.from k := by
    intro k
    rw [Endpoint.from, hNetState]
    rfl
  have hStart := hInv.start hActive
  refine ⟨?_, ?_, fun d hd => hd.2, ?_,
    fun _ => (hEvents _ hStart).1, ?_⟩
  · exact (SameTable.of_conns_eq hConns hNetState hHost
      ).tableInvariant hInv.table
  · have hOld : QueuedIn (· < s.endpoint.nextPacket) e :=
      hInv.queued.of_conns_eq hConns
    change QueuedIn (· < e.nextPacket) e
    rw [hNext]
    exact hOld
  · intro j d hd
    cases hCurrent.symm.trans hd
    refine ⟨?_, ?_⟩
    · change e.conns c ≠ none
      rw [hConns]
      exact hLive
    · change c ∉ e.from (i + 1)
      rw [hFrom]
      exact hNot
  · intro _ d hd
    have hTold := hInv.told hActive d hd.1
    rw [hPoint] at hTold
    change s.told d = if d ∈ s.endpoint.from i then 0 else 1
      at hTold
    change (e.events.drop s.before).count (.readReady, d) =
      if d ∈ point.pending e then 0 else 1
    rw [(hEvents _ hStart).2, hPending, hFrom, ← hCons]
    exact hTold

/- A call, in the code of the process or in a callback. -/
theorem PassInvariant.calls
    {e : Endpoint P}
    {call : ApiCall P}
    (hInv : PassInvariant s)
    (hPoint : s.point = .outside ∨ (∃ i c,
      s.point = .inEstablished i c ∨
        s.point = .inReadReady i c))
    (hOrderly : Orderly cfg s (some call))
    (hCall : ApiCalls fmt cfg s.endpoint call e) :
    PassInvariant (s.goesOn s.point e) := by
  -- what `Orderly` says, for any index the pass has reached
  have hKeeps : ∀ k, (∀ i, s.point.index = some i →
      k = i + 1) →
      (s.point.index = none →
        s.endpoint.netState.numConn ≤ k) →
      CallKeeps k call s.endpoint e := by
    intro k hIndex hOutside
    refine hCall.keeps hInv.table hInv.queued ?_
    rintro d rfl
    refine ⟨hOrderly.1, ?_⟩
    cases hAt : s.point.index with
    | none => exact Or.inr (hOutside hAt)
    | some i =>
        rw [hIndex i hAt]
        exact hOrderly.2.1 i hAt
  have hBack : ∀ i c, s.point = .inEstablished i c ∨
      s.point = .inReadReady i c →
      CallKeeps (i + 1) call s.endpoint e := by
    intro i c hBack
    apply hKeeps
    · intro j hj
      rcases hBack with hBack | hBack <;>
        · rw [hBack] at hj
          cases hj
          rfl
    · intro hNone
      rcases hBack with hBack | hBack <;>
        · rw [hBack] at hNone
          cases hNone
  -- a connection with input all along was live all along
  have hLive : ∀ d, s.waiting d ∧ HasInput e d →
      s.endpoint.conns d ≠ none ∧ e.conns d ≠ none := by
    rintro d ⟨hWaiting, conn', hConn', -⟩
    rcases hInv.input d hWaiting with ⟨conn, hConn, -⟩
    exact ⟨by simp [hConn], by simp [hConn']⟩
  -- and is told of it as before, and pending if it was
  have hTold : ∀ i c, s.point = .inEstablished i c ∨
      s.point = .inReadReady i c → ∀ d,
      s.waiting d ∧ HasInput e d →
      (e.events.drop s.before).count (.readReady, d) =
        if d ∈ s.point.pending e then 0 else 1 := by
    intro i c hAt d hd
    have hActive : s.point ≠ .outside := by
      rcases hAt with hAt | hAt <;>
        · rw [hAt]
          exact PassPoint.noConfusion
    have hPlaces := (hBack i c hAt).places d (hLive d hd).1
      (hLive d hd).2
    have hSame := (hBack i c hAt).announces.told
      (hInv.start hActive) d
    have hPending : d ∈ s.point.pending e ↔
        d ∈ s.point.pending s.endpoint := by
      rcases hAt with hAt | hAt <;> rw [hAt]
      · exact List.mem_cons.trans
          ((or_congr_right hPlaces).trans
            List.mem_cons.symm)
      · exact hPlaces
    rw [hSame.2, if_congr hPending rfl rfl]
    exact hInv.told hActive d hd.1
  rcases hPoint with hOut | ⟨i, c, hAt⟩
  · have hAll := hKeeps s.endpoint.netState.numConn
      (fun i hi => by rw [hOut] at hi; cases hi)
      (fun _ => Nat.le_refl _)
    refine ⟨hAll.table, hAll.queued, fun d hd => hd.2, ?_,
      fun hActive => absurd hOut hActive,
      fun hActive => absurd hOut hActive⟩
    intro j d hd
    change s.point.current = _ at hd
    rw [hOut] at hd
    cases hd
  · have hActive : s.point ≠ .outside := by
      rcases hAt with hAt | hAt <;>
        · rw [hAt]
          exact PassPoint.noConfusion
    have hAll := hBack i c hAt
    refine ⟨hAll.table, hAll.queued, fun d hd => hd.2, ?_,
      fun _ => (hAll.announces.told (hInv.start hActive)
        c).1, fun _ => hTold i c hAt⟩
    intro j d hd
    change s.point.current = _ at hd
    rcases hInv.current j d hd with ⟨hOld, hNot⟩
    rcases hAt with hAt | hAt
    · -- its own connection is not destablished
      rw [hAt] at hd
      cases hd
      have hStays := hAll.live c hOld (by
        rintro rfl
        have hOwn := hOrderly.2.2
        rw [hAt] at hOwn
        exact hOwn rfl)
      exact ⟨hStays, fun hIn =>
        hNot ((hAll.places c hOld hStays).mp hIn)⟩
    · rw [hAt] at hd
      cases hd

/- Every step of the process keeps the invariant. -/
theorem PassInvariant.step
    (hInv : PassInvariant s)
    (hOrderly : Orderly cfg s call)
    (hStep : PassStep fmt cfg s call s') :
    PassInvariant s' := by
  cases hStep with
  | calls hPoint hCall =>
      exact hInv.calls hPoint hOrderly hCall
  | begins hPoint =>
      refine ⟨hInv.table, hInv.queued, fun _ hc => hc, ?_,
        fun _ => Nat.le_refl _, ?_⟩
      · intro i c hCurrent
        cases hCurrent
      · rintro - c ⟨conn, hConn, -⟩
        have hMem : c ∈ s.endpoint.from 0 := by
          rw [Endpoint.from, List.drop_zero,
            hInv.table.live c, hConn]
          exact Option.some_ne_none conn
        change (s.endpoint.events.drop
          s.endpoint.events.length).count _ =
            if c ∈ s.endpoint.from 0 then 0 else 1
        rw [if_pos hMem, List.drop_length, List.count_nil]
  | ends hPoint hEnd =>
      refine ⟨hInv.table, hInv.queued, fun d hd => hd.2, ?_,
        fun hActive => absurd rfl hActive,
        fun hActive => absurd rfl hActive⟩
      intro i c hCurrent
      cases hCurrent
  | @established i c conn hPoint hLt hAt hConn hSignaled =>
      refine hInv.worksOn hPoint hLt hAt rfl rfl rfl rfl rfl
        rfl ?_
      intro before hBefore
      refine ⟨?_, fun d => ?_⟩
      · exact Nat.le_trans hBefore (by
          simp [Endpoint.notified])
      · change ((s.endpoint.events ++
          [(QueueEvent.established, c)]).drop before
          ).count _ = _
        rw [count_told_append _ hBefore]
        rfl
  | skipped hPoint hLt hAt hConn hNot =>
      exact hInv.worksOn hPoint hLt hAt rfl rfl rfl rfl rfl
        rfl (fun _ hBefore => ⟨hBefore, fun _ => rfl⟩)
  | @returned i c hPoint =>
      have hActive : s.point ≠ .outside := by
        rw [hPoint]
        exact PassPoint.noConfusion
      refine ⟨hInv.table, hInv.queued, fun d hd => hd.2, ?_,
        fun _ => hInv.start hActive, ?_⟩
      · intro j d hd
        apply hInv.current j d
        rw [hPoint]
        exact hd
      · intro _ d hd
        have hTold := hInv.told hActive d hd.1
        rw [hPoint] at hTold
        exact hTold
  | @handled i c conn hPoint hConn =>
      have hActive : s.point ≠ .outside := by
        rw [hPoint]
        exact PassPoint.noConfusion
      have hSame : SameTable s.endpoint
          (s.endpoint.setConn c conn.handled) :=
        .setConn hConn rfl
      refine ⟨hSame.tableInvariant hInv.table, ?_,
        fun d hd => hd.2, ?_, fun _ => hInv.start hActive, ?_⟩
      · exact hInv.queued.assign hConn rfl (fun _ hx => hx)
      · intro j d hd
        have hCurrent := hInv.current j d (by
          rw [hPoint]
          exact hd)
        refine ⟨?_, hCurrent.2⟩
        rw [← describe_ne_none_iff] at hCurrent ⊢
        change (s.endpoint.setConn c conn.handled).describe d
          ≠ none
        rw [hSame.describe]
        exact hCurrent.1
      · intro _ d hd
        have hTold := hInv.told hActive d hd.1
        rw [hPoint] at hTold
        exact hTold
  | @readReady i c conn hPoint hConn hInput =>
      have hActive : s.point ≠ .outside := by
        rw [hPoint]
        exact PassPoint.noConfusion
      have hStart := hInv.start hActive
      have hNot := (hInv.current i c (by rw [hPoint]; rfl)).2
      refine ⟨?_, hInv.queued, fun d hd => hd.2, ?_, ?_, ?_⟩
      · have hSame : SameTable s.endpoint
            (s.endpoint.notified .readReady c) :=
          .of_conns_eq rfl rfl rfl
        exact hSame.tableInvariant hInv.table
      · intro j d hd
        cases hd
      · intro _
        exact Nat.le_trans hStart (by
          simp [PassState.goesOn, Endpoint.notified])
      · intro _ d hd
        have hTold := hInv.told hActive d hd.1
        rw [hPoint] at hTold
        change s.told d = if d ∈ c :: s.endpoint.from (i + 1)
          then 0 else 1 at hTold
        change ((s.endpoint.events ++
            [(QueueEvent.readReady, c)]).drop s.before
            ).count (QueueEvent.readReady, d) =
          if d ∈ s.endpoint.from (i + 1) then 0 else 1
        rw [count_told_append _ hStart]
        change s.told d + _ = _
        rw [hTold]
        by_cases hEq : d = c
        · -- it is told now, and not pending any more
          subst hEq
          simp [hNot]
        · simp [hEq, Ne.symm hEq]
  | @quiet i c conn hPoint hConn hEmpty =>
      have hActive : s.point ≠ .outside := by
        rw [hPoint]
        exact PassPoint.noConfusion
      refine ⟨hInv.table, hInv.queued, fun d hd => hd.2, ?_,
        fun _ => hInv.start hActive, ?_⟩
      · intro j d hd
        cases hd
      · intro _ d hd
        have hNe : d ≠ c := by
          rintro rfl
          rcases hInv.input d hd.1 with
            ⟨conn', hConn', hInput⟩
          cases hConn.symm.trans hConn'
          exact hInput hEmpty
        have hTold := hInv.told hActive d hd.1
        rw [hPoint] at hTold
        change s.told d = if d ∈ c :: s.endpoint.from (i + 1)
          then 0 else 1 at hTold
        rw [if_congr (List.mem_cons.trans
          (or_iff_right hNe)) rfl rfl] at hTold
        exact hTold
  | @moved i c hPoint =>
      have hActive : s.point ≠ .outside := by
        rw [hPoint]
        exact PassPoint.noConfusion
      refine ⟨hInv.table, hInv.queued, fun d hd => hd.2, ?_,
        fun _ => hInv.start hActive, ?_⟩
      · intro j d hd
        cases hd
      · intro _ d hd
        have hTold := hInv.told hActive d hd.1
        rw [hPoint] at hTold
        exact hTold

/- The invariant says what dispatching is for. -/
theorem PassInvariant.dispatches
    (hInv : PassInvariant s) :
    Dispatches s := by
  refine ⟨?_, ?_⟩
  · intro c hAccess
    unfold PassState.accesses at hAccess
    cases hPoint : s.point with
    | top i =>
        rw [hPoint] at hAccess
        dsimp only at hAccess
        split at hAccess
        · next hLt =>
            cases hAccess
            exact (hInv.table.atTop hLt rfl).2.1
        · cases hAccess
    | handles i d =>
        rw [hPoint] at hAccess
        cases hAccess
        exact (hInv.current i c (by rw [hPoint]; rfl)).1
    | checks i d =>
        rw [hPoint] at hAccess
        cases hAccess
        exact (hInv.current i c (by rw [hPoint]; rfl)).1
    | _ =>
        rw [hPoint] at hAccess
        cases hAccess
  · intro i hPoint hEnd c hWaiting
    have hTold := hInv.told (by
      rw [hPoint]
      exact PassPoint.noConfusion) c hWaiting
    have hNil := from_eq_nil (Nat.le_of_not_lt hEnd)
    rw [hPoint] at hTold
    change s.told c = if c ∈ s.endpoint.from i then 0 else 1
      at hTold
    rw [hNil, if_neg List.not_mem_nil] at hTold
    exact hTold

end Invariant

------------------------------------------------------------
-- Runs
------------------------------------------------------------

/- A process that has initialized its stack. -/
def PassState.starts
    (e : Endpoint P) : PassState P where
  point := .outside
  endpoint := e
  waiting := fun _ => False
  before := 0

/-
  Dispatching survives callbacks that open and close
  connections, as long as they are orderly.
-/
theorem dispatches_of_run
    {fmt : PacketFormat P}
    {cfg : Config}
    {fresh : NetState}
    {e : Endpoint P}
    {s : PassState P}
    {calls : List (Option (ApiCall P))}
    (hConns : ∀ c, e.conns c = none)
    (hRun : Run (Guarded (Orderly cfg) (PassStep fmt cfg))
      (PassState.starts (nbNetInit fresh e)) calls s) :
    Dispatches s := by
  have hInit : PassInvariant
      (PassState.starts (nbNetInit fresh e)) := by
    refine ⟨tableInvariant_netInit fresh hConns, ?_,
      fun _ hc => hc.elim, ?_, fun hActive => absurd rfl hActive,
      fun hActive => absurd rfl hActive⟩
    · intro c conn x hConn
      rw [show (PassState.starts (nbNetInit fresh e)
        ).endpoint.conns c = none from hConns c] at hConn
      cases hConn
    · intro i c hCurrent
      cases hCurrent
  exact (hRun.invariant (fun _ _ _ hInv hStep =>
    hInv.step hStep.1 hStep.2) hInit).dispatches

/-
  A callback that destablishes its own connection when it is
  told that it is established: the pass marks it as handled.
-/
theorem not_forall_dispatches :
    ¬ ∀ (fmt : PacketFormat PacketBuffer) cfg fresh e s calls,
      (∀ c, e.conns c = none) →
        Run (PassStep fmt cfg)
          (PassState.starts (nbNetInit fresh e)) calls s →
          Dispatches s := by
  intro hAll
  have hOnce : (do
      let e₁ ← establishOne 1 bareStack
      let e₂ ← nbDestablish (plainConfig .srcDstIdentifier) 1
        (e₁.notified .established 1)
      return (e₁.netState.numConn,
        e₁.netState.activeConnections 0,
        (e₁.conns 1).map Connection.signalingState,
        (e₂.conns 1).isNone)) =
      .ok (1, 1, some .signaled, true) := by
    decide +kernel
  rcases bind_eq_ok_iff.mp hOnce with ⟨e₁, hFirst, hRest⟩
  rcases bind_eq_ok_iff.mp hRest with ⟨e₂, hSecond, hEnd⟩
  simp only [pure_eq_ok, Except.ok.injEq, Prod.mk.injEq,
    Option.isNone_iff_eq_none, Option.map_eq_some_iff]
    at hEnd
  rcases hEnd with ⟨hNum, hAt, ⟨conn, hConn, hState⟩, hFreed⟩
  let s₀ := PassState.starts bareStack
  let s₁ := s₀.goesOn .outside e₁
  let s₃ := s₁.begins.goesOn (.inEstablished 0 1)
    (e₁.notified .established 1)
  let s₄ := s₃.goesOn s₃.point e₂
  have hOpen : PassStep netPacketFormat
      (plainConfig .srcDstIdentifier) s₀
      (some (.call (.establish 1 blankConnection 9 8 7))) s₁ :=
    .calls (Or.inl rfl)
      (.call (calls_establishOne (by decide) rfl hFirst))
  have hTell : PassStep netPacketFormat
      (plainConfig .srcDstIdentifier) s₁.begins none s₃ :=
    .established rfl
      (by rw [show s₁.begins.endpoint = e₁ from rfl, hNum]
          decide) hAt hConn hState
  have hFree : PassStep netPacketFormat
      (plainConfig .srcDstIdentifier) s₃
      (some (.call (.destablish 1))) s₄ :=
    .calls (Or.inr ⟨0, 1, Or.inl rfl⟩)
      (.call (.destablish hSecond))
  have hDispatches := hAll netPacketFormat
    (plainConfig .srcDstIdentifier) blankNetState
    bareEndpoint _ _ (fun _ => rfl)
    (.cons hOpen (.cons (.begins rfl) (.cons hTell
      (.cons hFree (.cons (.returned rfl) (.nil _))))))
  exact hDispatches.live 1 rfl hFreed

/- A callback that opens another connection. -/
theorem dispatches_of_run_one :
    ∃ s calls, calls ≠ [] ∧
      Run (Guarded (Orderly (plainConfig .srcDstIdentifier))
        (PassStep netPacketFormat
          (plainConfig .srcDstIdentifier)))
        (PassState.starts bareStack) calls s ∧
      Dispatches s := by
  have hOnce : (do
      let e₁ ← establishOne 1 bareStack
      let e₂ ← establishOne 2 (e₁.notified .established 1)
      return (e₁.netState.numConn,
        e₁.netState.activeConnections 0,
        (e₁.conns 1).map Connection.signalingState,
        (e₁.conns 2).isNone)) =
      .ok (1, 1, some .signaled, true) := by
    decide +kernel
  rcases bind_eq_ok_iff.mp hOnce with ⟨e₁, hFirst, hRest⟩
  rcases bind_eq_ok_iff.mp hRest with ⟨e₂, hSecond, hEnd⟩
  simp only [pure_eq_ok, Except.ok.injEq, Prod.mk.injEq,
    Option.isNone_iff_eq_none, Option.map_eq_some_iff]
    at hEnd
  rcases hEnd with ⟨hNum, hAt, ⟨conn, hConn, hState⟩, hFree⟩
  let s₀ := PassState.starts bareStack
  let s₁ := s₀.goesOn .outside e₁
  let s₃ := s₁.begins.goesOn (.inEstablished 0 1)
    (e₁.notified .established 1)
  let s₄ := s₃.goesOn s₃.point e₂
  have hOpen : PassStep netPacketFormat
      (plainConfig .srcDstIdentifier) s₀
      (some (.call (.establish 1 blankConnection 9 8 7))) s₁ :=
    .calls (Or.inl rfl)
      (.call (calls_establishOne (by decide) rfl hFirst))
  have hTell : PassStep netPacketFormat
      (plainConfig .srcDstIdentifier) s₁.begins none s₃ :=
    .established rfl
      (by rw [show s₁.begins.endpoint = e₁ from rfl, hNum]
          decide) hAt hConn hState
  have hOther : PassStep netPacketFormat
      (plainConfig .srcDstIdentifier) s₃
      (some (.call (.establish 2 blankConnection 9 8 7))) s₄ :=
    .calls (Or.inr ⟨0, 1, Or.inl rfl⟩)
      (.call (calls_establishOne (by decide) hFree hSecond))
  have hRun : Run (Guarded
      (Orderly (plainConfig .srcDstIdentifier))
      (PassStep netPacketFormat
        (plainConfig .srcDstIdentifier))) s₀ _
      (s₄.goesOn (.handles 0 1) e₂) :=
    .cons ⟨by trivial, hOpen⟩
      (.cons ⟨by trivial, .begins rfl⟩
        (.cons ⟨by trivial, hTell⟩
          (.cons ⟨by trivial, hOther⟩
            (.cons ⟨by trivial, .returned rfl⟩ (.nil _)))))
  exact ⟨_, _, List.cons_ne_nil _ _, hRun,
    dispatches_of_run (fun _ => rfl) hRun⟩

end NetBlocks
