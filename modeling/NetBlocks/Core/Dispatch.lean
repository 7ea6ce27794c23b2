import NetBlocks.Core.Framework

/-
  `nb__cycle_connections`, which tells the user of each
  connection what happened on it.

  Main declarations:
    * `Callback`
    * `cycleConnection` and `cycleConnections`
    * `cycleConnections_invariant`
-/

namespace NetBlocks

open Except

variable {P U : Type}

------------------------------------------------------------
-- Callbacks
------------------------------------------------------------

/-
  What `callback_f` does to the process: it may call the API,
  and has a state of its own, of type `U`.
-/
abbrev Callback (P U : Type) :=
  QueueEvent → ConnPtr → Endpoint P × U →
    Except Fault (Endpoint P × U)

/- Call the callback of the connection at `c`. -/
def notify
    (callback : Callback P U)
    (event : QueueEvent)
    (c : ConnPtr)
    (s : Endpoint P × U) :
    Except Fault (Endpoint P × U) :=
  callback event c
    ({ s.1 with events := s.1.events ++ [(event, c)] }, s.2)

------------------------------------------------------------
-- The Pass over the Table
------------------------------------------------------------

/- The callback for a connection that was signaled. -/
def cycleEstablished
    (callback : Callback P U)
    (c : ConnPtr)
    (s : Endpoint P × U) :
    Except Fault (Endpoint P × U) := do
  let conn ← s.1.loadConn c
  if conn.signalingState = .signaled then
    let s ← notify callback .established c s
    let _ ← s.1.loadConn c
    return (s.1.modifyConn c (fun conn =>
      { conn with signalingState := .signalHandled }), s.2)
  else
    return s

/- The callback for a connection with something to read. -/
def cycleReadReady
    (callback : Callback P U)
    (c : ConnPtr)
    (s : Endpoint P × U) :
    Except Fault (Endpoint P × U) := do
  let conn ← s.1.loadConn c
  if conn.inputQueue ≠ [] then
    notify callback .readReady c s
  else
    return s

/- The body of the loop. -/
def cycleConnection
    (callback : Callback P U)
    (c : ConnPtr)
    (s : Endpoint P × U) :
    Except Fault (Endpoint P × U) := do
  let s ← cycleEstablished callback c s
  cycleReadReady callback c s

/- The loop over the entries from `i` on. -/
def cycleLoop
    (callback : Callback P U) :
    Nat → Nat → Endpoint P × U →
      Except Fault (Endpoint P × U)
| 0, _, _ => .error .diverges
| fuel + 1, i, s =>
    if i < s.1.netState.numConn then do
      let c := s.1.netState.activeConnections i
      let s ← cycleConnection callback c s
      cycleLoop callback fuel (i + 1) s
    else
      .ok s

/-
  `nb__cycle_connections`. The table has at most 512 entries
  in use at any time, which bounds the index.
-/
def cycleConnections
    (callback : Callback P U)
    (s : Endpoint P × U) :
    Except Fault (Endpoint P × U) :=
  cycleLoop callback (maxActiveConnections + 1) 0 s

------------------------------------------------------------
-- Invariants of a Pass
------------------------------------------------------------

section Invariant

variable
    {callback : Callback P U}
    {c : ConnPtr}
    {s s' : Endpoint P × U}
    {inv : Endpoint P × U → Prop}
    (hNotify : ∀ event c s s', event ≠ .acceptReady →
      inv s → notify callback event c s = .ok s' → inv s')
    (hHandled : ∀ c conn s, inv s →
      s.1.conns c = some conn →
      inv (s.1.setConn c { conn with
        signalingState := .signalHandled }, s.2))

include hNotify hHandled in
theorem cycleEstablished_invariant
    (hInv : inv s)
    (hCycle : cycleEstablished callback c s = .ok s') :
    inv s' := by
  unfold cycleEstablished at hCycle
  rcases bind_eq_ok_iff.mp hCycle with ⟨conn, -, hRest⟩
  split at hRest
  · rcases bind_eq_ok_iff.mp hRest with
      ⟨s₁, hCall, hRest⟩
    rcases bind_eq_ok_iff.mp hRest with ⟨conn₁, hLoad, hEnd⟩
    have hConn := Endpoint.loadConn_eq_ok_iff.mp hLoad
    rw [Endpoint.modifyConn_eq hConn] at hEnd
    cases hEnd
    exact hHandled c conn₁ s₁
      (hNotify _ _ _ _ (by simp) hInv hCall) hConn
  · cases hRest
    exact hInv

include hNotify in
theorem cycleReadReady_invariant
    (hInv : inv s)
    (hCycle : cycleReadReady callback c s = .ok s') :
    inv s' := by
  unfold cycleReadReady at hCycle
  rcases bind_eq_ok_iff.mp hCycle with ⟨conn, -, hRest⟩
  split at hRest
  · exact hNotify _ _ _ _ (by simp) hInv hRest
  · cases hRest
    exact hInv

include hNotify hHandled in
theorem cycleLoop_invariant
    {fuel i : Nat}
    (hInv : inv s)
    (hCycle : cycleLoop callback fuel i s = .ok s') :
    inv s' := by
  induction fuel generalizing i s with
  | zero => cases hCycle
  | succ fuel ih =>
      rw [cycleLoop] at hCycle
      split at hCycle
      · rcases bind_eq_ok_iff.mp hCycle with
          ⟨s₂, hBody, hRest⟩
        rcases bind_eq_ok_iff.mp hBody with
          ⟨s₁, hFirst, hSecond⟩
        exact ih (cycleReadReady_invariant hNotify
          (cycleEstablished_invariant hNotify hHandled hInv
            hFirst) hSecond) hRest
      · cases hCycle
        exact hInv

/-
  What the callbacks and the assignment keep, a pass keeps.
  No callback it makes is for a packet to accept.
-/
theorem cycleConnections_invariant
    (hNotify : ∀ event c s s', event ≠ .acceptReady →
      inv s → notify callback event c s = .ok s' → inv s')
    (hHandled : ∀ c conn s, inv s →
      s.1.conns c = some conn →
      inv (s.1.setConn c { conn with
        signalingState := .signalHandled }, s.2))
    (hInv : inv s)
    (hCycle : cycleConnections callback s = .ok s') :
    inv s' :=
  cycleLoop_invariant hNotify hHandled hInv hCycle

end Invariant

end NetBlocks
