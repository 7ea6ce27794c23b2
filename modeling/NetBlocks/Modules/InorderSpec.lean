import NetBlocks.Modules.Inorder

/-
  The inorder module's ingress as a pure function of the
  members of a connection it works on, the numbers of the
  packets, and the lengths of their payloads.

  Main declarations:
    * `InorderView`
    * `absorb` and `drainView`
    * `InorderModule.hookIngress_eq`
-/

namespace NetBlocks

open Except

variable {P : Type}

------------------------------------------------------------
-- Views
------------------------------------------------------------

/- The members the inorder module works on. -/
structure InorderView where
  inputQueue : DataQueue
  lastRecvSequence : BitVec 32
  inorderBuffer : Slot → Option PacketPtr
  maxOooSequence : BitVec 32

namespace Connection

def inorderView
    (conn : Connection) : InorderView :=
  { inputQueue := conn.inputQueue
    lastRecvSequence := conn.lastRecvSequence
    inorderBuffer := conn.inorderBuffer
    maxOooSequence := conn.maxOooSequence }

def withInorderView
    (conn : Connection)
    (v : InorderView) : Connection :=
  { conn with
    inputQueue := v.inputQueue
    lastRecvSequence := v.lastRecvSequence
    inorderBuffer := v.inorderBuffer
    maxOooSequence := v.maxOooSequence }

@[simp] theorem withInorderView_inorderView
    (conn : Connection)
    (v : InorderView) :
    (conn.withInorderView v).inorderView = v :=
  rfl

@[simp] theorem withInorderView_self
    (conn : Connection) :
    conn.withInorderView conn.inorderView = conn :=
  rfl

@[simp] theorem withInorderView_withInorderView
    (conn : Connection)
    (v w : InorderView) :
    (conn.withInorderView v).withInorderView w =
      conn.withInorderView w :=
  rfl

end Connection

------------------------------------------------------------
-- Delivering and Draining
------------------------------------------------------------

/- Queue a packet, unless its payload is empty. -/
def enqueue
    (len : PacketPtr → Int)
    (p : PacketPtr)
    (v : InorderView) : Except Fault InorderView :=
  if len p ≠ 0 then do
    let inputQueue ← insertDataQueue v.inputQueue p (len p)
    return { v with inputQueue }
  else
    return v

/- Deliver the packet of number `i` from its slot. -/
def takeSlot
    (i : BitVec 32)
    (v : InorderView) : InorderView :=
  { v with
    lastRecvSequence := i
    inorderBuffer :=
      Function.update v.inorderBuffer (slot i) none }

/- The drain loop, which also lists the packets it takes. -/
def drainView
    (len : PacketPtr → Int) :
    Nat → BitVec 32 → InorderView →
      Except Fault (InorderView × List PacketPtr)
| 0, _, _ => .error .diverges
| fuel + 1, i, v =>
    if i ≤ v.maxOooSequence then
      match v.inorderBuffer (slot i) with
      | none => .ok (v, [])
      | some p => do
          let v ← enqueue len p v
          let (v, taken) ← drainView len fuel (i + 1)
            (takeSlot i v)
          return (v, p :: taken)
    else
      .ok (v, [])

/- Shelve a packet in the slot of its number. -/
def shelve
    (number : BitVec 32)
    (p : PacketPtr)
    (v : InorderView) : InorderView :=
  { v with
    inorderBuffer :=
      Function.update v.inorderBuffer (slot number) (some p)
    maxOooSequence :=
      if v.maxOooSequence < number then
        number
      else
        v.maxOooSequence }

/-
  What a packet of a number does to a view, and the packets
  taken from the buffer on the way.
-/
def absorb
    (strategy : InorderStrategy)
    (len : PacketPtr → Int)
    (number : BitVec 32)
    (p : PacketPtr)
    (v : InorderView) :
    Except Fault
      (HookStatus × InorderView × List PacketPtr) :=
  match strategy with
  | .dropOutOfOrder =>
      if v.lastRecvSequence < number then do
        let v ← enqueue len p
          { v with lastRecvSequence := number }
        return (.hookContinue, v, [])
      else
        return (.hookDrop, v, [])
  | .holdForever =>
      if v.lastRecvSequence = 0 ∨
          number = v.lastRecvSequence + 1 then do
        let v ← enqueue len p v
        let (v, taken) ← drainView len InorderModule.drainFuel
          (number + 1) { v with lastRecvSequence := number }
        return (.hookContinue, v, taken)
      else
        return (.hookDrop, shelve number p v, [])
  | .noInorder => do
      let v ← enqueue len p v
      return (.hookContinue, v, [])

------------------------------------------------------------
-- The Module Computes the View
------------------------------------------------------------

namespace PacketFormat

variable (fmt : PacketFormat P)

/- The payload length by the header a packet is sent with. -/
def sentLen
    (x : P) : Int :=
  (fmt.getWord .totalLen x -
    BitVec.ofNat 32 fmt.headerLen).toInt

variable {fmt}

theorem getWord_restoreTotalLen
    (x : P) :
    fmt.getWord .computedTotalLen (fmt.restoreTotalLen x) =
      fmt.getWord .totalLen x := by
  rw [restoreTotalLen, getWord_setInteger_self rfl, getWord]

theorem get_restoreTotalLen
    {f : Field}
    (hNe : f ≠ .computedTotalLen)
    (x : P) :
    fmt.getInteger f (fmt.restoreTotalLen x) =
      fmt.getInteger f x :=
  fmt.get_set_ne .computedTotalLen f _ _
    (Field.fits_of_bits_ne (by decide) _) hNe

theorem read_restoreTotalLen
    (n : Nat)
    (x : P) :
    fmt.readPayload n (fmt.restoreTotalLen x) =
      fmt.readPayload n x :=
  fmt.read_set .computedTotalLen _ _ _
    (Field.fits_of_bits_ne (by decide) _)

/- The restored length is the one sent. -/
theorem payloadLen_restoreTotalLen
    (x : P) :
    fmt.payloadLen (fmt.restoreTotalLen x) =
      fmt.sentLen x := by
  rw [payloadLen, getWord_restoreTotalLen, sentLen]

@[simp] theorem sentLen_restoreTotalLen
    (x : P) :
    fmt.sentLen (fmt.restoreTotalLen x) = fmt.sentLen x := by
  rw [sentLen, getWord, get_restoreTotalLen (by decide),
    sentLen, getWord]

end PacketFormat

theorem PacketFormat.restoreTotalLen_restoreTotalLen
    {fmt : PacketFormat P}
    (x : P) :
    fmt.restoreTotalLen (fmt.restoreTotalLen x) =
      fmt.restoreTotalLen x := by
  have hTotal :
      fmt.getInteger .totalLen (fmt.restoreTotalLen x) =
        fmt.getInteger .computedTotalLen
          (fmt.restoreTotalLen x) := by
    rw [PacketFormat.get_restoreTotalLen (by decide),
      PacketFormat.restoreTotalLen,
      fmt.get_set_self .computedTotalLen _ _
        (Field.fits_of_bits_ne (by decide) _)]
    exact (fmt.get_canon .totalLen x).symm
  rw [PacketFormat.restoreTotalLen, hTotal, fmt.set_get]

/- Restore the lengths of the packets listed. -/
def Endpoint.restoreAll
    (fmt : PacketFormat P)
    (taken : List PacketPtr)
    (e : Endpoint P) : Endpoint P :=
  { e with
    packets := fun p =>
      if p ∈ taken then
        fmt.restoreTotalLen (e.packets p)
      else
        e.packets p }

namespace InorderModule

variable
    {fmt : PacketFormat P}
    {c : ConnPtr}
    {e : Endpoint P}
    {conn : Connection}

theorem restoreAll_nil :
    e.restoreAll fmt [] = e := by
  simp [Endpoint.restoreAll]

/- Restoring one packet and then the others. -/
theorem restoreAll_cons
    (p : PacketPtr)
    (taken : List PacketPtr) :
    (e.modifyPacket p fmt.restoreTotalLen).restoreAll fmt
        taken =
      e.restoreAll fmt (p :: taken) := by
  simp only [Endpoint.restoreAll, Endpoint.modifyPacket]
  congr 1
  funext q
  by_cases hEq : q = p
  · subst hEq
    simp [PacketFormat.restoreTotalLen_restoreTotalLen]
  · simp [hEq]

/- The queue is handed a packet as the view says. -/
theorem insertPayload_eq
    (hConn : e.conns c = some conn)
    (p : PacketPtr)
    (len : PacketPtr → Int)
    (hLen : len p = fmt.payloadLen (e.packets p)) :
    insertPayload fmt c p e =
      (enqueue len p conn.inorderView).map (fun v =>
        e.setConn c (conn.withInorderView v)) := by
  have hLoad := Endpoint.loadConn_of_some hConn
  simp only [insertPayload, enqueue, hLen, hLoad, ok_bind]
  split
  · simp only [Endpoint.modifyConn_eq hConn, pure_eq_ok]
    change insertDataQueue conn.inputQueue p _ >>= _ =
      Except.map _ (insertDataQueue conn.inputQueue p _ >>= _)
    cases insertDataQueue conn.inputQueue p
      (fmt.payloadLen (e.packets p)) <;> rfl
  · simp [Except.map, Endpoint.setConn_self hConn]

/- The drain loop works on the view. -/
theorem drain_eq
    (fuel : Nat)
    (i : BitVec 32)
    (hConn : e.conns c = some conn)
    (len : PacketPtr → Int)
    (hLen : ∀ p, len p = fmt.sentLen (e.packets p)) :
    drain fmt c fuel i e =
      (drainView len fuel i conn.inorderView).map
        (fun (v, taken) =>
          (e.setConn c (conn.withInorderView v)).restoreAll
            fmt taken) := by
  induction fuel generalizing i e conn with
  | zero => rfl
  | succ fuel ih =>
      have hLoad := Endpoint.loadConn_of_some hConn
      rw [drain, drainView, hLoad, ok_bind]
      change (if i ≤ conn.maxOooSequence then _ else _) =
        Except.map _
          (if i ≤ conn.maxOooSequence then _ else _)
      by_cases hMore : i ≤ conn.maxOooSequence
      · rw [if_pos hMore, if_pos hMore]
        change (match conn.inorderBuffer (slot i) with
          | none => _ | some p => _) =
          Except.map _ (match conn.inorderBuffer (slot i) with
          | none => _ | some p => _)
        cases conn.inorderBuffer (slot i) with
        | none =>
            simp [Except.map, Endpoint.setConn_self hConn,
              restoreAll_nil]
        | some p =>
            let restored := e.setPacket p
              (fmt.restoreTotalLen (e.packets p))
            have hLenRestored : ∀ q,
                len q = fmt.sentLen (restored.packets q) := by
              intro q
              rw [hLen q]
              by_cases hEq : q = p
              · subst hEq
                simp [restored]
              · rw [Endpoint.setPacket_packets_of_ne _ _ hEq]
            have hPayload :
                len p = fmt.payloadLen (restored.packets p) := by
              rw [hLen, Endpoint.setPacket_packets_self,
                PacketFormat.payloadLen_restoreTotalLen]
            have hInsert := insertPayload_eq (e := restored)
              hConn p len hPayload
            simp only [Endpoint.modifyPacket_eq]
            rw [hInsert]
            cases enqueue len p conn.inorderView with
            | error fault => rfl
            | ok v =>
                have hNext := ih (i + 1)
                  (e := restored.setConn c
                    (conn.withInorderView (takeSlot i v)))
                  (Endpoint.setConn_conns_self _ c _)
                  hLenRestored
                simp only [Except.map, ok_bind,
                  Endpoint.setConn_modifyConn]
                change drain fmt c fuel (i + 1)
                  (restored.setConn c
                    (conn.withInorderView (takeSlot i v))) = _
                rw [hNext,
                  Connection.withInorderView_inorderView]
                cases drainView len fuel (i + 1)
                    (takeSlot i v) with
                | error fault => rfl
                | ok result =>
                    rcases result with ⟨w, taken⟩
                    simp only [Except.map, ok_bind,
                      pure_eq_ok, Endpoint.setConn_setConn,
                      Connection.withInorderView_withInorderView,
                      Except.ok.injEq]
                    exact restoreAll_cons
                      (e := e.setConn c
                        (conn.withInorderView w)) p taken
      · rw [if_neg hMore, if_neg hMore]
        simp [Except.map, Endpoint.setConn_self hConn,
          restoreAll_nil]

/- Restoring a packet after the others. -/
theorem restoreAll_modifyPacket
    (p : PacketPtr)
    (taken : List PacketPtr) :
    (e.restoreAll fmt taken).modifyPacket p
        fmt.restoreTotalLen =
      e.restoreAll fmt (p :: taken) := by
  simp only [Endpoint.restoreAll, Endpoint.modifyPacket]
  congr 1
  funext q
  by_cases hEq : q = p
  · subst hEq
    by_cases hMem : q ∈ taken <;>
      simp [hMem, PacketFormat.restoreTotalLen_restoreTotalLen]
  · simp [hEq]

/-
  The payload lengths the module works with. Only
  `hold_forever` restores the length of the packet at `p`
  first; the other packets are restored when they are taken.
-/
def ingressLen
    (fmt : PacketFormat P)
    (strategy : InorderStrategy)
    (e : Endpoint P)
    (p q : PacketPtr) : Int :=
  if strategy ≠ .holdForever ∧ q = p then
    fmt.payloadLen (e.packets q)
  else
    fmt.sentLen (e.packets q)

/- A restored packet has the payload it was sent with. -/
theorem ingressLen_eq
    {p : PacketPtr}
    (strategy : InorderStrategy)
    (hTotal : fmt.restoreTotalLen (e.packets p) =
      e.packets p) :
    ingressLen fmt strategy e p =
      fun q => fmt.sentLen (e.packets q) := by
  funext q
  unfold ingressLen
  split
  · next hCurrent =>
      rw [hCurrent.2, ← hTotal,
        PacketFormat.payloadLen_restoreTotalLen, hTotal]
  · rfl

section Ingress

variable
    {p : PacketPtr}
    (hFlow : flowConnection fmt p e = c)
    (hConn : e.conns c = some conn)

/- The queue gets the length of the packet as it is. -/
theorem insertPayload_setConn_eq
    (strategy : InorderStrategy)
    (hStrategy : strategy ≠ .holdForever)
    (conn' : Connection) :
    insertPayload fmt c p (e.setConn c conn') =
      (enqueue (ingressLen fmt strategy e p) p
        conn'.inorderView).map (fun v =>
          e.setConn c (conn'.withInorderView v)) := by
  rw [insertPayload_eq (e := e.setConn c conn')
    (Endpoint.setConn_conns_self e c _) p
    (ingressLen fmt strategy e p)
    (by simp [ingressLen, hStrategy])]
  simp only [Endpoint.setConn_setConn]

include hFlow hConn

theorem ingressDropOutOfOrder_eq :
    ingressDropOutOfOrder fmt p e =
      (absorb .dropOutOfOrder
          (ingressLen fmt .dropOutOfOrder e p)
          (fmt.getWord .sequenceNumber (e.packets p)) p
          conn.inorderView).map
        (fun (status, v, taken) => (status,
          (e.setConn c (conn.withInorderView v)).restoreAll
            fmt taken)) := by
  have hLoad := Endpoint.loadConn_of_some hConn
  simp only [ingressDropOutOfOrder, absorb, hFlow, hLoad,
    ok_bind, Endpoint.modifyConn_eq hConn,
    insertPayload_setConn_eq .dropOutOfOrder (by decide)]
  change (if conn.lastRecvSequence < _ then _ else _) =
    Except.map _ (if conn.lastRecvSequence < _ then _ else _)
  by_cases hNewer : conn.lastRecvSequence <
      fmt.getWord .sequenceNumber (e.packets p)
  · have hView :
        ({ conn with
          lastRecvSequence :=
            fmt.getWord .sequenceNumber (e.packets p)
          } : Connection).inorderView =
        { conn.inorderView with
          lastRecvSequence :=
            fmt.getWord .sequenceNumber (e.packets p) } := rfl
    rw [if_pos hNewer, if_pos hNewer, hView]
    cases enqueue (ingressLen fmt .dropOutOfOrder e p) p
        { conn.inorderView with
          lastRecvSequence :=
            fmt.getWord .sequenceNumber (e.packets p) } with
    | error fault => rfl
    | ok v => simp [Except.map, restoreAll_nil]; rfl
  · rw [if_neg hNewer, if_neg hNewer]
    simp [Except.map, restoreAll_nil,
      Endpoint.setConn_self hConn]

theorem ingressNoInorder_eq :
    ingressNoInorder fmt p e =
      (absorb .noInorder
          (ingressLen fmt .noInorder e p)
          (fmt.getWord .sequenceNumber (e.packets p)) p
          conn.inorderView).map
        (fun (status, v, taken) => (status,
          (e.setConn c (conn.withInorderView v)).restoreAll
            fmt taken)) := by
  have hLoad := Endpoint.loadConn_of_some hConn
  have hInsert :
      insertPayload fmt c p (e.setConn c conn) = _ :=
    insertPayload_setConn_eq .noInorder (by decide) conn
  rw [Endpoint.setConn_self hConn] at hInsert
  simp only [ingressNoInorder, absorb, hFlow, hLoad,
    ok_bind, hInsert]
  cases enqueue (ingressLen fmt .noInorder e p) p
      conn.inorderView with
  | error fault => rfl
  | ok v => simp [Except.map, restoreAll_nil]

theorem ingressHoldForever_eq :
    ingressHoldForever fmt p e =
      (absorb .holdForever
          (ingressLen fmt .holdForever e p)
          (fmt.getWord .sequenceNumber (e.packets p)) p
          conn.inorderView).map
        (fun (status, v, taken) => (status,
          (e.setConn c (conn.withInorderView v)).restoreAll
            fmt
            (if status = .hookContinue then p :: taken
              else taken))) := by
  have hLoad := Endpoint.loadConn_of_some hConn
  let restored := e.modifyPacket p fmt.restoreTotalLen
  have hLen : ∀ q, ingressLen fmt .holdForever e p q =
      fmt.sentLen (restored.packets q) := by
    intro q
    have hSent : ingressLen fmt .holdForever e p q =
        fmt.sentLen (e.packets q) := by
      simp [ingressLen]
    rw [hSent]
    by_cases hEq : q = p
    · subst hEq
      simp [restored, Endpoint.modifyPacket_eq]
    · rw [show restored = e.setPacket p _ from rfl,
        Endpoint.setPacket_packets_of_ne _ _ hEq]
  have hPayload : ingressLen fmt .holdForever e p p =
      fmt.payloadLen (restored.packets p) := by
    rw [hLen, ← PacketFormat.payloadLen_restoreTotalLen]
    simp [restored, Endpoint.modifyPacket_eq,
      PacketFormat.restoreTotalLen_restoreTotalLen]
  have hInsert := insertPayload_eq (e := restored) hConn p
    (ingressLen fmt .holdForever e p) hPayload
  simp only [ingressHoldForever, absorb, hFlow, hLoad,
    ok_bind]
  change (if conn.lastRecvSequence = 0 ∨
    _ = conn.lastRecvSequence + 1 then
      (insertPayload fmt c p restored >>= _) else _) =
      Except.map _ (if conn.lastRecvSequence = 0 ∨
        _ = conn.lastRecvSequence + 1 then _ else _)
  rw [hInsert]
  by_cases hAccept : conn.lastRecvSequence = 0 ∨
      fmt.getWord .sequenceNumber (e.packets p) =
        conn.lastRecvSequence + 1
  · rw [if_pos hAccept, if_pos hAccept]
    cases enqueue (ingressLen fmt .holdForever e p) p
        conn.inorderView with
    | error fault => rfl
    | ok v =>
        let v' : InorderView :=
          { v with
            lastRecvSequence :=
              fmt.getWord .sequenceNumber (e.packets p) }
        have hDrain := drain_eq drainFuel
          (fmt.getWord .sequenceNumber (e.packets p) + 1)
          (e := restored.setConn c (conn.withInorderView v'))
          (Endpoint.setConn_conns_self _ c _)
          (ingressLen fmt .holdForever e p) hLen
        simp only [Except.map, ok_bind,
          Endpoint.setConn_modifyConn]
        have hAccepted :
            { conn.withInorderView v with
              lastRecvSequence :=
                fmt.getWord .sequenceNumber (e.packets p) } =
            conn.withInorderView v' := rfl
        rw [hAccepted, hDrain,
          Connection.withInorderView_inorderView]
        cases drainView (ingressLen fmt .holdForever e p)
            drainFuel
            (fmt.getWord .sequenceNumber (e.packets p) + 1)
            v' with
        | error fault => rfl
        | ok result =>
            rcases result with ⟨w, taken⟩
            simp only [Except.map, ok_bind, pure_eq_ok,
              if_true, Endpoint.setConn_setConn,
              Connection.withInorderView_withInorderView]
            rw [← restoreAll_cons]
            rfl
  · rw [if_neg hAccept, if_neg hAccept]
    simp only [Except.map, pure_eq_ok, restoreAll_nil,
      Endpoint.modifyConn_eq hConn, reduceCtorEq, if_false,
      Endpoint.setConn_modifyConn]
    change Except.ok (_, if conn.maxOooSequence < _ then _
      else _) = Except.ok (_, e.setConn c
        { conn with
          inorderBuffer := _
          maxOooSequence :=
            if conn.maxOooSequence < _ then _
            else conn.maxOooSequence })
    split <;> rfl

/-
  The packets whose lengths the module restored: those taken
  from the buffer, and with `hold_forever` the one received.
-/
def restoredBy
    (strategy : InorderStrategy)
    (status : HookStatus)
    (p : PacketPtr)
    (taken : List PacketPtr) : List PacketPtr :=
  if strategy = .holdForever ∧ status = .hookContinue then
    p :: taken
  else
    taken

/-
  `inorder_module::hook_ingress` on a packet of the connection
  at `c`.
-/
theorem hookIngress_eq
    (cfg : Config) :
    hookIngress fmt cfg p e =
      (absorb cfg.inorderStrategy
          (ingressLen fmt cfg.inorderStrategy e p)
          (fmt.getWord .sequenceNumber (e.packets p)) p
          conn.inorderView).map
        (fun (status, v, taken) => (status,
          (e.setConn c (conn.withInorderView v)).restoreAll
            fmt (restoredBy cfg.inorderStrategy status p
              taken))) := by
  unfold hookIngress
  cases cfg.inorderStrategy with
  | dropOutOfOrder =>
      simp only [restoredBy, reduceCtorEq, false_and,
        if_false]
      exact ingressDropOutOfOrder_eq hFlow hConn
  | holdForever =>
      simp only [restoredBy, true_and]
      exact ingressHoldForever_eq hFlow hConn
  | noInorder =>
      simp only [restoredBy, reduceCtorEq, false_and,
        if_false]
      exact ingressNoInorder_eq hFlow hConn

end Ingress

end InorderModule

end NetBlocks
