import NetBlocks.Core.Packet
import NetBlocks.Lib.Reordered

/-
  The sending side of the IPC transport, with its simulated
  packet drops and reordering.

  Main declarations:
    * `IpcTransport`
    * `IpcTransport.sendPacket` and `IpcTransport.deinit`
    * `sendAll_reordered`
-/

namespace NetBlocks

open Except

variable {P : Type}

------------------------------------------------------------
-- The Transport
------------------------------------------------------------

/- `IPC_MTU` -/
def ipcMtu : Nat := 1024

/- `OUT_OF_ORDER_CHANCE` -/
def outOfOrderChance : Nat := 5

/- `PACKET_DROP_CHANCE` -/
def packetDropChance : Nat := 5

/-
  The static variables of the transport. `written` lists the
  packets written to the socket, with their sizes, in order.
-/
structure IpcTransport (P : Type) where
  simulateOutOfOrder : Bool
  simulatePacketDrop : Bool
  outOfOrderStore : P
  outOfOrderLen : BitVec 32
  written : List (P × BitVec 32)

namespace IpcTransport

/- `write` to the socket -/
def write
    (x : P)
    (len : BitVec 32)
    (t : IpcTransport P) : IpcTransport P :=
  { t with written := t.written ++ [(x, len)] }

/- Send a pending packet, if there is one. -/
def flush
    (t : IpcTransport P) : IpcTransport P :=
  if t.outOfOrderLen ≠ 0 then
    { t.write t.outOfOrderStore t.outOfOrderLen with
      outOfOrderLen := 0 }
  else
    t

/-
  `nb__send_packet`, where `dropRand` and `orderRand` are
  what `rand` returns to it.
-/
def sendPacket
    (dropRand orderRand : Nat)
    (x : P)
    (len : BitVec 32)
    (t : IpcTransport P) :
    Except Fault (IpcTransport P) :=
  if t.simulatePacketDrop ∧
      dropRand % packetDropChance = 0 then
    .ok t
  else if t.outOfOrderLen = 0 ∧ t.simulateOutOfOrder ∧
      orderRand % outOfOrderChance = 0 then
    if len.toNat ≤ ipcMtu then
      .ok { t with
        outOfOrderLen := len
        outOfOrderStore := x }
    else
      .error .outOfBounds
  else
    .ok (t.write x len).flush

/- `nb__ipc_deinit` -/
def deinit
    (t : IpcTransport P) : IpcTransport P :=
  t.flush

/- Send packets in order, with `rand k` for the `k`th one. -/
def sendAll :
    (rand : Nat → Nat × Nat) → List (P × BitVec 32) →
      IpcTransport P → Except Fault (IpcTransport P)
| _, [], t => .ok t
| rand, (x, len) :: packets, t => do
    let t ← t.sendPacket (rand 0).1 (rand 0).2 x len
    sendAll (fun k => rand (k + 1)) packets t

------------------------------------------------------------
-- What Is Written
------------------------------------------------------------

section Written

variable
    {t t' : IpcTransport P}
    {x : P}
    {len : BitVec 32}
    {dropRand orderRand : Nat}

/-
  Without drops a packet is either held back, if none is yet,
  or written, with the one held back behind it.
-/
theorem sendPacket_cases
    (hDrop : t.simulatePacketDrop = false)
    (hSend : t.sendPacket dropRand orderRand x len = .ok t') :
    (t.outOfOrderLen = 0 ∧
      t' = { t with
        outOfOrderLen := len
        outOfOrderStore := x }) ∨
    t' = (t.write x len).flush := by
  unfold sendPacket at hSend
  rw [if_neg (by simp [hDrop])] at hSend
  split at hSend
  · next hHold =>
      split at hSend
      · cases hSend
        exact Or.inl ⟨hHold.1, rfl⟩
      · cases hSend
  · cases hSend
    exact Or.inr rfl

theorem flush_of_zero
    (hNone : t.outOfOrderLen = 0) :
    t.flush = t := by
  rw [flush, if_neg (not_not.mpr hNone)]

theorem flush_written
    (hHeld : t.outOfOrderLen ≠ 0) :
    t.flush.outOfOrderLen = 0 ∧
      t.flush.simulatePacketDrop = t.simulatePacketDrop ∧
      t.flush.written =
        t.written ++
          [(t.outOfOrderStore, t.outOfOrderLen)] := by
  rw [flush, if_pos hHeld]
  exact ⟨rfl, rfl, rfl⟩

/-
  What is sent, with a packet that may be held back before
  it, is written up to swaps of neighbours.
-/
theorem sendAll_reordered
    {rand : Nat → Nat × Nat}
    {packets : List (P × BitVec 32)}
    (hDrop : t.simulatePacketDrop = false)
    (hSizes : ∀ sent ∈ packets, sent.2 ≠ 0)
    (hSend : sendAll rand packets t = .ok t') :
    ∃ ys, t'.deinit.written = t.written ++ ys ∧
      Reordered
        ((if t.outOfOrderLen ≠ 0 then
          [(t.outOfOrderStore, t.outOfOrderLen)]
        else
          []) ++ packets) ys := by
  induction packets generalizing t rand with
  | nil =>
      cases hSend
      by_cases hHeld : t'.outOfOrderLen = 0
      · refine ⟨[], ?_, ?_⟩
        · rw [deinit, flush_of_zero hHeld, List.append_nil]
        · rw [if_neg (not_not.mpr hHeld)]
          exact .nil
      · refine ⟨_, (flush_written hHeld).2.2, ?_⟩
        rw [if_pos hHeld]
        exact .keep _ .nil
  | cons sent packets ih =>
      rcases sent with ⟨x, len⟩
      rcases bind_eq_ok_iff.mp hSend with
        ⟨t₁, hFirst, hRest⟩
      have hSizes' : ∀ sent ∈ packets, sent.2 ≠ 0 :=
        fun sent hMem =>
          hSizes sent (List.mem_cons_of_mem _ hMem)
      have hLen : len ≠ 0 := hSizes (x, len) (by simp)
      rcases sendPacket_cases hDrop hFirst with
        ⟨hNone, rfl⟩ | rfl
      · -- held back, and written behind the next one
        let held : IpcTransport P := { t with
          outOfOrderLen := len
          outOfOrderStore := x }
        rcases ih (t := held) hDrop hSizes' hRest with
          ⟨ys, hWritten, hOrder⟩
        refine ⟨ys, hWritten, ?_⟩
        rw [if_neg (not_not.mpr hNone)]
        rw [if_pos hLen] at hOrder
        exact hOrder
      · by_cases hHeld : t.outOfOrderLen = 0
        · have hFlush : (t.write x len).flush =
              t.write x len := flush_of_zero hHeld
          rw [hFlush] at hRest
          rcases ih (t := t.write x len) hDrop hSizes'
              hRest with ⟨ys, hWritten, hOrder⟩
          have hNone : (t.write x len).outOfOrderLen = 0 :=
            hHeld
          rw [if_neg (not_not.mpr hNone)] at hOrder
          refine ⟨(x, len) :: ys, ?_, ?_⟩
          · rw [hWritten]
            simp [write]
          · rw [if_neg (not_not.mpr hHeld)]
            exact .keep _ hOrder
        · rcases flush_written (t := t.write x len) hHeld with
            ⟨hNone, hKept, hBoth⟩
          rcases ih (hKept.trans hDrop) hSizes' hRest with
            ⟨ys, hWritten, hOrder⟩
          rw [if_neg (not_not.mpr hNone)] at hOrder
          refine ⟨(x, len) ::
            (t.outOfOrderStore, t.outOfOrderLen) :: ys, ?_,
            ?_⟩
          · rw [hWritten, hBoth]
            simp [write]
          · rw [if_pos hHeld]
            exact .swap _ _ hOrder

end Written

end IpcTransport

end NetBlocks
