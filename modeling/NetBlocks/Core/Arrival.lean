import NetBlocks.Core.Delivery

/-
  Packets that reach the inorder module of a connection: what
  they carry, where the module puts them, and the payloads it
  hands to the input queue.

  Main declarations:
    * `PacketFormat.Carries` and `numberAt`
    * `arrive` and `arrive_effect`
    * `Reception` and `Receives`
-/

namespace NetBlocks

open Except

variable {P : Type}

------------------------------------------------------------
-- What a Packet Carries
------------------------------------------------------------

/- The number of the packet sent at a position, from zero. -/
def numberAt
    (i : Nat) : BitVec 32 :=
  BitVec.ofNat 32 (1011 + i)

theorem numberAt_succ
    (i : Nat) :
    numberAt i + 1 = numberAt (i + 1) :=
  (BitVec.ofNat_add (1011 + i) 1).symm

theorem numberAt_toNat
    {i : Nat}
    (hWrap : 1011 + i < 2 ^ 32) :
    (numberAt i).toNat = 1011 + i := by
  rw [numberAt, BitVec.toNat_ofNat, Nat.mod_eq_of_lt hWrap]

/-
  A packet with a number and a payload, as the header it is
  sent with says. An empty payload is never read.
-/
structure PacketFormat.Carries
    (fmt : PacketFormat P)
    (number : BitVec 32)
    (bytes : List Byte)
    (x : P) : Prop where
  number : fmt.getWord .sequenceNumber x = number
  length : fmt.getWord .totalLen x =
    BitVec.ofNat 32 (fmt.headerLen + bytes.length)
  length_lt : fmt.headerLen + bytes.length < 2 ^ 31
  payload : bytes ≠ [] →
    fmt.readPayload bytes.length x = .ok bytes

namespace PacketFormat.Carries

variable
    {fmt : PacketFormat P}
    {number : BitVec 32}
    {bytes : List Byte}
    {x y : P}

theorem totalLen
    (hCarries : fmt.Carries number bytes x) :
    (fmt.getWord .totalLen x).toInt =
      ((fmt.headerLen + bytes.length : Nat) : Int) := by
  rw [hCarries.length, toInt_length hCarries.length_lt]

/- The payload is as long as its bytes. -/
theorem sentLen
    (hCarries : fmt.Carries number bytes x) :
    fmt.sentLen x = bytes.length := by
  have hLt := hCarries.length_lt
  have hSub : BitVec.ofNat 32 (fmt.headerLen + bytes.length) -
      BitVec.ofNat 32 fmt.headerLen =
        BitVec.ofNat 32 bytes.length := by
    rw [BitVec.ofNat_add, BitVec.add_comm,
      BitVec.add_sub_cancel]
  rw [PacketFormat.sentLen, hCarries.length, hSub,
    BitVec.toInt_eq_toNat_of_lt] <;>
    rw [BitVec.toNat_ofNat, Nat.mod_eq_of_lt (by omega)]
  omega

/- What arrives over the wire carries the same. -/
theorem of_sameWire
    (hCarries : fmt.Carries number bytes x)
    (hSame : fmt.SameWire
      (fmt.getWord .totalLen x).toInt x y) :
    fmt.Carries number bytes y where
  number := by
    rw [← hCarries.number, getWord, hSame.fields _ rfl,
      getWord]
  length := by
    rw [← hCarries.length, getWord, hSame.fields _ rfl,
      getWord]
  length_lt := hCarries.length_lt
  payload hNe := by
    rw [hSame.payload _ (by rw [hCarries.totalLen]),
      hCarries.payload hNe]

/- Members that are not sent do not matter. -/
theorem setInteger
    {f : Field}
    (hCarries : fmt.Carries number bytes x)
    (hWire : f.onWire = false)
    (v : BitVec 64) :
    fmt.Carries number bytes (fmt.setInteger f v x) := by
  have hFits : f.Fits v := by
    rintro (rfl | rfl) <;> simp [Field.onWire] at hWire
  have hNe : ∀ g : Field, g.onWire = true → g ≠ f := by
    rintro g hg rfl
    simp [hWire] at hg
  refine ⟨?_, ?_, hCarries.length_lt, ?_⟩
  · rw [getWord_setInteger_ne hFits (hNe _ rfl),
      hCarries.number]
  · rw [getWord_setInteger_ne hFits (hNe _ rfl),
      hCarries.length]
  · intro hNe
    rw [fmt.read_set f v _ x hFits, hCarries.payload hNe]

end PacketFormat.Carries

------------------------------------------------------------
-- Arriving at the Inorder Module
------------------------------------------------------------

/-
  A received packet as the network and identifier modules
  leave it, routed to the connection at `c`.
-/
def receivedPacket
    (fmt : PacketFormat P)
    (c : ConnPtr)
    (x : P) : P :=
  fmt.setInteger .flowIdentifier c (fmt.restoreTotalLen x)

/- The inorder module gets the packet, in a new buffer. -/
def arrive
    (fmt : PacketFormat P)
    (cfg : Config)
    (c : ConnPtr)
    (x : P)
    (e : Endpoint P) :
    Except Fault (HookStatus × Endpoint P) :=
  let (p, e) := pollPacket (receivedPacket fmt c x) e
  InorderModule.hookIngress fmt cfg p e

theorem PacketFormat.Carries.received
    {fmt : PacketFormat P}
    {number : BitVec 32}
    {bytes : List Byte}
    {x : P}
    (hCarries : fmt.Carries number bytes x)
    (c : ConnPtr) :
    fmt.Carries number bytes (receivedPacket fmt c x) :=
  (hCarries.setInteger rfl _).setInteger rfl _

/-
  What the arrival of a packet with the number `number` does
  to an endpoint: the packet is placed, and what it delivers
  is queued.
-/
structure ArriveEffect
    (fmt : PacketFormat P)
    (cfg : Config)
    (c : ConnPtr)
    (x : P)
    (conn : Connection)
    (e : Endpoint P)
    (status : HookStatus)
    (w : InorderView)
    (taken : List PacketPtr)
    (e' : Endpoint P) : Prop where
  place : place cfg.inorderStrategy
    (fmt.getWord .sequenceNumber x) e.nextPacket
    conn.inorderView = (status, w, taken)
  conn : e'.conns c = some (conn.withInorderView { w with
    inputQueue := conn.inputQueue ++
      payloads (fun q => fmt.sentLen
        ((e.polled (receivedPacket fmt c x)).packets q))
        (arrivedPackets status e.nextPacket taken) })
  others : ∀ d, d ≠ c → e'.conns d = e.conns d
  next : e'.nextPacket = e.nextPacket + 1
  get : ∀ f q, f ≠ .computedTotalLen →
    fmt.getInteger f (e'.packets q) = fmt.getInteger f
      ((e.polled (receivedPacket fmt c x)).packets q)
  read : ∀ n q, fmt.readPayload n (e'.packets q) =
    fmt.readPayload n
      ((e.polled (receivedPacket fmt c x)).packets q)

section Arrive

variable
    {fmt : PacketFormat P}
    {cfg : Config}
    {c : ConnPtr}
    {x : P}
    {e e' : Endpoint P}
    {conn : Connection}

theorem restoreAll_read
    (n : Nat)
    (taken : List PacketPtr)
    (q : PacketPtr) :
    fmt.readPayload n ((e.restoreAll fmt taken).packets q) =
      fmt.readPayload n (e.packets q) := by
  simp only [Endpoint.restoreAll]
  split
  · exact PacketFormat.read_restoreTotalLen n _
  · rfl

/- A restored length is kept by assigning another member. -/
theorem restoreTotalLen_setInteger
    {f : Field}
    {y : P}
    (hRestored : fmt.restoreTotalLen y = y)
    (hFits : ∀ v, f.Fits v)
    (hComputed : f ≠ .computedTotalLen)
    (hTotal : f ≠ .totalLen)
    (v : BitVec 64) :
    fmt.restoreTotalLen (fmt.setInteger f v y) =
      fmt.setInteger f v y := by
  have hLength : fmt.getInteger .computedTotalLen y =
      fmt.getInteger .totalLen y := by
    have hGet := congrArg
      (fmt.getInteger .computedTotalLen) hRestored
    rw [PacketFormat.restoreTotalLen,
      fmt.get_set_self .computedTotalLen _ _
        (Field.fits_of_bits_ne (by decide) _)] at hGet
    exact hGet.symm.trans (fmt.get_canon .totalLen y)
  have hSame : fmt.getInteger .totalLen
        (fmt.setInteger f v y) =
      fmt.getInteger .computedTotalLen
        (fmt.setInteger f v y) := by
    rw [fmt.get_set_ne f _ _ _ (hFits v) hTotal.symm,
      fmt.get_set_ne f _ _ _ (hFits v) hComputed.symm,
      hLength]
  rw [PacketFormat.restoreTotalLen, hSame, fmt.set_get]

/- The length of a received packet is the one sent. -/
theorem restoreTotalLen_receivedPacket :
    fmt.restoreTotalLen (receivedPacket fmt c x) =
      receivedPacket fmt c x :=
  restoreTotalLen_setInteger
    (PacketFormat.restoreTotalLen_restoreTotalLen x)
    (Field.fits_of_bits_ne (by decide)) (by decide)
    (by decide) c

/- The other members are as they were received. -/
theorem receivedPacket_word
    {f : Field}
    (hFlow : f ≠ .flowIdentifier)
    (hComputed : f ≠ .computedTotalLen) :
    fmt.getWord f (receivedPacket fmt c x) =
      fmt.getWord f x := by
  rw [receivedPacket, PacketFormat.getWord_setInteger_ne
      (Field.fits_of_bits_ne (by decide) _) hFlow,
    PacketFormat.getWord,
    PacketFormat.get_restoreTotalLen hComputed,
    PacketFormat.getWord]

theorem receivedPacket_number :
    fmt.getWord .sequenceNumber (receivedPacket fmt c x) =
      fmt.getWord .sequenceNumber x :=
  receivedPacket_word (by decide) (by decide)

theorem arrive_eq
    (hConn : e.conns c = some conn) :
    arrive fmt cfg c x e =
      (absorb cfg.inorderStrategy
          (fun q => fmt.sentLen
            ((e.polled (receivedPacket fmt c x)).packets q))
          (fmt.getWord .sequenceNumber x) e.nextPacket
          conn.inorderView).map
        (fun (status, v, taken) => (status,
          ((e.polled (receivedPacket fmt c x)).setConn c
            (conn.withInorderView v)).restoreAll fmt
              (InorderModule.restoredBy cfg.inorderStrategy
                status e.nextPacket taken))) := by
  let e₁ := e.polled (receivedPacket fmt c x)
  have hFlow : InorderModule.flowConnection fmt e.nextPacket
      e₁ = c :=
    flowConnection_setPacket (e := e.requested) e.nextPacket c
      (fmt.restoreTotalLen x)
  have hOwn : e₁.packets e.nextPacket =
      receivedPacket fmt c x := polled_packets_self _
  have hConn₁ : e₁.conns c = some conn := hConn
  have hLen := InorderModule.ingressLen_eq
    cfg.inorderStrategy (show fmt.restoreTotalLen
      (e₁.packets e.nextPacket) = _ by
        rw [hOwn, restoreTotalLen_receivedPacket])
  have hHook := InorderModule.hookIngress_eq hFlow hConn₁ cfg
  rw [hLen, hOwn, receivedPacket_number] at hHook
  exact hHook

theorem arrive_effect
    {status : HookStatus}
    (hConn : e.conns c = some conn)
    (hArrive : arrive fmt cfg c x e = .ok (status, e')) :
    ∃ w taken,
      ArriveEffect fmt cfg c x conn e status w taken e' := by
  rw [arrive_eq hConn] at hArrive
  rcases map_eq_ok_iff.mp hArrive with
    ⟨⟨status', v, taken⟩, hAbsorb, hEnd⟩
  cases hEnd
  rcases absorb_ok_iff.mp hAbsorb with
    ⟨w, hPlace, hRoom, rfl⟩
  refine ⟨w, taken, hPlace, ?_, ?_, rfl, ?_, ?_⟩
  · exact Endpoint.setConn_conns_self _ _ _
  · intro d hNe
    exact Endpoint.setConn_conns_of_ne _ _ hNe
  · intro f q hNe
    exact restoreAll_get hNe _ q
  · intro n q
    exact restoreAll_read n _ q

/- A packet that can be placed arrives if there is room. -/
theorem arrive_ok
    {status : HookStatus}
    {w : InorderView}
    {taken : List PacketPtr}
    (hConn : e.conns c = some conn)
    (hPlace : place cfg.inorderStrategy
      (fmt.getWord .sequenceNumber x) e.nextPacket
      conn.inorderView = (status, w, taken))
    (hRoom : Room conn.inputQueue
      (payloads (fun q => fmt.sentLen
        ((e.polled (receivedPacket fmt c x)).packets q))
        (arrivedPackets status e.nextPacket taken))) :
    ∃ e', arrive fmt cfg c x e = .ok (status, e') := by
  have hAbsorb := absorb_ok_iff.mpr ⟨w, hPlace, hRoom, rfl⟩
  rw [arrive_eq hConn, hAbsorb]
  exact ⟨_, rfl⟩

end Arrive

------------------------------------------------------------
-- Receptions
------------------------------------------------------------

/- The input queue of the connection at an address. -/
def Endpoint.inputQueue
    (e : Endpoint P)
    (c : ConnPtr) : DataQueue :=
  match e.conns c with
  | none => []
  | some conn => conn.inputQueue

/- The payload of a packet, if it is not empty. -/
def payloadOf
    (buff : List Byte) : List (Except Fault (List Byte)) :=
  if buff = [] then [] else [.ok buff]

/- The bytes a queue entry stands for. -/
def Endpoint.payloadAt
    (fmt : PacketFormat P)
    (e : Endpoint P)
    (entry : PacketPtr × Int) : Except Fault (List Byte) :=
  fmt.readPayload entry.2.toNat (e.packets entry.1)

/-
  A receiving endpoint, with the payloads that were put into
  its input queue so far, the positions of the packets that
  arrived, and of those the inorder module did not drop.
-/
structure Reception (P : Type) where
  endpoint : Endpoint P
  inserted : List (Except Fault (List Byte))
  arrived : List Nat
  accepted : List Nat

/- A packet arrives, or the user reads from the queue. -/
inductive ReceptionLabel (P : Type) where
| packet (i : Nat) (x : P)
| read (maxLen : Int)

/- What an arrival put at the end of the queue. -/
def insertedBetween
    (fmt : PacketFormat P)
    (c : ConnPtr)
    (e e' : Endpoint P) : List (Except Fault (List Byte)) :=
  ((e'.inputQueue c).drop (e.inputQueue c).length).map
    (e'.payloadAt fmt)

/- The steps of a receiving endpoint. -/
inductive Receives
    (fmt : PacketFormat P)
    (cfg : Config)
    (c : ConnPtr) :
    Reception P → ReceptionLabel P → Reception P → Prop
| packet {r : Reception P} {i : Nat} {x : P}
    {status : HookStatus} {e' : Endpoint P} :
    arrive fmt cfg c x r.endpoint = .ok (status, e') →
    Receives fmt cfg c r (.packet i x)
      { endpoint := e'
        inserted := r.inserted ++
          insertedBetween fmt c r.endpoint e'
        arrived := r.arrived ++ [i]
        accepted :=
          if status = .hookContinue then
            r.accepted ++ [i]
          else
            r.accepted }
| read {r : Reception P} {maxLen : Int} {bytes : List Byte}
    {e' : Endpoint P} :
    nbRead fmt c maxLen r.endpoint = .ok (bytes, e') →
    Receives fmt cfg c r (.read maxLen)
      { r with endpoint := e' }

section Inserted

variable
    {fmt : PacketFormat P}
    {cfg : Config}
    {c : ConnPtr}
    {x : P}
    {e e' : Endpoint P}
    {conn : Connection}
    {status : HookStatus}
    {w : InorderView}
    {taken : List PacketPtr}

/- The payloads of the packets an arrival delivers. -/
theorem ArriveEffect.insertedBetween
    (hConn : e.conns c = some conn)
    (hEffect : ArriveEffect fmt cfg c x conn e status w taken
      e') :
    insertedBetween fmt c e e' =
      ((arrivedPackets status e.nextPacket taken).filter
        (fun q => fmt.sentLen ((e.polled
          (receivedPacket fmt c x)).packets q) ≠ 0)).map
        (fun q => fmt.readPayload
          (fmt.sentLen ((e.polled
            (receivedPacket fmt c x)).packets q)).toNat
          ((e.polled (receivedPacket fmt c x)).packets q)) := by
  have hQueue : e.inputQueue c = conn.inputQueue := by
    rw [Endpoint.inputQueue, hConn]
  have hQueue' : e'.inputQueue c = conn.inputQueue ++
      payloads (fun q => fmt.sentLen
        ((e.polled (receivedPacket fmt c x)).packets q))
        (arrivedPackets status e.nextPacket taken) := by
    rw [Endpoint.inputQueue, hEffect.conn]
    rfl
  rw [NetBlocks.insertedBetween, hQueue', hQueue,
    List.drop_left, payloads, List.map_map]
  apply List.map_congr_left
  intro q _
  exact hEffect.read _ q

/- Buffers carry what they did before the arrival. -/
theorem ArriveEffect.carries
    {number : BitVec 32}
    {buff : List Byte}
    {q : PacketPtr}
    (hEffect : ArriveEffect fmt cfg c x conn e status w taken
      e')
    (hCarries : fmt.Carries number buff
      ((e.polled (receivedPacket fmt c x)).packets q)) :
    fmt.Carries number buff (e'.packets q) where
  number := by
    rw [PacketFormat.getWord, hEffect.get _ q (by decide),
      ← PacketFormat.getWord, hCarries.number]
  length := by
    rw [PacketFormat.getWord, hEffect.get _ q (by decide),
      ← PacketFormat.getWord, hCarries.length]
  length_lt := hCarries.length_lt
  payload hNe := by
    rw [hEffect.read, hCarries.payload hNe]

/- What packets that carry payloads deliver of them. -/
theorem delivered_eq
    {packets : PacketPtr → P}
    {ps : List PacketPtr}
    {payloads : List (List Byte)}
    (hCarry : List.Forall₂ (fun q buff => ∃ number,
      fmt.Carries number buff (packets q)) ps payloads) :
    ((ps.filter (fun q => fmt.sentLen (packets q) ≠ 0)).map
      (fun q => fmt.readPayload
        (fmt.sentLen (packets q)).toNat (packets q))) =
      payloads.flatMap payloadOf := by
  induction hCarry with
  | nil => rfl
  | @cons q buff ps payloads hFirst _ ih =>
      rcases hFirst with ⟨number, hCarries⟩
      have hLen := hCarries.sentLen
      rw [List.flatMap_cons, payloadOf]
      by_cases hEmpty : buff = []
      · rw [List.filter_cons_of_neg
          (by simp [hLen, hEmpty]), if_pos hEmpty]
        exact ih
      · rw [List.filter_cons_of_pos (by simp [hLen, hEmpty]),
          if_neg hEmpty, List.map_cons, ih, hLen,
          Int.toNat_natCast, hCarries.payload hEmpty]
        rfl

/- An arrival as a step of a reception. -/
theorem Receives.effect
    {r r' : Reception P}
    {i : Nat}
    (hConn : r.endpoint.conns c = some conn)
    (hReceives : Receives fmt cfg c r (.packet i x) r') :
    ∃ status w taken,
      ArriveEffect fmt cfg c x conn r.endpoint status w taken
        r'.endpoint ∧
      r'.arrived = r.arrived ++ [i] ∧
      r'.accepted =
        (if status = .hookContinue then r.accepted ++ [i]
          else r.accepted) ∧
      ∀ payloads, List.Forall₂ (fun q buff => ∃ number,
          fmt.Carries number buff
            ((r.endpoint.polled
              (receivedPacket fmt c x)).packets q))
          (arrivedPackets status r.endpoint.nextPacket taken)
          payloads →
        r'.inserted =
          r.inserted ++ payloads.flatMap payloadOf := by
  cases hReceives with
  | @packet _ _ status e' hArrive =>
      rcases arrive_effect hConn hArrive with
        ⟨w, taken, hEffect⟩
      refine ⟨status, w, taken, hEffect, rfl, rfl, ?_⟩
      intro payloads hCarry
      rw [hEffect.insertedBetween hConn, delivered_eq hCarry]

/-
  A packet arrives while there is room for its payload and
  for those of all packets on the shelf.
-/
theorem receives_of_room
    {r : Reception P}
    (hConn : r.endpoint.conns c = some conn)
    (hRoom : conn.inputQueue.length + 34 ≤ maxDataQueueElems)
    (i : Nat)
    (x : P) :
    ∃ r' conn', Receives fmt cfg c r (.packet i x) r' ∧
      r'.endpoint.conns c = some conn' ∧
      conn'.inputQueue.length ≤
        conn.inputQueue.length + 34 := by
  rcases hPlace : place cfg.inorderStrategy
      (fmt.getWord .sequenceNumber x) r.endpoint.nextPacket
      conn.inorderView with ⟨status, w, taken⟩
  let new := payloads (fun q => fmt.sentLen
    ((r.endpoint.polled (receivedPacket fmt c x)).packets q))
    (arrivedPackets status r.endpoint.nextPacket taken)
  have hNew : new.length ≤ 34 := place_payloads_le hPlace _
  have hFits : Room conn.inputQueue new := Or.inr (by omega)
  rcases arrive_ok hConn hPlace hFits with ⟨e', hArrive⟩
  rcases arrive_effect hConn hArrive with
    ⟨w', taken', hEffect⟩
  cases hPlace.symm.trans hEffect.place
  refine ⟨_, _, .packet hArrive, hEffect.conn, ?_⟩
  change (conn.inputQueue ++ new).length ≤ _
  rw [List.length_append]
  omega

end Inserted

end NetBlocks
