import NetBlocks.Core.SentLog

/-
  The addresses a packet carries when it is completed for a
  connection, whichever path built it, and what leaves the
  addresses of an endpoint and of older packets alone.

  Main declarations:
    * `Sender` and `Built`
    * `completePacket_built`
    * `SameHosts` and `KeepsAddresses`
    * `IngressResult.transmits`
-/

namespace NetBlocks

open Except

variable {P : Type}

------------------------------------------------------------
-- Senders
------------------------------------------------------------

/-
  What a packet is built for: the arguments `nb__establish`
  was called with, and the value the connection has in its
  member `dst_global_id` while the packet is built.
-/
structure Sender where
  h : BitVec 32
  a : BitVec 32
  sa : BitVec 32
  dstGlobalId : BitVec 32
deriving DecidableEq, Repr

/- A connection holds the addresses of a sender. -/
structure Sender.HeldBy
    (s : Sender)
    (e : Endpoint P)
    (conn : Connection) : Prop where
  remoteHostId : conn.remoteHostId = e.hostLocalId s.h
  remoteAppId : conn.remoteAppId = s.a
  localAppId : conn.localAppId = s.sa
  dstGlobalId : conn.dstGlobalId = s.dstGlobalId

/- A packet has the addresses of a sender, as they fit. -/
structure Built
    (fmt : PacketFormat P)
    (e : Endpoint P)
    (s : Sender)
    (x : P) : Prop where
  dstGlobalId : fmt.getWord .dstGlobalId x = s.dstGlobalId
  srcGlobalId : fmt.getWord .srcGlobalId x = e.myHostId
  dstHostId : fmt.getInteger .dstHostId x =
    e.hostLocalId s.h
  srcHostId : fmt.getInteger .srcHostId x = e.myLocalHostId
  dstAppId : fmt.getInteger .dstAppId x =
    Field.dstAppId.canon (s.a.setWidth 64)
  srcAppId : fmt.getInteger .srcAppId x =
    Field.srcAppId.canon (s.sa.setWidth 64)

/- The members of a packet that say whom it is from and for. -/
def Field.addresses : Field → Bool
| dstHostId => true
| srcHostId => true
| dstGlobalId => true
| srcGlobalId => true
| dstAppId => true
| srcAppId => true
| _ => false

theorem Field.ne_of_addresses
    {f g : Field}
    (hField : f.addresses = true)
    (hOther : g.addresses = false) :
    f ≠ g := by
  rintro rfl
  rw [hField] at hOther
  cases hOther

/- The addresses of the endpoint itself did not change. -/
structure SameHosts
    (e e' : Endpoint P) : Prop where
  host : e'.myHostId = e.myHostId
  localHost : e'.myLocalHostId = e.myLocalHostId
  routes : e'.netState.routingTable =
    e.netState.routingTable

section Senders

variable
    {fmt : PacketFormat P}
    {e e₁ e' : Endpoint P}
    {s : Sender}
    {conn conn' : Connection}
    {x y : P}

theorem SameHosts.refl
    (e : Endpoint P) :
    SameHosts e e :=
  ⟨rfl, rfl, rfl⟩

theorem SameHosts.trans
    (hFirst : SameHosts e e₁)
    (hSecond : SameHosts e₁ e') :
    SameHosts e e' where
  host := hSecond.host.trans hFirst.host
  localHost := hSecond.localHost.trans hFirst.localHost
  routes := hSecond.routes.trans hFirst.routes

theorem SameHosts.hostLocalId
    (hSame : SameHosts e e')
    (h : BitVec 32) :
    e'.hostLocalId h = e.hostLocalId h := by
  rw [Endpoint.hostLocalId, hSame.routes,
    Endpoint.hostLocalId]

theorem SameHosts.of_table
    (hHost : e'.myHostId = e.myHostId)
    (hTable : SameTable e e') :
    SameHosts e e' :=
  ⟨hHost, hTable.host, congrArg _ hTable.netState⟩

theorem Built.congr
    (hBuilt : Built fmt e s x)
    (hSame : SameHosts e e')
    (hMembers : ∀ f : Field, f.addresses = true →
      fmt.getInteger f y = fmt.getInteger f x) :
    Built fmt e' s y := by
  have hWord : ∀ f : Field, f.addresses = true →
      fmt.getWord f y = fmt.getWord f x := by
    intro f hField
    rw [PacketFormat.getWord, hMembers f hField,
      PacketFormat.getWord]
  refine ⟨?_, ?_, ?_, ?_, ?_, ?_⟩
  · rw [hWord _ rfl, hBuilt.dstGlobalId]
  · rw [hWord _ rfl, hBuilt.srcGlobalId, hSame.host]
  · rw [hMembers _ rfl, hBuilt.dstHostId, hSame.hostLocalId]
  · rw [hMembers _ rfl, hBuilt.srcHostId, hSame.localHost]
  · rw [hMembers _ rfl, hBuilt.dstAppId]
  · rw [hMembers _ rfl, hBuilt.srcAppId]

theorem Sender.HeldBy.congr
    (hHeld : s.HeldBy e conn)
    (hSame : SameHosts e e')
    (hHost : conn'.remoteHostId = conn.remoteHostId)
    (hRemote : conn'.remoteAppId = conn.remoteAppId)
    (hLocal : conn'.localAppId = conn.localAppId)
    (hGlobal : conn'.dstGlobalId = conn.dstGlobalId) :
    s.HeldBy e' conn' where
  remoteHostId := by
    rw [hHost, hHeld.remoteHostId, hSame.hostLocalId]
  remoteAppId := hRemote.trans hHeld.remoteAppId
  localAppId := hLocal.trans hHeld.localAppId
  dstGlobalId := hGlobal.trans hHeld.dstGlobalId

end Senders

------------------------------------------------------------
-- Completed Packets
------------------------------------------------------------

section Completed

variable
    {fmt : PacketFormat P}
    {cfg : Config}
    {conn : Connection}
    {localHostId : BitVec 64}
    {hostId : BitVec 32}
    {x y : P}

/- A host id that fits is stored as it is. -/
theorem canon_of_fits
    {f : Field}
    {v : BitVec 64}
    (hBits : f.bits = 48)
    (hSigned : f.signed = false)
    (hFits : v.toNat < 2 ^ 48) :
    f.canon v = v := by
  rw [Field.canon, if_neg (by simp [hSigned]), hBits]
  apply BitVec.eq_of_toNat_eq
  rw [BitVec.toNat_setWidth, BitVec.toNat_setWidth,
    Nat.mod_eq_of_lt (by omega), Nat.mod_eq_of_lt hFits]

variable (fmt) in
/- What the identifier module writes is read back. -/
theorem identifyPacket_addresses
    (hFits : HostsFit conn localHostId)
    (x : P) :
    let z := identifyPacket fmt conn localHostId x
    fmt.getInteger .dstHostId z = conn.remoteHostId ∧
      fmt.getInteger .srcHostId z = localHostId ∧
      fmt.getInteger .dstAppId z =
        Field.dstAppId.canon (conn.remoteAppId.setWidth 64) ∧
      fmt.getInteger .srcAppId z =
        Field.srcAppId.canon (conn.localAppId.setWidth 64) := by
  intro z
  have hSrcApp := Field.fits_of_bits_ne (f := .srcAppId)
    (by decide) (conn.localAppId.setWidth 64)
  have hDstApp := Field.fits_of_bits_ne (f := .dstAppId)
    (by decide) (conn.remoteAppId.setWidth 64)
  have hSrcHost : Field.srcHostId.Fits localHostId :=
    fun _ => hFits.localHost
  have hDstHost : Field.dstHostId.Fits conn.remoteHostId :=
    fun _ => hFits.remote
  simp only [z, identifyPacket, PacketFormat.setWord]
  refine ⟨?_, ?_, ?_, ?_⟩
  · rw [fmt.get_set_ne _ _ _ _ hSrcApp (by decide),
      fmt.get_set_ne _ _ _ _ hSrcHost (by decide),
      fmt.get_set_ne _ _ _ _ hDstApp (by decide),
      fmt.get_set_self _ _ _ hDstHost,
      canon_of_fits rfl rfl hFits.remote]
  · rw [fmt.get_set_ne _ _ _ _ hSrcApp (by decide),
      fmt.get_set_self _ _ _ hSrcHost,
      canon_of_fits rfl rfl hFits.localHost]
  · rw [fmt.get_set_ne _ _ _ _ hSrcApp (by decide),
      fmt.get_set_ne _ _ _ _ hSrcHost (by decide),
      fmt.get_set_self _ _ _ hDstApp]
  · rw [fmt.get_set_self _ _ _ hSrcApp]

variable (fmt) in
/- The routing module writes the two global ids only. -/
theorem routePacket_addresses
    (hRouting : cfg.routingEnabled = true)
    (conn : Connection)
    (hostId : BitVec 32)
    (x : P) :
    let z := routePacket fmt cfg conn hostId x
    fmt.getWord .dstGlobalId z = conn.dstGlobalId ∧
      fmt.getWord .srcGlobalId z = hostId ∧
      ∀ f : Field, f ≠ .dstGlobalId → f ≠ .srcGlobalId →
        fmt.getInteger f z = fmt.getInteger f x := by
  intro z
  simp only [z, routePacket, if_pos hRouting]
  refine ⟨?_, PacketFormat.getWord_setWord_self rfl, ?_⟩
  · rw [PacketFormat.setWord, PacketFormat.getWord_setInteger_ne
      (Field.fits_of_bits_ne (by decide) _) (by decide)]
    exact PacketFormat.getWord_setWord_self rfl
  · intro f hDst hSrc
    rw [PacketFormat.setWord,
      fmt.get_set_ne _ _ _ _
        (Field.fits_of_bits_ne (by decide) _) hSrc,
      PacketFormat.setWord,
      fmt.get_set_ne _ _ _ _
        (Field.fits_of_bits_ne (by decide) _) hDst]

variable (fmt) in
/- Routing a packet leaves what the identifier one wrote. -/
theorem routePacket_get_of_ne
    {f : Field}
    (hDst : f ≠ .dstGlobalId)
    (hSrc : f ≠ .srcGlobalId)
    (x : P) :
    fmt.getInteger f (routePacket fmt cfg conn hostId x) =
      fmt.getInteger f x := by
  cases hRouting : cfg.routingEnabled with
  | true =>
      exact (routePacket_addresses fmt hRouting conn hostId
        x).2.2 f hDst hSrc
  | false => simp [routePacket, hRouting]

/-
  A packet completed for a connection has the hosts and apps
  the connection holds.
-/
theorem completePacket_ids
    (hFits : HostsFit conn localHostId)
    (hSized : fmt.Sized x)
    (hComplete : completePacket fmt cfg conn localHostId
      hostId x = .ok y) :
    fmt.getInteger .dstHostId y = conn.remoteHostId ∧
      fmt.getInteger .srcHostId y = localHostId ∧
      fmt.getInteger .dstAppId y =
        Field.dstAppId.canon (conn.remoteAppId.setWidth 64) ∧
      fmt.getInteger .srcAppId y =
        Field.srcAppId.canon (conn.localAppId.setWidth 64) := by
  have hGet : ∀ f : Field, f ≠ .checksum →
      f ≠ .dstGlobalId → f ≠ .srcGlobalId →
        fmt.getInteger f y = fmt.getInteger f
          (identifyPacket fmt conn localHostId x) := by
    intro f hChecksum hDst hSrc
    rw [checksumPacket_get hComplete
        ((sized_routePacket hFits).mpr hSized) hChecksum,
      routePacket_get_of_ne fmt hDst hSrc]
  rw [hGet _ (by decide) (by decide) (by decide),
    hGet _ (by decide) (by decide) (by decide),
    hGet _ (by decide) (by decide) (by decide),
    hGet _ (by decide) (by decide) (by decide)]
  exact identifyPacket_addresses fmt hFits x

/- With routing, it has all the addresses of its sender. -/
theorem completePacket_built
    {e : Endpoint P}
    {s : Sender}
    (hRouting : cfg.routingEnabled = true)
    (hHeld : s.HeldBy e conn)
    (hFits : HostsFit conn e.myLocalHostId)
    (hSized : fmt.Sized x)
    (hComplete : completePacket fmt cfg conn e.myLocalHostId
      e.myHostId x = .ok y) :
    Built fmt e s y := by
  let z := identifyPacket fmt conn e.myLocalHostId x
  have hWord : ∀ f : Field, f ≠ .checksum →
      fmt.getWord f y = fmt.getWord f
        (routePacket fmt cfg conn e.myHostId z) := by
    intro f hNe
    rw [PacketFormat.getWord, checksumPacket_get hComplete
        ((sized_routePacket hFits).mpr hSized) hNe,
      PacketFormat.getWord]
  rcases completePacket_ids hFits hSized hComplete with
    ⟨hDstHost, hSrcHost, hDstApp, hSrcApp⟩
  rcases routePacket_addresses fmt hRouting conn e.myHostId z
    with ⟨hDst, hSrc, -⟩
  refine ⟨?_, ?_, ?_, hSrcHost, ?_, ?_⟩
  · rw [hWord _ (by decide), hDst, hHeld.dstGlobalId]
  · rw [hWord _ (by decide), hSrc]
  · rw [hDstHost, hHeld.remoteHostId]
  · rw [hDstApp, hHeld.remoteAppId]
  · rw [hSrcApp, hHeld.localAppId]

/- So has a packet that is numbered and sent. -/
theorem Sends.built
    {e : Endpoint P}
    {s : Sender}
    {p : PacketPtr}
    {t : Option TimerPtr}
    {timers : TimerPool}
    (hSends : Sends fmt cfg e conn p y x t timers)
    (hRouting : cfg.routingEnabled = true)
    (hHeld : s.HeldBy e conn)
    (hFits : HostsFit conn e.myLocalHostId)
    (hSized : fmt.Sized y) :
    Built fmt e s x :=
  completePacket_built hRouting hHeld hFits
    (Sends.sized_armPacket hSized) hSends.complete

/- An ack is as long as the headers and one byte. -/
theorem sized_ackPacket
    (seq : BitVec 32)
    (x : P) :
    fmt.Sized (ackPacket fmt seq x) :=
  sized_lengthPacket fmt.headerLen_lt

end Completed

------------------------------------------------------------
-- What Calls Leave Alone
------------------------------------------------------------

/- The addresses of older packets, but for one of them. -/
def KeepsAddresses
    (fmt : PacketFormat P)
    (p : PacketPtr)
    (e e' : Endpoint P) : Prop :=
  ∀ q, q ≠ p → q < e.nextPacket →
    ∀ f : Field, f.addresses = true →
      fmt.getInteger f (e'.packets q) =
        fmt.getInteger f (e.packets q)

/- The connection a received packet is routed to, or null. -/
def routedTo
    (fmt : PacketFormat P)
    (cfg : Config)
    (e : Endpoint P)
    (x : P) : ConnPtr :=
  match checkPacket fmt cfg x with
  | .ok (y, true) => lookup fmt cfg e y
  | _ => 0

section Frames

variable
    {fmt : PacketFormat P}
    {cfg : Config}
    {p : PacketPtr}
    {e e' : Endpoint P}

theorem handedOut_of_eq
    (hOut : e'.out = e.out) :
    handedOut e e' = [] := by
  rw [handedOut, hOut, List.drop_length, List.map_nil]

theorem handedOut_of_append
    {sent : List (P × BitVec 32)}
    (hOut : e'.out = e.out ++ sent) :
    handedOut e e' = sent.map Prod.fst := by
  rw [handedOut, hOut, List.drop_left]

/-
  What the ingress path transmits: nothing, or an ack on the
  connection the packet was routed to.
-/
inductive IngressTransmits
    (fmt : PacketFormat P)
    (cfg : Config)
    (p : PacketPtr)
    (e e' : Endpoint P) : Prop
| nothing :
    e'.out = e.out →
    IngressTransmits fmt cfg p e e'
| ack {conn : Connection} {seq : BitVec 32} {y x : P} :
    e.conns (routedTo fmt cfg e (e.packets p)) = some conn →
    completePacket fmt cfg conn e.myLocalHostId e.myHostId
      (ackPacket fmt seq y) = .ok x →
    e'.out = e.out ++ [(x, fmt.getWord .computedTotalLen x)] →
    IngressTransmits fmt cfg p e e'

theorem IngressResult.transmits
    (hIngress : IngressResult fmt cfg p e e') :
    IngressTransmits fmt cfg p e e' := by
  cases hIngress with
  | dropped hFront => cases hFront <;> exact .nothing rfl
  | @routed y _ _ hCheck _ _ hBack =>
      have hReceiver : routedTo fmt cfg e (e.packets p) =
          lookup fmt cfg e y := by
        rw [routedTo, hCheck]
      cases hBack with
      | ack _ _ hReceive =>
          rcases receiveAck_ok_iff.mp hReceive with
            ⟨conn, -, ⟨-, rfl⟩ | ⟨_, t, -, -, rfl⟩⟩ <;>
              exact .nothing rfl
      | data _ hConn hAcked _ =>
          cases hAcked with
          | off => exact .nothing rfl
          | @sent x _ hComplete =>
              rw [← hReceiver] at hConn
              refine .ack hConn hComplete ?_
              simp [Endpoint.transmit, Endpoint.sendPacket,
                Endpoint.restoreAll, Endpoint.requested,
                Endpoint.setConn, Endpoint.setPacket]

theorem restoreAll_myHostId
    (taken : List PacketPtr) :
    (e.restoreAll fmt taken).myHostId = e.myHostId :=
  rfl

theorem Acked.myHostId_eq
    {conn : Connection}
    {seq : BitVec 32}
    (hAcked : Acked fmt cfg conn seq e e') :
    e'.myHostId = e.myHostId := by
  cases hAcked <;> rfl

theorem IngressResult.myHostId_eq
    (hIngress : IngressResult fmt cfg p e e') :
    e'.myHostId = e.myHostId := by
  cases hIngress with
  | dropped hFront => cases hFront <;> rfl
  | routed _ _ _ hBack =>
      cases hBack with
      | ack _ _ hReceive =>
          rcases receiveAck_ok_iff.mp hReceive with
            ⟨conn, -, ⟨-, rfl⟩ | ⟨_, t, -, -, rfl⟩⟩ <;> rfl
      | data _ _ hAcked _ =>
          rw [restoreAll_myHostId, Endpoint.setConn_myHostId,
            hAcked.myHostId_eq, Endpoint.setPacket_myHostId]

theorem IngressResult.sameHosts
    (hIngress : IngressResult fmt cfg p e e') :
    SameHosts e e' :=
  .of_table hIngress.myHostId_eq hIngress.sameTable

/- Only the packet itself gets other members. -/
theorem IngressResult.get_of_ne
    (hIngress : IngressResult fmt cfg p e e')
    {q : PacketPtr}
    (hNe : q ≠ p)
    (hOld : q < e.nextPacket)
    {f : Field}
    (hField : f ≠ .computedTotalLen) :
    fmt.getInteger f (e'.packets q) =
      fmt.getInteger f (e.packets q) := by
  have hSet : ∀ x : P, (e.setPacket p x).packets q =
      e.packets q :=
    fun x => Endpoint.setPacket_packets_of_ne e x hNe
  cases hIngress with
  | dropped hFront =>
      cases hFront with
      | rejected => rw [hSet]
      | unclaimed => rw [hSet]
      | parked =>
          change fmt.getInteger f ((e.setPacket p _).packets q)
            = _
          rw [hSet]
  | routed _ _ _ hBack =>
      cases hBack with
      | ack _ _ hReceive =>
          rcases receiveAck_ok_iff.mp hReceive with
            ⟨conn, -, ⟨-, rfl⟩ | ⟨_, t, -, -, rfl⟩⟩
          · rw [hSet]
          · change fmt.getInteger f
              ((e.setPacket p _).packets q) = _
            rw [hSet]
      | data _ _ hAcked _ =>
          rw [restoreAll_get hField, Endpoint.setConn_packets,
            hAcked.packets_eq (Nat.ne_of_lt hOld), hSet]

theorem IngressResult.keepsAddresses
    (hIngress : IngressResult fmt cfg p e e') :
    KeepsAddresses fmt p e e' := by
  intro q hNe hOld f hField
  exact hIngress.get_of_ne hNe hOld
    (Field.ne_of_addresses hField rfl)

end Frames

end NetBlocks
