import NetBlocks.Core.Addresses
import NetBlocks.Core.Arrival
import NetBlocks.Core.TimerCalls

/-
  One packet and its ack between the two ends of a connection,
  when nothing is lost: without a checksum and with no order
  kept, an empty packet is sent, taken and acknowledged.

  Main declarations:
    * `Ends` and `IsOpen`
    * `Idle` and `Awaits`
    * `IsOpen.sends` and `IsOpen.takes`
    * `Idle.sends`, `IsOpen.answers` and `Awaits.acked`
-/

namespace NetBlocks

open Except

variable {P : Type}

------------------------------------------------------------
-- The Two Ends of a Connection
------------------------------------------------------------

/- The apps and hosts of a connection, which fit. -/
structure Ends where
  localApp : BitVec 32
  remoteApp : BitVec 32
  localHost : BitVec 64
  remoteHost : BitVec 64
  localApp_lt : localApp.toNat < 2 ^ 16
  remoteApp_lt : remoteApp.toNat < 2 ^ 16
  localHost_lt : localHost.toNat < 2 ^ 48
  remoteHost_lt : remoteHost.toNat < 2 ^ 48

/- The connection as the other end sees it. -/
def Ends.flip
    (s : Ends) : Ends where
  localApp := s.remoteApp
  remoteApp := s.localApp
  localHost := s.remoteHost
  remoteHost := s.localHost
  localApp_lt := s.remoteApp_lt
  remoteApp_lt := s.localApp_lt
  localHost_lt := s.remoteHost_lt
  remoteHost_lt := s.localHost_lt

/- The packet `x` is for the local end, from the remote one. -/
structure Ends.Gets
    (fmt : PacketFormat P)
    (s : Ends)
    (x : P) : Prop where
  dstHost : fmt.getInteger .dstHostId x = s.localHost
  srcHost : fmt.getInteger .srcHostId x = s.remoteHost
  dstApp : fmt.getWord .dstAppId x = s.localApp
  srcApp : fmt.getWord .srcAppId x = s.remoteApp

/- The connection at `c` is the local end. -/
structure IsOpen
    (cfg : Config)
    (s : Ends)
    (c : ConnPtr)
    (e : Endpoint P)
    (conn : Connection) : Prop where
  live : e.conns c = some conn
  localApp : conn.localAppId = s.localApp
  remoteApp : conn.remoteAppId = s.remoteApp
  remoteHost : conn.remoteHostId = s.remoteHost
  host : e.myLocalHostId = s.localHost
  found : e.netState.retrieveConnection cfg.flowIdentifier
    s.localApp s.remoteApp s.remoteHost = c
  ne_null : c ≠ 0

section Ends

variable
    {fmt : PacketFormat P}
    {cfg : Config}
    {s : Ends}
    {c : ConnPtr}
    {e e' : Endpoint P}
    {conn conn' : Connection}
    {x y : P}

theorem IsOpen.fits
    (hOpen : IsOpen cfg s c e conn) :
    HostsFit conn e.myLocalHostId := by
  refine ⟨?_, ?_⟩
  · rw [hOpen.remoteHost]
    exact s.remoteHost_lt
  · rw [hOpen.host]
    exact s.localHost_lt

/- The ids of a connection do not change. -/
theorem IsOpen.congr
    (hOpen : IsOpen cfg s c e conn)
    (hConn : e'.conns c = some conn')
    (hEntry : conn'.tableEntry c = conn.tableEntry c)
    (hHost : e'.myLocalHostId = e.myLocalHostId)
    (hTable : e'.netState = e.netState) :
    IsOpen cfg s c e' conn' where
  live := hConn
  localApp := (congrArg TableEntry.localAppId hEntry).trans
    hOpen.localApp
  remoteApp := (congrArg TableEntry.remoteAppId hEntry).trans
    hOpen.remoteApp
  remoteHost :=
    (congrArg TableEntry.remoteHostId hEntry).trans
      hOpen.remoteHost
  host := hHost.trans hOpen.host
  found := by
    rw [hTable]
    exact hOpen.found
  ne_null := hOpen.ne_null

/- A short app id is read back as it is. -/
theorem getWord_of_canon
    {f : Field}
    {v : BitVec 32}
    (hBits : f.bits = 16)
    (hSigned : f.signed = false)
    (hShort : v.toNat < 2 ^ 16)
    (hGet : fmt.getInteger f x = f.canon (v.setWidth 64)) :
    fmt.getWord f x = v := by
  rw [PacketFormat.getWord, hGet, Field.canon,
    if_neg (by simp [hSigned]), hBits]
  apply BitVec.eq_of_toNat_eq
  simp only [BitVec.toNat_setWidth]
  omega

/- What an end completes is for the other end. -/
theorem IsOpen.completes
    (hOpen : IsOpen cfg s c e conn)
    (hSized : fmt.Sized x)
    (hComplete : completePacket fmt cfg conn e.myLocalHostId
      e.myHostId x = .ok y) :
    s.flip.Gets fmt y := by
  rcases completePacket_ids hOpen.fits hSized hComplete with
    ⟨hDstHost, hSrcHost, hDstApp, hSrcApp⟩
  rw [hOpen.remoteApp] at hDstApp
  rw [hOpen.localApp] at hSrcApp
  exact ⟨hDstHost.trans hOpen.remoteHost,
    hSrcHost.trans hOpen.host,
    getWord_of_canon rfl rfl s.remoteApp_lt hDstApp,
    getWord_of_canon rfl rfl s.localApp_lt hSrcApp⟩

/- Without a checksum every packet can be completed. -/
theorem completePacket_ok
    (fmt : PacketFormat P)
    (hChecksum : cfg.checksumEnabled = false)
    (conn : Connection)
    (localHostId : BitVec 64)
    (hostId : BitVec 32)
    (x : P) :
    ∃ y, completePacket fmt cfg conn localHostId hostId x =
      .ok y := by
  simp [completePacket, checksumPacket, hChecksum]

/- A packet for the local end is routed to its connection. -/
theorem IsOpen.routes
    (hChecksum : cfg.checksumEnabled = false)
    (hOpen : IsOpen cfg s c e conn)
    (hGets : s.Gets fmt x) :
    let y := fmt.restoreTotalLen x
    checkPacket fmt cfg x = .ok (y, true) ∧
      fmt.getInteger .dstHostId y = e.myLocalHostId ∧
      lookup fmt cfg e y = c := by
  intro y
  refine ⟨?_, ?_, ?_⟩
  · simp [checkPacket, hChecksum, y]
  · rw [PacketFormat.get_restoreTotalLen (by decide),
      hGets.dstHost, hOpen.host]
  · rw [lookup, PacketFormat.getWord,
      PacketFormat.get_restoreTotalLen (by decide),
      PacketFormat.getWord,
      PacketFormat.get_restoreTotalLen (by decide),
      PacketFormat.get_restoreTotalLen (by decide),
      ← PacketFormat.getWord, ← PacketFormat.getWord,
      hGets.dstApp, hGets.srcApp, hGets.srcHost]
    exact hOpen.found

/- So it is once it is received. -/
theorem IsOpen.routes_polled
    (hChecksum : cfg.checksumEnabled = false)
    (hOpen : IsOpen cfg s c e conn)
    (hGets : s.Gets fmt x) :
    FrontResult fmt cfg e.nextPacket (e.polled x)
      .hookContinue ((e.polled x).setPacket e.nextPacket
        (receivedPacket fmt c x)) := by
  rcases hOpen.routes hChecksum hGets with
    ⟨hCheck, hHost, hFound⟩
  have hLookup : lookup fmt cfg (e.polled x)
      (fmt.restoreTotalLen x) = c := hFound
  have hNe : lookup fmt cfg (e.polled x)
      (fmt.restoreTotalLen x) ≠ 0 := by
    rw [hLookup]
    exact hOpen.ne_null
  have hCheck' : checkPacket fmt cfg
      ((e.polled x).packets e.nextPacket) =
        .ok (fmt.restoreTotalLen x, true) := by
    rw [polled_packets_self]
    exact hCheck
  have hRouted := FrontResult.routed hCheck' hHost hNe
  rw [hLookup] at hRouted
  exact hRouted

/- What the modules behind the lookup do is what is done. -/
theorem IsOpen.ingress_ok
    {status : HookStatus}
    (hChecksum : cfg.checksumEnabled = false)
    (hOpen : IsOpen cfg s c e conn)
    (hGets : s.Gets fmt x)
    (hBack : BackResult fmt cfg e.nextPacket c
      ((e.polled x).setPacket e.nextPacket
        (receivedPacket fmt c x)) status e')
    (len : Int) :
    ingress fmt cfg x len e = .ok e' := by
  have hFront := hOpen.routes_polled hChecksum hGets
  have hFlow : InorderModule.flowConnection fmt e.nextPacket
      ((e.polled x).setPacket e.nextPacket
        (receivedPacket fmt c x)) = c :=
    flowConnection_setPacket e.nextPacket c
      (fmt.restoreTotalLen x)
  have hBuffer := Nat.ne_of_lt (Nat.lt_succ_self e.nextPacket)
  exact runIngressPath_ok_iff.mpr (Or.inr ⟨_, status, hFront,
    (runBack_ok_iff hFlow hBuffer).mpr hBack⟩)

end Ends

------------------------------------------------------------
-- Sending, Answering and Being Answered
------------------------------------------------------------

/- Nothing is in flight after the packet with number `n`. -/
structure Idle
    (cfg : Config)
    (s : Ends)
    (c : ConnPtr)
    (n : BitVec 32)
    (free : List TimerPtr)
    (e : Endpoint P)
    (conn : Connection) : Prop where
  isOpen : IsOpen cfg s c e conn
  last : conn.lastSentSequence = n
  pool : e.timers.Represents [] free

/-
  Only the packet with number `n` is in flight, from the buffer
  at `q` and with the timer `u`.
-/
structure Awaits
    (fmt : PacketFormat P)
    (cfg : Config)
    (s : Ends)
    (c : ConnPtr)
    (n : BitVec 32)
    (q : PacketPtr)
    (u : TimerPtr)
    (free : List TimerPtr)
    (e : Endpoint P)
    (conn : Connection) : Prop where
  isOpen : IsOpen cfg s c e conn
  last : conn.lastSentSequence = n
  pool : e.timers.Represents [u] free
  held : conn.redeliveryBuffer (slot n) = some q
  timer : toTimerPtr
    (fmt.getInteger .redeliveryTimer (e.packets q)) = some u
  old : q < e.nextPacket

/- An empty packet with the number `n`, for an end. -/
structure EmptyData
    (fmt : PacketFormat P)
    (s : Ends)
    (n : BitVec 32)
    (x : P) : Prop where
  gets : s.Gets fmt x
  number : fmt.getWord .sequenceNumber x = n
  noAck : fmt.getWord .ackSequenceNumber x = 0
  empty : fmt.sentLen x = 0
  sized : fmt.Sized x

section Exchange

variable
    {fmt : PacketFormat P}
    {cfg : Config}
    {s : Ends}
    {c : ConnPtr}
    {n : BitVec 32}
    {q : PacketPtr}
    {u : TimerPtr}
    {free : List TimerPtr}
    {e : Endpoint P}
    {conn : Connection}
    {x : P}

theorem sentLen_of_total
    (hTotal : fmt.getWord .totalLen x =
      BitVec.ofNat 32 (fmt.headerLen + 0)) :
    fmt.sentLen x = 0 := by
  rw [PacketFormat.sentLen, hTotal, Nat.add_zero,
    BitVec.sub_self]
  rfl

/- What an end sends is for the other end, and is no ack. -/
theorem IsOpen.sends
    {active : List TimerPtr}
    {buff : List Byte}
    {y : P}
    (hReliable : cfg.reliableEnabled = true)
    (hChecksum : cfg.checksumEnabled = false)
    (hOpen : IsOpen cfg s c e conn)
    (hPool : e.timers.Represents active (u :: free))
    (hWrite : fmt.writePayload buff (lengthPacket fmt
      buff.length (e.packets e.nextPacket)) = .ok y) :
    ∃ x timers active',
      Sends fmt cfg e conn e.nextPacket y x (some u) timers ∧
      nbSend fmt cfg c buff e = .ok (buff.length,
        e.requested.sent fmt cfg c conn e.nextPacket timers
          x) ∧
      IsOpen cfg s c (e.requested.sent fmt cfg c conn
        e.nextPacket timers x)
        (numberedConn cfg conn e.nextPacket) ∧
      timers.Represents active' free ∧
      active'.Perm (u :: active) ∧
      s.flip.Gets fmt x ∧
      fmt.getWord .ackSequenceNumber x = 0 := by
  rcases startTimer_ok e.timeNow e.nextPacket hReliable hPool
    with ⟨timers, hStart⟩
  rcases startTimer_represents hReliable hPool hStart with
    ⟨u', free', active', hU, hCons, hPool', hPerm, -⟩
  cases hU
  cases hCons
  rcases completePacket_ok fmt hChecksum conn
      e.myLocalHostId e.myHostId (armPacket fmt cfg (some u)
        (sequencePacket fmt cfg conn y)) with ⟨x, hX⟩
  have hSends : Sends fmt cfg e conn e.nextPacket y x (some u)
      timers := ⟨hStart, hX⟩
  have hSized := sized_of_write hWrite
  refine ⟨x, timers, active', hSends,
    nbSend_ok_iff.mpr ⟨conn, y, x, some u, timers, hOpen.live,
      hWrite, hSends, rfl, rfl⟩, ?_, hPool', hPerm, ?_, ?_⟩
  · exact hOpen.congr (Endpoint.setConn_conns_self _ _ _)
      rfl rfl rfl
  · exact hOpen.completes (Sends.sized_armPacket hSized) hX
  · exact hSends.ackSequenceNumber hOpen.fits hSized hReliable

/- An empty packet is sent while there is a timer. -/
theorem Idle.sends
    (hReliable : cfg.reliableEnabled = true)
    (hChecksum : cfg.checksumEnabled = false)
    (hWrite : ∀ x, ∃ y, fmt.writePayload [] x = .ok y)
    (hIdle : Idle cfg s c n (u :: free) e conn) :
    ∃ x e' conn', nbSend fmt cfg c [] e = .ok (0, e') ∧
      Awaits fmt cfg s c (n + 1) e.nextPacket u free e'
        conn' ∧
      EmptyData fmt s.flip (n + 1) x ∧
      e'.out = e.out ++
        [(x, fmt.getWord .computedTotalLen x)] := by
  have hOpen := hIdle.isOpen
  rcases hWrite (lengthPacket fmt 0
      (e.packets e.nextPacket)) with ⟨y, hY⟩
  have hBuff : fmt.writePayload [] (lengthPacket fmt
      ([] : List Byte).length (e.packets e.nextPacket)) =
        .ok y := hY
  rcases hOpen.sends hReliable hChecksum hIdle.pool hBuff with
    ⟨x, timers, active, hSends, hSend, hOpen', hPool, hPerm,
      hGets, hNoAck⟩
  have hSized := sized_of_write hBuff
  have hTotal : fmt.getWord .totalLen x =
      BitVec.ofNat 32 (fmt.headerLen + 0) := by
    rw [PacketFormat.getWord, hSends.get hOpen.fits hSized rfl
        (by decide) (by decide) (by decide),
      fmt.write_get _ _ _ y hY, ← PacketFormat.getWord,
      lengthPacket_total]
  have hNumber := hSends.sequenceNumber hOpen.fits hSized
    (Or.inr hReliable)
  have hTimer := hSends.redeliveryTimer hOpen.fits hSized
    hReliable
  have hOwn : (e.requested.sent fmt cfg c conn e.nextPacket
      timers x).packets e.nextPacket = x :=
    Endpoint.setPacket_packets_self _ _ _
  refine ⟨x, _, _, hSend, ⟨hOpen', ?_, ?_, ?_, ?_,
    Nat.lt_succ_self _⟩, ⟨hGets, ?_, hNoAck,
      sentLen_of_total hTotal, ?_⟩, ?_⟩
  · change conn.lastSentSequence + 1 = n + 1
    rw [hIdle.last]
  · rw [List.perm_singleton.mp hPerm] at hPool
    exact hPool
  · rw [numberedConn, if_pos hReliable, hIdle.last]
    exact Function.update_self _ _ _
  · rw [hOwn, hTimer]
    exact toTimerPtr_toUll u
  · rw [hNumber, hIdle.last]
  · apply (PacketFormat.sized_congr _).mpr hSized
    exact hSends.get hOpen.fits hSized rfl (by decide)
      (by decide) (by decide)
  · simp [Endpoint.sent, Endpoint.transmit,
      Endpoint.sendPacket, Endpoint.setConn,
      Endpoint.setPacket, Endpoint.requested]

/-
  A packet that is no ack is taken while the queue has room,
  and its number is acknowledged.
-/
theorem IsOpen.takes
    {status : HookStatus}
    {w : InorderView}
    {taken : List PacketPtr}
    (hReliable : cfg.reliableEnabled = true)
    (hChecksum : cfg.checksumEnabled = false)
    (hOpen : IsOpen cfg s c e conn)
    (hGets : s.Gets fmt x)
    (hNoAck : fmt.getWord .ackSequenceNumber x = 0)
    (hNumber : fmt.getWord .sequenceNumber x = n)
    (hPlace : place cfg.inorderStrategy n e.nextPacket
      conn.inorderView = (status, w, taken))
    (hRoom : ∀ lens : PacketPtr → Int,
      lens e.nextPacket = fmt.sentLen x →
        Room conn.inputQueue (payloads lens
          (arrivedPackets status e.nextPacket taken)))
    (len : Int) :
    ∃ y e' conn', ingress fmt cfg x len e = .ok e' ∧
      IsOpen cfg s c e' conn' ∧
      conn'.inputQueue.length ≤
        conn.inputQueue.length + 34 ∧
      s.flip.Gets fmt y ∧
      fmt.getWord .ackSequenceNumber y = n ∧
      e'.out = e.out ++
        [(y, fmt.getWord .computedTotalLen y)] := by
  let p := e.nextPacket
  let z := receivedPacket fmt c x
  let e₀ := (e.polled x).setPacket p z
  have hOwn : e₀.packets p = z :=
    Endpoint.setPacket_packets_self _ _ _
  have hOwnNumber : fmt.getWord .sequenceNumber z = n :=
    receivedPacket_number.trans hNumber
  rcases completePacket_ok fmt hChecksum conn
      e.myLocalHostId e.myHostId (ackPacket fmt n
        (e₀.packets e₀.nextPacket)) with ⟨y, hY⟩
  let e₁ := e₀.requested.transmit fmt e₀.nextPacket y
  have hAcked : Acked fmt cfg conn
      (fmt.getWord .sequenceNumber (e₀.packets p)) e₀ e₁ := by
    rw [hOwn, hOwnNumber]
    exact .sent hReliable hY
  have hOwn₁ : e₁.packets p = z := by
    rw [hAcked.packets_eq (Nat.ne_of_lt (Nat.lt_succ_self _)),
      hOwn]
  have hLen : InorderModule.ingressLen fmt cfg.inorderStrategy
      e₁ p = fun q => fmt.sentLen (e₁.packets q) :=
    InorderModule.ingressLen_eq _ (by
      rw [hOwn₁, restoreTotalLen_receivedPacket])
  have hOwnLen : fmt.sentLen (e₁.packets p) =
      fmt.sentLen x := by
    rw [hOwn₁, PacketFormat.sentLen,
      receivedPacket_word (by decide) (by decide)]
    rfl
  have hAbsorb : ∃ v, absorb cfg.inorderStrategy
      (InorderModule.ingressLen fmt cfg.inorderStrategy e₁ p)
      (fmt.getWord .sequenceNumber (e₀.packets p)) p
      conn.inorderView = .ok (status, v, taken) ∧
        v.inputQueue.length ≤ conn.inputQueue.length + 34 := by
    rw [hOwn, hOwnNumber, hLen]
    refine ⟨_, absorb_ok_iff.mpr
      ⟨w, hPlace, hRoom _ ?_, rfl⟩, ?_⟩
    · exact hOwnLen
    · rw [List.length_append]
      exact Nat.add_le_add_left (place_payloads_le hPlace _) _
  rcases hAbsorb with ⟨v, hAbsorb, hQueue⟩
  have hData : cfg.reliableEnabled = true →
      fmt.getWord .ackSequenceNumber (e₀.packets p) = 0 := by
    intro _
    rw [hOwn, receivedPacket_word (by decide) (by decide)]
    exact hNoAck
  let conn' := arrivedConn conn status v
  let e' := (e₁.setConn c conn').restoreAll fmt
    (arrivedPackets status p taken)
  have hIngress : ingress fmt cfg x len e = .ok e' :=
    hOpen.ingress_ok hChecksum hGets
      (.data hData hOpen.live hAcked hAbsorb) len
  have hEntry : conn'.tableEntry c = conn.tableEntry c := by
    simp only [conn', arrivedConn]
    split <;> rfl
  have hConn : e'.conns c = some conn' :=
    Endpoint.setConn_conns_self _ _ _
  have hSame := ingress_sameTable hIngress
  have hView : conn'.inputQueue = v.inputQueue :=
    congrArg InorderView.inputQueue
      (arrivedConn_members conn status v).1
  refine ⟨y, e', conn', hIngress,
    hOpen.congr hConn hEntry hSame.host hSame.netState,
    by rw [hView]; exact hQueue,
    hOpen.completes (sized_ackPacket _ _) hY, ?_, ?_⟩
  · rw [PacketFormat.getWord, completePacket_get hOpen.fits hY
      (sized_ackPacket _ _) rfl, ackPacket,
      lengthPacket_get (by decide) (by decide)]
    exact PacketFormat.getWord_setWord_self rfl
  · simp [e', e₁, e₀, Endpoint.transmit, Endpoint.sendPacket,
      Endpoint.restoreAll, Endpoint.requested,
      Endpoint.polled, Endpoint.setConn, Endpoint.setPacket]

/- An empty packet is taken, and its number acknowledged. -/
theorem IsOpen.answers
    (hReliable : cfg.reliableEnabled = true)
    (hChecksum : cfg.checksumEnabled = false)
    (hStrategy : cfg.inorderStrategy = .noInorder)
    (hOpen : IsOpen cfg s c e conn)
    (hData : EmptyData fmt s n x)
    (len : Int) :
    ∃ y e' conn', ingress fmt cfg x len e = .ok e' ∧
      IsOpen cfg s c e' conn' ∧
      s.flip.Gets fmt y ∧
      fmt.getWord .ackSequenceNumber y = n ∧
      e'.out = e.out ++
        [(y, fmt.getWord .computedTotalLen y)] := by
  have hPlace : place cfg.inorderStrategy n e.nextPacket
      conn.inorderView =
        (.hookContinue, conn.inorderView, []) := by
    rw [hStrategy]
    rfl
  have hRoom : ∀ lens : PacketPtr → Int,
      lens e.nextPacket = fmt.sentLen x →
        Room conn.inputQueue (payloads lens (arrivedPackets
          .hookContinue e.nextPacket [])) := by
    intro lens hLens
    rw [show payloads lens (arrivedPackets .hookContinue
      e.nextPacket []) = [] from
        payloads_of_zero (hLens.trans hData.empty)]
    exact room_nil _
  rcases hOpen.takes hReliable hChecksum hData.gets
      hData.noAck hData.number hPlace hRoom len with
    ⟨y, e', conn', hIngress, hOpen', -, hAnswer⟩
  exact ⟨y, e', conn', hIngress, hOpen', hAnswer⟩

/- The ack of the packet in flight frees its timer. -/
theorem Awaits.acked
    (hReliable : cfg.reliableEnabled = true)
    (hChecksum : cfg.checksumEnabled = false)
    (hAwaits : Awaits fmt cfg s c n q u free e conn)
    (hGets : s.Gets fmt x)
    (hAck : fmt.getWord .ackSequenceNumber x = n)
    (hNe : n ≠ 0)
    (len : Int) :
    ∃ e' conn', ingress fmt cfg x len e = .ok e' ∧
      Idle cfg s c n (u :: free) e' conn' ∧
      e'.out = e.out := by
  have hOpen := hAwaits.isOpen
  let p := e.nextPacket
  let z := receivedPacket fmt c x
  let e₀ := (e.polled x).setPacket p z
  have hNumber : fmt.getWord .ackSequenceNumber
      (e₀.packets p) = n := by
    rw [Endpoint.setPacket_packets_self,
      receivedPacket_word (by decide) (by decide), hAck]
  have hBuffer : e₀.packets q = e.packets q := by
    have hNotOwn : q ≠ p := Nat.ne_of_lt hAwaits.old
    rw [Endpoint.setPacket_packets_of_ne _ _ hNotOwn,
      polled_packets_of_ne x hNotOwn]
  have hTimer : toTimerPtr (fmt.getInteger .redeliveryTimer
      (e₀.packets q)) = some u := by
    rw [hBuffer]
    exact hAwaits.timer
  let e' := ({ e₀ with
    timers := (e₀.timers.removeTimer u).returnTimer u } :
      Endpoint P).setConn c
    { conn with
      redeliveryBuffer :=
        Function.update conn.redeliveryBuffer (slot n) none }
  have hReceive : ReliableModule.receiveAck fmt c
      (fmt.getWord .ackSequenceNumber (e₀.packets p)) e₀ =
        .ok e' := by
    rw [hNumber]
    exact receiveAck_ok_iff.mpr ⟨conn, hOpen.live,
      Or.inr ⟨q, u, hAwaits.held, hTimer, rfl⟩⟩
  have hAcks : fmt.getWord .ackSequenceNumber
      (e₀.packets p) ≠ 0 := by
    rw [hNumber]
    exact hNe
  have hIngress := hOpen.ingress_ok hChecksum hGets
    (.ack hReliable hAcks hReceive) len
  have hOff : u ∉ ([] : List TimerPtr) ++ free := by
    rw [List.nil_append]
    exact (List.nodup_cons.mp hAwaits.pool.nodup).1
  have hConn : e'.conns c = some _ :=
    Endpoint.setConn_conns_self _ _ _
  have hSame := ingress_sameTable hIngress
  have hRemoved : (e.timers.removeTimer u).Represents
      ([] ++ []) free :=
    TimerPool.removeTimer_represents hAwaits.pool
  refine ⟨e', _, hIngress, ⟨hOpen.congr hConn rfl hSame.host
    hSame.netState, hAwaits.last, ?_⟩, rfl⟩
  exact TimerPool.returnTimer_represents hRemoved hOff

end Exchange

end NetBlocks
