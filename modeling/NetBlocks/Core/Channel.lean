import NetBlocks.Core.Addresses
import NetBlocks.Core.ApiCalls
import NetBlocks.Core.Replay

/-
  A connection that sends and one that receives, each on a
  stack of its own, and a network between them that loses,
  duplicates and reorders packets.

  Main declarations:
    * `Moves`
    * `Moves.carries`
    * `Channel` and `ChannelSteps`
    * `ChannelInvariant` and `ChannelSteps.invariant`
-/

namespace NetBlocks

open Except TransitionSystem

variable {P : Type}

------------------------------------------------------------
-- Small Steps of a Stack
------------------------------------------------------------

/- A call, or a part of `nb__accept`. -/
inductive StackMove (P : Type) where
| call (call : Call P)
| accept (move : AcceptMove)

inductive Moves
    (fmt : PacketFormat P)
    (cfg : Config)
    (e : Endpoint P) : StackMove P → Endpoint P → Prop
| call {call : Call P} {e' : Endpoint P} :
    Calls fmt cfg e call e' →
    Moves fmt cfg e (.call call) e'
| accept {move : AcceptMove} {e' : Endpoint P} :
    AcceptStep fmt cfg (fun _ => True) e move e' →
    Moves fmt cfg e (.accept move) e'

/-
  The packet that a step runs through the ingress path, and
  the stack right before that.
-/
def StackMove.processes
    (e : Endpoint P) :
    StackMove P → Option (PacketPtr × Endpoint P)
| .call (.ingress x _) => some (e.nextPacket, e.polled x)
| .accept (.replays p) => some (p, e)
| _ => none

section Moves

variable
    {fmt : PacketFormat P}
    {cfg : Config}
    {p q : PacketPtr}
    {number : BitVec 32}
    {bytes : List Byte}
    {x y : P}
    {e e₀ e' : Endpoint P}
    {move : StackMove P}

/- Every call of the API is made of such steps. -/
theorem moves_of_apiCalls
    {call : ApiCall P}
    (hOld : QueuedOld e)
    (hCall : ApiCalls fmt cfg e call e') :
    ∃ moves, Run (Moves fmt cfg) e moves e' := by
  cases hCall with
  | call hCall => exact ⟨_, .cons (.call hCall) (.nil e')⟩
  | accept hNe hFree hAccept =>
      rcases nbAccept_steps hOld (fun _ hp => hp) hNe hFree
        hAccept with ⟨moves, hRun⟩
      have hMoves : Run (Moves fmt cfg) e
          (moves.map StackMove.accept) e' :=
        hRun.map (f := id) (by
          intro e₁ move e₂ hStep
          apply Moves.accept
          cases hStep with
          | opens hCall => exact .opens hCall
          | replays _ hPacket hIngress =>
              exact .replays trivial hPacket hIngress
          | dequeues hConn hQueue =>
              exact .dequeues hConn hQueue
          | signals hConn => exact .signals hConn)
      exact ⟨_, hMoves⟩

/- A packet that is processed is in an old buffer by then. -/
theorem Moves.processed
    (hMoves : Moves fmt cfg e move e')
    (hProcesses : move.processes e = some (p, e₀)) :
    p < e₀.nextPacket ∧ IngressResult fmt cfg p e₀ e' ∧
      e.nextPacket ≤ e₀.nextPacket ∧
      e₀.conns = e.conns ∧ SameTable e e₀ ∧
      ∀ q, q < e.nextPacket → e₀.packets q = e.packets q := by
  cases hMoves with
  | call hCall =>
      cases hCall with
      | @ingress _ x len hIngress =>
          cases hProcesses
          refine ⟨Nat.lt_succ_self _,
            ingress_iff.mp hIngress, Nat.le_succ _, rfl,
            .of_conns_eq rfl rfl rfl, ?_⟩
          intro q hq
          exact polled_packets_of_ne x (Nat.ne_of_lt hq)
      | _ => cases hProcesses
  | accept hStep =>
      cases hStep with
      | replays _ hOld hIngress =>
          cases hProcesses
          exact ⟨hOld, (runIngressPath_iff
            (Nat.ne_of_lt hOld)).mp hIngress, Nat.le_refl _,
            rfl, .refl e, fun _ _ => rfl⟩
      | _ => cases hProcesses

theorem Moves.hostsKept
    (hHosts : HostsKept e)
    (hMoves : Moves fmt cfg e move e') :
    HostsKept e' := by
  cases hMoves with
  | call hCall => exact hCall.hostsKept hHosts
  | accept hStep => exact hStep.hostsKept hHosts

theorem Moves.nextPacket_le
    (hMoves : Moves fmt cfg e move e') :
    e.nextPacket ≤ e'.nextPacket := by
  cases hMoves with
  | call hCall => exact hCall.nextPacket_le
  | accept hStep => exact hStep.nextPacket_le

------------------------------------------------------------
-- Packets Keep What They Carry
------------------------------------------------------------

/- A packet whose header is right is long enough. -/
theorem PacketFormat.Carries.sized
    (hCarries : fmt.Carries number bytes x) :
    fmt.Sized (fmt.restoreTotalLen x) := by
  have hTotal := hCarries.totalLen
  rw [← PacketFormat.toInt_getInteger rfl rfl] at hTotal
  rw [PacketFormat.Sized, PacketFormat.restoreTotalLen,
    fmt.get_set_self _ _ _
      (Field.fits_of_bits_ne (by decide) _)]
  have hCanon := fmt.get_canon .totalLen x
  change (fmt.headerLen : Int) ≤
    (Field.totalLen.canon (fmt.getInteger .totalLen x)).toInt
  rw [hCanon, hTotal]
  omega

/- So does what the check makes of it. -/
theorem PacketFormat.Carries.checked
    {passes : Bool}
    (hCarries : fmt.Carries number bytes x)
    (hCheck : checkPacket fmt cfg x = .ok (y, passes)) :
    fmt.Carries number bytes y where
  number := by
    rw [PacketFormat.getWord, checkPacket_get hCheck
      hCarries.sized (by decide), ← PacketFormat.getWord,
      hCarries.number]
  length := by
    rw [PacketFormat.getWord, checkPacket_get hCheck
      hCarries.sized (by decide), ← PacketFormat.getWord,
      hCarries.length]
  length_lt := hCarries.length_lt
  payload hNe := by
    rw [checkPacket_read hCheck (by rw [hCarries.totalLen]),
      hCarries.payload hNe]

/- Restoring lengths does not matter. -/
theorem PacketFormat.Carries.restoreAll
    {taken : List PacketPtr}
    (hCarries : fmt.Carries number bytes (e.packets q)) :
    fmt.Carries number bytes
      ((e.restoreAll fmt taken).packets q) := by
  simp only [Endpoint.restoreAll]
  split
  · exact hCarries.setInteger rfl _
  · exact hCarries

theorem BackResult.carries
    {c : ConnPtr}
    {status : HookStatus}
    (hBack : BackResult fmt cfg p c e status e')
    (hOld : q < e.nextPacket)
    (hCarries : fmt.Carries number bytes (e.packets q)) :
    fmt.Carries number bytes (e'.packets q) := by
  cases hBack with
  | ack _ _ hReceive =>
      rcases receiveAck_ok_iff.mp hReceive with
        ⟨conn, -, ⟨-, rfl⟩ | ⟨_, t, -, -, rfl⟩⟩ <;>
          exact hCarries
  | @data conn e₁ status v taken _ _ hAcked _ =>
      rw [← hAcked.packets_eq (Nat.ne_of_lt hOld)]
        at hCarries
      exact hCarries.restoreAll (e := e₁.setConn c _)

/- The ingress path only works on what is not sent. -/
theorem IngressResult.carries
    (hIngress : IngressResult fmt cfg p e e')
    (hOld : q < e.nextPacket)
    (hCarries : fmt.Carries number bytes (e.packets q)) :
    fmt.Carries number bytes (e'.packets q) := by
  have hChecked : ∀ y passes,
      checkPacket fmt cfg (e.packets p) = .ok (y, passes) →
        fmt.Carries number bytes
          ((e.setPacket p y).packets q) := by
    intro y passes hCheck
    by_cases hEq : q = p
    · subst hEq
      rw [Endpoint.setPacket_packets_self]
      exact hCarries.checked hCheck
    · rw [Endpoint.setPacket_packets_of_ne _ _ hEq]
      exact hCarries
  cases hIngress with
  | dropped hFront =>
      cases hFront with
      | rejected hCheck => exact hChecked _ _ hCheck
      | unclaimed hCheck => exact hChecked _ _ hCheck
      | parked hCheck => exact hChecked _ _ hCheck
  | @routed y status _ hCheck _ _ hBack =>
      have hRouted : fmt.Carries number bytes
          ((e.setPacket p (fmt.setInteger .flowIdentifier
            (lookup fmt cfg e y) y)).packets q) := by
        have hKept := hChecked _ _ hCheck
        by_cases hEq : q = p
        · subst hEq
          rw [Endpoint.setPacket_packets_self] at hKept ⊢
          exact hKept.setInteger rfl _
        · rw [Endpoint.setPacket_packets_of_ne _ _ hEq]
          exact hCarries
      exact hBack.carries hOld hRouted

/- No step changes what a packet of old carries. -/
theorem Moves.carries
    (hMoves : Moves fmt cfg e move e')
    (hOld : q < e.nextPacket)
    (hCarries : fmt.Carries number bytes (e.packets q)) :
    fmt.Carries number bytes (e'.packets q) := by
  cases hProcesses : move.processes e with
  | some processed =>
      rcases hMoves.processed hProcesses with
        ⟨-, hIngress, hNext, -, -, hPackets⟩
      exact hIngress.carries (Nat.lt_of_lt_of_le hOld hNext)
        (hPackets q hOld ▸ hCarries)
  | none =>
      have hTakes : ∀ call, Calls fmt cfg e call e' →
          (∀ x len, call ≠ .ingress x len) →
            e'.packets q = e.packets q := by
        intro call hCall hNot
        cases hCall.takes hNot with
        | nothing _ hPackets => rw [hPackets]
        | next _ hPackets =>
            exact hPackets q (Nat.ne_of_lt hOld)
      cases hMoves with
      | @call call _ hCall =>
          rw [hTakes call hCall (by
            rintro x len rfl
            cases hProcesses)]
          exact hCarries
      | accept hStep =>
          cases hStep with
          | opens hCall =>
              rw [hTakes _ hCall (by simp)]
              exact hCarries
          | replays => cases hProcesses
          | dequeues => exact hCarries
          | signals => exact hCarries

end Moves

------------------------------------------------------------
-- Data for a Connection
------------------------------------------------------------

/-
  The connection whose inorder module gets the packet at `p`
  when it is processed: the one it is routed to, unless it is
  an ack.
-/
def dataReceiver
    (fmt : PacketFormat P)
    (cfg : Config)
    (p : PacketPtr)
    (e : Endpoint P) : Option ConnPtr :=
  match checkPacket fmt cfg (e.packets p) with
  | .ok (y, true) =>
      if fmt.getInteger .dstHostId y = e.myLocalHostId ∧
          lookup fmt cfg e y ≠ 0 ∧
          (cfg.reliableEnabled = true →
            fmt.getWord .ackSequenceNumber y = 0) then
        some (lookup fmt cfg e y)
      else
        none
  | _ => none

/- A payload in an input queue, and its packet's number. -/
abbrev Insertion := BitVec 32 × Except Fault (List Byte)

/- What was put at the end of the queue, up to `e'`. -/
def insertions
    (fmt : PacketFormat P)
    (c : ConnPtr)
    (e e' : Endpoint P) : List Insertion :=
  ((e'.inputQueue c).drop (e.inputQueue c).length).map
    (fun entry =>
      (fmt.getWord .sequenceNumber (e'.packets entry.1),
        e'.payloadAt fmt entry))

/- What a packet of a number and a payload is put there as. -/
def insertionOf
    (number : BitVec 32)
    (bytes : List Byte) : List Insertion :=
  (payloadOf bytes).map (fun payload => (number, payload))

/-
  The data packet at `p`, with the number `number`, reached
  the inorder module of the connection at `c`: it was placed,
  what it delivers was queued, and it was acknowledged.
-/
structure DataArrives
    (fmt : PacketFormat P)
    (cfg : Config)
    (c : ConnPtr)
    (p : PacketPtr)
    (number : BitVec 32)
    (conn conn' : Connection)
    (e : Endpoint P)
    (status : HookStatus)
    (taken : List PacketPtr)
    (e' : Endpoint P) : Prop where
  place : ∃ w,
    place cfg.inorderStrategy number p conn.inorderView =
        (status, w, taken) ∧
      conn'.inorderView =
        { w with inputQueue := conn'.inputQueue }
  after : e'.conns c = some conn'
  queue : ∃ lens : PacketPtr → Int,
    conn'.inputQueue = conn.inputQueue ++
        payloads lens (arrivedPackets status p taken) ∧
      ∀ q number bytes, q < e.nextPacket →
        fmt.Carries number bytes (e.packets q) →
          lens q = bytes.length
  inserted : ∀ carried : List (BitVec 32 × List Byte),
    List.Forall₂ (fun q sent => q < e.nextPacket ∧
        fmt.Carries sent.1 sent.2 (e.packets q))
      (arrivedPackets status p taken) carried →
    insertions fmt c e e' =
      carried.flatMap (fun sent => insertionOf sent.1 sent.2)
  acked : cfg.reliableEnabled = true →
    (handedOut e e').map
      (fmt.getWord .ackSequenceNumber) = [number]

section Data

variable
    {fmt : PacketFormat P}
    {cfg : Config}
    {c : ConnPtr}
    {p : PacketPtr}
    {number : BitVec 32}
    {bytes : List Byte}
    {conn : Connection}
    {e e' : Endpoint P}

theorem dataReceiver_eq_some_iff :
    dataReceiver fmt cfg p e = some c ↔
      ∃ y, checkPacket fmt cfg (e.packets p) =
          .ok (y, true) ∧
        fmt.getInteger .dstHostId y = e.myLocalHostId ∧
        lookup fmt cfg e y = c ∧ c ≠ 0 ∧
        (cfg.reliableEnabled = true →
          fmt.getWord .ackSequenceNumber y = 0) := by
  unfold dataReceiver
  cases hCheck : checkPacket fmt cfg (e.packets p) with
  | error fault => simp
  | ok result =>
      rcases result with ⟨y, passes⟩
      cases passes with
      | false => simp
      | true =>
          dsimp only
          constructor
          · intro hReceiver
            split at hReceiver
            · next hAll =>
                cases hReceiver
                exact ⟨y, rfl, hAll.1, rfl, hAll.2.1,
                  hAll.2.2⟩
            · cases hReceiver
          · rintro ⟨z, hz, hHost, rfl, hNe, hAck⟩
            cases hz
            rw [if_pos ⟨hHost, hNe, hAck⟩]

/- A queue entry of a packet that carries a payload. -/
theorem insertions_eq
    {queue : DataQueue}
    {len : PacketPtr → Int}
    {arrived : List PacketPtr}
    {carried : List (BitVec 32 × List Byte)}
    (hBefore : e.inputQueue c = queue)
    (hAfter : e'.inputQueue c = queue ++ payloads len arrived)
    (hCarried : List.Forall₂ (fun q sent =>
        len q = sent.2.length ∧
        fmt.Carries sent.1 sent.2 (e'.packets q))
      arrived carried) :
    insertions fmt c e e' =
      carried.flatMap
        (fun sent => insertionOf sent.1 sent.2) := by
  rw [insertions, hBefore, hAfter, List.drop_left]
  clear hAfter hBefore
  induction hCarried with
  | nil => rfl
  | @cons q sent arrived carried hFirst _ ih =>
      rcases hFirst with ⟨hLen, hCarries⟩
      rw [payloads_cons, List.map_append, ih,
        List.flatMap_cons]
      congr 1
      by_cases hEmpty : sent.2 = []
      · rw [payloads_of_zero (by simp [hLen, hEmpty]),
          insertionOf, payloadOf, if_pos hEmpty]
        rfl
      · rw [payloads_of_ne (by simp [hLen, hEmpty]),
          insertionOf, payloadOf, if_neg hEmpty,
          List.map_singleton, List.map_singleton,
          hCarries.number, Endpoint.payloadAt, hLen,
          Int.toNat_natCast, hCarries.payload hEmpty]

theorem IngressResult.dataArrives
    (hIngress : IngressResult fmt cfg p e e')
    (hOld : p < e.nextPacket)
    (hReceiver : dataReceiver fmt cfg p e = some c)
    (hConn : e.conns c = some conn)
    (hHosts : HostsKept e)
    (hCarries : fmt.Carries number bytes (e.packets p)) :
    ∃ status taken conn', DataArrives fmt cfg c p number conn
      conn' e status taken e' := by
  rcases dataReceiver_eq_some_iff.mp hReceiver with
    ⟨y, hCheck, hHost, hLookup, hNe, hAck⟩
  have hKept : ∀ (q : PacketPtr) number bytes,
      q < e.nextPacket →
      fmt.Carries number bytes (e.packets q) →
        fmt.Carries number bytes (e'.packets q) :=
    fun _ _ _ => hIngress.carries
  cases hIngress with
  | dropped hFront =>
      cases hFront with
      | rejected hCheck' => cases hCheck.symm.trans hCheck'
      | unclaimed hCheck' hOther =>
          cases hCheck.symm.trans hCheck'
          rcases hOther with hOther | ⟨hNone, -⟩
          · exact absurd hHost hOther
          · exact absurd (hLookup.symm.trans hNone) hNe
      | parked hCheck' _ hNone =>
          cases hCheck.symm.trans hCheck'
          exact absurd (hLookup.symm.trans hNone) hNe
  | @routed _ status _ hCheck' _ _ hBack =>
      cases hCheck.symm.trans hCheck'
      rw [hLookup] at hBack
      let z := fmt.setInteger .flowIdentifier c y
      let e₂ := e.setPacket p z
      have hOwn : e₂.packets p = z :=
        Endpoint.setPacket_packets_self _ _ _
      have hZ : fmt.Carries number bytes z :=
        (hCarries.checked hCheck).setInteger rfl _
      cases hBack with
      | ack hOn hNot =>
          refine absurd ?_ hNot
          rw [hOwn, PacketFormat.getWord_setInteger_ne
            (Field.fits_of_bits_ne (by decide) _) (by decide)]
          exact hAck hOn
      | @data conn₁ e₁ _ v taken _ hConn₁ hAcked hAbsorb =>
          cases hConn.symm.trans hConn₁
          rw [hOwn, hZ.number] at hAbsorb hAcked
          rcases absorb_ok_iff.mp hAbsorb with
            ⟨w, hPlace, -, hView⟩
          have hRestored : fmt.restoreTotalLen z = z :=
            restoreTotalLen_setInteger
              (checkPacket_restored hCheck hCarries.sized)
              (Field.fits_of_bits_ne (by decide)) (by decide)
              (by decide) c
          have hOwn₁ : e₁.packets p = z := by
            rw [hAcked.packets_eq (Nat.ne_of_lt hOld), hOwn]
          have hLen := InorderModule.ingressLen_eq
            cfg.inorderStrategy (show fmt.restoreTotalLen
              (e₁.packets p) = _ by rw [hOwn₁, hRestored])
          let conn' := arrivedConn conn status v
          have hView' : conn'.inorderView = v :=
            (arrivedConn_members conn status v).1
          have hQueue : conn'.inputQueue = v.inputQueue :=
            congrArg InorderView.inputQueue hView'
          have hConn' : ((e₁.setConn c conn').restoreAll fmt
              (arrivedPackets status p taken)).conns c =
                some conn' :=
            Endpoint.setConn_conns_self _ _ _
          let arrived := arrivedPackets status p taken
          let lens : PacketPtr → Int :=
            fun q => fmt.sentLen (e₁.packets q)
          have hAfter : conn'.inputQueue = conn.inputQueue ++
              payloads lens arrived := by
            rw [hQueue, hView, hLen]
            rfl
          have hLens : ∀ q number bytes, q < e.nextPacket →
              fmt.Carries number bytes (e.packets q) →
                lens q = bytes.length := by
            intro q number bytes hq hSent
            rw [← (hKept q _ _ hq hSent).sentLen]
            dsimp only [lens]
            rw [PacketFormat.sentLen, PacketFormat.sentLen,
              PacketFormat.getWord, PacketFormat.getWord,
              restoreAll_get (e := e₁.setConn c conn')
                (by decide)]
            rfl
          refine ⟨status, taken, conn', ⟨w, hPlace, ?_⟩,
            hConn', ⟨lens, hAfter, hLens⟩, ?_, ?_⟩
          · rw [hView', hQueue, hView]
          · intro carried hCarried
            have hBefore : e.inputQueue c =
                conn.inputQueue := by
              rw [Endpoint.inputQueue, hConn]
            have hEnd : ((e₁.setConn c conn').restoreAll fmt
                arrived).inputQueue c =
                  conn.inputQueue ++ payloads lens arrived := by
              rw [Endpoint.inputQueue, hConn']
              exact hAfter
            refine insertions_eq hBefore hEnd
              (hCarried.imp ?_)
            rintro q sent ⟨hq, hSent⟩
            exact ⟨hLens q _ _ hq hSent, hKept q _ _ hq hSent⟩
          · intro hOn
            cases hAcked with
            | off hOff => simp [hOff] at hOn
            | @sent x _ hComplete =>
                have hOut : ((((e₂.requested.transmit fmt
                    e₂.nextPacket x).setConn c
                      conn').restoreAll fmt (arrivedPackets
                        status p taken)).out) = e.out ++
                          [(x, fmt.getWord .computedTotalLen
                            x)] := by
                  simp [e₂, Endpoint.transmit,
                    Endpoint.sendPacket, Endpoint.restoreAll,
                    Endpoint.requested, Endpoint.setConn,
                    Endpoint.setPacket]
                rw [handedOut_of_append hOut]
                change [fmt.getWord .ackSequenceNumber x] = _
                rw [PacketFormat.getWord, completePacket_get
                  (hHosts.fits hConn) hComplete
                  (sized_ackPacket _ _) rfl, ackPacket,
                  lengthPacket_get (by decide) (by decide)]
                exact congrArg (fun n => [n])
                  (PacketFormat.getWord_setWord_self rfl)

/- What assigning to one connection keeps, each keeps. -/
theorem conn_update
    {R : Connection → Connection → Prop}
    {d : ConnPtr}
    {conn₁ conn₂ : Connection}
    (hConn : e.conns c = some conn)
    (hConn₁ : e.conns d = some conn₁)
    (hSame : R conn conn)
    (hKeeps : c = d → R conn₁ conn₂) :
    ∃ conn', Function.update e.conns d (some conn₂) c =
        some conn' ∧ R conn conn' := by
  by_cases hEq : c = d
  · have hR := hKeeps hEq
    subst hEq
    cases hConn.symm.trans hConn₁
    exact ⟨conn₂, Function.update_self _ _ _, hR⟩
  · rw [Function.update_of_ne hEq]
    exact ⟨conn, hConn, hSame⟩

/- So does opening another one. -/
theorem conn_opened
    {R : Connection → Connection → Prop}
    {d : ConnPtr}
    (hConn : e.conns c = some conn)
    (hFree : e.conns d = none)
    (hSame : R conn conn)
    (conn₂ : Connection) :
    ∃ conn', Function.update e.conns d (some conn₂) c =
        some conn' ∧ R conn conn' := by
  have hNe : c ≠ d := by
    rintro rfl
    rw [hFree] at hConn
    cases hConn
  rw [Function.update_of_ne hNe]
  exact ⟨conn, hConn, hSame⟩

/-
  A packet that is not data for a connection leaves alone
  what its inorder module works on.
-/
theorem IngressResult.notData
    (hIngress : IngressResult fmt cfg p e e')
    (hReceiver : dataReceiver fmt cfg p e ≠ some c)
    (hConn : e.conns c = some conn) :
    ∃ conn', e'.conns c = some conn' ∧
      conn'.inorderView = conn.inorderView := by
  let R : Connection → Connection → Prop := fun conn conn' =>
    conn'.inorderView = conn.inorderView
  cases hIngress with
  | dropped hFront =>
      cases hFront with
      | rejected => exact ⟨conn, hConn, rfl⟩
      | unclaimed => exact ⟨conn, hConn, rfl⟩
      | parked _ _ _ _ _ _ hListener =>
          exact conn_update (R := R) hConn hListener rfl
            (fun _ => rfl)
  | @routed y status _ hCheck hHost hFound hBack =>
      cases hBack with
      | ack _ _ hReceive =>
          rcases receiveAck_ok_iff.mp hReceive with
            ⟨conn₁, hConn₁, ⟨-, rfl⟩ | ⟨_, t, -, -, rfl⟩⟩
          · exact ⟨conn, hConn, rfl⟩
          · exact conn_update (R := R) hConn hConn₁ rfl
              (fun _ => rfl)
      | @data conn₁ e₁ _ v taken hNoAck hConn₁ hAcked _ =>
          have hAway : c ≠ lookup fmt cfg e y := by
            rintro rfl
            refine hReceiver (dataReceiver_eq_some_iff.mpr
              ⟨y, hCheck, hHost, rfl, hFound, ?_⟩)
            intro hOn
            rw [← hNoAck hOn, Endpoint.setPacket_packets_self,
              PacketFormat.getWord_setInteger_ne
                (Field.fits_of_bits_ne (by decide) _)
                (by decide)]
          have hConns : ((e₁.setConn (lookup fmt cfg e y)
              (arrivedConn conn₁ status v)).restoreAll fmt
                (arrivedPackets status p taken)).conns =
              Function.update e.conns (lookup fmt cfg e y)
                (some (arrivedConn conn₁ status v)) := by
            change Function.update e₁.conns _ _ = _
            rw [hAcked.conns_eq]
            rfl
          rw [hConns]
          exact conn_update (R := R) hConn hConn₁ rfl
            (fun hEq => absurd hEq hAway)

theorem insertions_of_eq
    (hQueue : e'.inputQueue c = e.inputQueue c) :
    insertions fmt c e e' = [] := by
  rw [insertions, hQueue, List.drop_length, List.map_nil]

/- Steps that process no packet at most read the queue. -/
theorem Moves.notProcessing
    {move : StackMove P}
    (hMoves : Moves fmt cfg e move e')
    (hNone : move.processes e = none)
    (hOpen : move ≠ .call (.destablish c))
    (hConn : e.conns c = some conn) :
    ∃ conn', e'.conns c = some conn' ∧
      conn'.inorderView = { conn.inorderView with
        inputQueue := conn'.inputQueue } ∧
      (conn'.inputQueue = conn.inputQueue ∨
        ∃ maxLen bytes, move = .call (.read c maxLen) ∧
          nbRead fmt c maxLen e = .ok (bytes, e')) := by
  let R : Connection → Connection → Prop := fun conn conn' =>
    conn'.inorderView = conn.inorderView
  have hSame : (∃ conn', e'.conns c = some conn' ∧
      R conn conn') →
      ∃ conn', e'.conns c = some conn' ∧
        conn'.inorderView = { conn.inorderView with
          inputQueue := conn'.inputQueue } ∧
        (conn'.inputQueue = conn.inputQueue ∨
          ∃ maxLen bytes, move = .call (.read c maxLen) ∧
            nbRead fmt c maxLen e = .ok (bytes, e')) := by
    rintro ⟨conn', hConn', hView⟩
    have hQueue : conn'.inputQueue = conn.inputQueue :=
      congrArg InorderView.inputQueue hView
    refine ⟨conn', hConn', ?_, Or.inl hQueue⟩
    rw [hView, hQueue]
    rfl
  cases hMoves with
  | call hCall =>
      cases hCall with
      | establish _ hFree hEstablish =>
          apply hSame
          rw [nbEstablish_conns hEstablish]
          exact conn_opened (R := R) hConn hFree rfl _
      | @destablish _ d hDestablish =>
          rcases nbDestablish_ok_iff.mp hDestablish with
            ⟨conn₁, -, rfl⟩
          have hNe : c ≠ d := by
            rintro rfl
            exact hOpen rfl
          exact hSame ⟨conn, by simp [Function.update_of_ne hNe,
            hConn], rfl⟩
      | send hSend =>
          rcases nbSend_ok_iff.mp hSend with
            ⟨conn₁, _, _, _, _, hConn₁, -, -, -, rfl⟩
          exact hSame (conn_update (R := R) hConn hConn₁ rfl
            (fun _ => rfl))
      | ingress => cases hNone
      | checkTimers hCheck =>
          rcases checkTimersLoop_frame hCheck with
            ⟨timers, out, rfl⟩
          exact hSame ⟨conn, hConn, rfl⟩
      | tick => exact hSame ⟨conn, hConn, rfl⟩
      | @read _ d maxLen bytes hRead =>
          rcases nbRead_frame hRead with
            ⟨conn₁, queue, hConn₁, rfl⟩
          by_cases hEq : d = c
          · subst hEq
            cases hConn.symm.trans hConn₁
            exact ⟨_, Endpoint.setConn_conns_self _ _ _, rfl,
              Or.inr ⟨maxLen, bytes, rfl, hRead⟩⟩
          · exact hSame (conn_update (R := R) hConn hConn₁ rfl
              (fun hSelf => absurd hSelf.symm hEq))
  | accept hStep =>
      apply hSame
      cases hStep with
      | opens hCall =>
          cases hCall with
          | establish _ hFree hEstablish =>
              rw [nbEstablish_conns hEstablish]
              exact conn_opened (R := R) hConn hFree rfl _
      | replays => cases hNone
      | dequeues hConn₁ =>
          exact conn_update (R := R) hConn hConn₁ rfl
            (fun _ => rfl)
      | signals hConn₁ =>
          exact conn_update (R := R) hConn hConn₁ rfl
            (fun _ => rfl)

end Data

------------------------------------------------------------
-- Channels
------------------------------------------------------------

/-
  Two stacks, one that sends on a connection and one that
  receives on another, with what was sent so far, what was
  put into the receiver's input queue, and the numbers the
  receiver acknowledged.
-/
structure Channel (P : Type) where
  sender : Endpoint P
  log : SentLog P
  receiver : Endpoint P
  inserted : List Insertion
  acked : List (BitVec 32)

inductive ChannelMove (P : Type) where
| sender (move : StackMove P)
| receiver (move : StackMove P)

/- What a step of the sender sends on its connection. -/
def StackMove.sends
    (d : ConnPtr)
    (e e' : Endpoint P) : StackMove P → SentLog P
| .call (.send c buff) =>
    if c = d then
      (handedOut e e').map (fun x => (x, buff))
    else
      []
| _ => []

/- A step of the receiver, and what it notes of it. -/
def Channel.received
    (fmt : PacketFormat P)
    (cfg : Config)
    (c : ConnPtr)
    (ch : Channel P)
    (e' : Endpoint P)
    (move : StackMove P) : Channel P :=
  match move.processes ch.receiver with
  | none => { ch with receiver := e' }
  | some (p, e) =>
      { ch with
        receiver := e'
        inserted := ch.inserted ++ insertions fmt c e e'
        acked :=
          if dataReceiver fmt cfg p e = some c then
            ch.acked ++ (handedOut e e').map
              (fmt.getWord .ackSequenceNumber)
          else
            ch.acked }

/-
  The network makes up no data: what the inorder module of
  the receiver gets is a copy of a packet that was sent, as
  it left the sender. A retransmission is one more copy.
-/
def Genuine
    (fmt : PacketFormat P)
    (cfg : Config)
    (c : ConnPtr)
    (ch : Channel P)
    (move : StackMove P) : Prop :=
  ∀ p e, move.processes ch.receiver = some (p, e) →
    dataReceiver fmt cfg p e = some c →
      ∃ (i : Nat) (y : P) (bytes : List Byte),
        ch.log[i]? = some (y, bytes) ∧
        fmt.SameWire (fmt.getWord .totalLen y).toInt y
          (e.packets p)

/- The two ends of a channel take steps in any order. -/
inductive ChannelSteps
    (fmt : PacketFormat P)
    (cfg : Config)
    (d c : ConnPtr)
    (ch : Channel P) : ChannelMove P → Channel P → Prop
| sender {move : StackMove P} {e' : Endpoint P} :
    Moves fmt cfg ch.sender move e' →
    move ≠ .call (.destablish d) →
    ChannelSteps fmt cfg d c ch (.sender move)
      { ch with
        sender := e'
        log := ch.log ++ move.sends d ch.sender e' }
| receiver {move : StackMove P} {e' : Endpoint P} :
    Moves fmt cfg ch.receiver move e' →
    move ≠ .call (.destablish c) →
    Genuine fmt cfg c ch move →
    ChannelSteps fmt cfg d c ch (.receiver move)
      (ch.received fmt cfg c e' move)

/- A stack after some steps from `nb__net_init`. -/
def Running
    (fmt : PacketFormat P)
    (cfg : Config)
    (e : Endpoint P) : Prop :=
  ∃ (fresh : NetState) (e₀ : Endpoint P)
      (moves : List (StackMove P)),
    (∀ c, e₀.conns c = none) ∧
      Run (Moves fmt cfg) (nbNetInit fresh e₀) moves e

/- A stack whose connection at `c` was just established. -/
def JustOpened
    (fmt : PacketFormat P)
    (cfg : Config)
    (c : ConnPtr)
    (e e' : Endpoint P) : Prop :=
  Running fmt cfg e ∧
    ∃ fresh h a sa,
      Calls fmt cfg e (.establish c fresh h a sa) e'

/- Both connections were just established. -/
structure JustStarted
    (fmt : PacketFormat P)
    (cfg : Config)
    (d c : ConnPtr)
    (ch : Channel P) : Prop where
  sender : ∃ e, JustOpened fmt cfg d e ch.sender ∧
    ch.log = (handedOut e ch.sender).map (fun x => (x, []))
  receiver : ∃ e, JustOpened fmt cfg c e ch.receiver
  inserted : ch.inserted = []
  acked : ch.acked = []

------------------------------------------------------------
-- What Is on the Shelf Was Sent
------------------------------------------------------------

/- The packet `x` is a copy of the one at a position. -/
def SentLog.IsAt
    (fmt : PacketFormat P)
    (log : SentLog P)
    (i : Nat)
    (x : P) : Prop :=
  ∃ y bytes, log[i]? = some (y, bytes) ∧
    fmt.Carries (numberAt i) bytes x

/- What the packets at some positions are queued as. -/
def SentLog.insertionsAt
    (log : SentLog P)
    (positions : List Nat) : List Insertion :=
  positions.flatMap (fun i =>
    match log[i]? with
    | none => []
    | some sent => insertionOf (numberAt i) sent.2)

/-
  The log is numbered, and what was queued and acknowledged
  and is on the shelf are copies of packets in it.
-/
structure ChannelInvariant
    (fmt : PacketFormat P)
    (cfg : Config)
    (d c : ConnPtr)
    (ch : Channel P) : Prop where
  numbered : Numbered fmt d ch.sender ch.log
  hosts : HostsKept ch.receiver
  inserted : ∃ positions, (∀ i ∈ positions, i < ch.log.length) ∧
    ch.inserted = ch.log.insertionsAt positions
  acked : ∀ n ∈ ch.acked, ∃ i < ch.log.length, n = numberAt i
  shelved : ∃ conn, ch.receiver.conns c = some conn ∧
    ∀ k q, conn.inorderView.slots cfg.inorderStrategy k =
        some q →
      q < ch.receiver.nextPacket ∧
        ∃ i, ch.log.IsAt fmt i (ch.receiver.packets q)

/-
  The packet at `p` that was sent at position `i` is placed by
  the inorder module, delivers packets sent at `positions`,
  and is acknowledged.
-/
structure Placed
    (fmt : PacketFormat P)
    (cfg : Config)
    (c : ConnPtr)
    (ch ch' : Channel P)
    (i : Nat)
    (p : PacketPtr)
    (e : Endpoint P)
    (conn conn' : Connection)
    (status : HookStatus)
    (w : InorderView)
    (taken : List PacketPtr)
    (positions : List Nat) : Prop where
  before : ch.receiver.conns c = some conn
  own : ch.log.IsAt fmt i (e.packets p)
  place : place cfg.inorderStrategy (numberAt i) p
    conn.inorderView = (status, w, taken)
  after : ch'.receiver.conns c = some conn'
  view : conn'.inorderView =
    { w with inputQueue := conn'.inputQueue }
  arrived : List.Forall₂
    (fun q k => ch.log.IsAt fmt k (e.packets q))
    (arrivedPackets status p taken) positions
  old : ∀ q ∈ arrivedPackets status p taken, q < e.nextPacket
  queue : ∃ lens : PacketPtr → Int,
    conn'.inputQueue = conn.inputQueue ++
        payloads lens (arrivedPackets status p taken) ∧
      ∀ q number bytes, q < e.nextPacket →
        fmt.Carries number bytes (e.packets q) →
          lens q = bytes.length
  inserted : ch'.inserted = ch.inserted ++
    ch.log.insertionsAt positions
  acked : ch'.acked = ch.acked ++ [numberAt i]

/-
  What a step does to the receiving connection: nothing that
  its inorder module works on, where a payload may be read,
  or a packet is placed.
-/
inductive ChannelEffect
    (fmt : PacketFormat P)
    (cfg : Config)
    (c : ConnPtr)
    (ch ch' : Channel P) : ChannelMove P → Prop
| quiet {move : ChannelMove P} {conn conn' : Connection} :
    ch.receiver.conns c = some conn →
    ch'.receiver.conns c = some conn' →
    conn'.inorderView = { conn.inorderView with
      inputQueue := conn'.inputQueue } →
    ch'.inserted = ch.inserted →
    ch'.acked = ch.acked →
    (conn'.inputQueue = conn.inputQueue ∨
      ∃ maxLen bytes,
        move = .receiver (.call (.read c maxLen)) ∧
        nbRead fmt c maxLen ch.receiver =
          .ok (bytes, ch'.receiver)) →
    ChannelEffect fmt cfg c ch ch' move
| data {move : StackMove P} {p : PacketPtr} {e : Endpoint P}
    {i : Nat} {conn conn' : Connection} {w : InorderView}
    {status : HookStatus} {taken : List PacketPtr}
    {positions : List Nat} :
    move.processes ch.receiver = some (p, e) →
    dataReceiver fmt cfg p e = some c →
    Placed fmt cfg c ch ch' i p e conn conn' status w taken
      positions →
    ChannelEffect fmt cfg c ch ch' (.receiver move)

section Channels

variable
    {fmt : PacketFormat P}
    {cfg : Config}
    {d c : ConnPtr}
    {ch ch' : Channel P}
    {move : ChannelMove P}

theorem SentLog.IsAt.append
    {log : SentLog P}
    {i : Nat}
    {x : P}
    (hAt : log.IsAt fmt i x)
    (more : SentLog P) :
    SentLog.IsAt fmt (log ++ more) i x := by
  rcases hAt with ⟨y, bytes, hAt, hCarries⟩
  have hLt := (List.getElem?_eq_some_iff.mp hAt).1
  exact ⟨y, bytes, by rw [List.getElem?_append_left hLt, hAt],
    hCarries⟩

theorem SentLog.IsAt.lt
    {log : SentLog P}
    {i : Nat}
    {x : P}
    (hAt : log.IsAt fmt i x) :
    i < log.length := by
  rcases hAt with ⟨y, bytes, hAt, -⟩
  exact (List.getElem?_eq_some_iff.mp hAt).1

/- What was queued stays when more is sent. -/
theorem SentLog.insertionsAt_log_append
    {log : SentLog P}
    {positions : List Nat}
    (hLt : ∀ i ∈ positions, i < log.length)
    (more : SentLog P) :
    SentLog.insertionsAt (log ++ more) positions =
      log.insertionsAt positions := by
  refine List.flatMap_congr ?_
  intro i hi
  rw [List.getElem?_append_left (hLt i hi)]

theorem SentLog.insertionsAt_append
    (log : SentLog P)
    (first second : List Nat) :
    log.insertionsAt (first ++ second) =
      log.insertionsAt first ++ log.insertionsAt second :=
  List.flatMap_append

theorem mem_insertionsAt_iff
    {log : SentLog P}
    {positions : List Nat}
    {number : BitVec 32}
    {payload : Except Fault (List Byte)} :
    (number, payload) ∈ log.insertionsAt positions ↔
      ∃ k ∈ positions, ∃ y bytes,
        log[k]? = some (y, bytes) ∧ bytes ≠ [] ∧
          number = numberAt k ∧ payload = .ok bytes := by
  rw [SentLog.insertionsAt, List.mem_flatMap]
  refine exists_congr fun k => and_congr_right fun _ => ?_
  cases hAt : log[k]? with
  | none => simp
  | some sent =>
      rcases sent with ⟨y, bytes⟩
      simp only [insertionOf, payloadOf, List.mem_map,
        Option.some.injEq, Prod.mk.injEq]
      by_cases hEmpty : bytes = []
      · simp [hEmpty]
      · simp only [if_neg hEmpty, List.mem_singleton]
        constructor
        · rintro ⟨_, rfl, rfl, rfl⟩
          exact ⟨y, bytes, ⟨rfl, rfl⟩, hEmpty, rfl, rfl⟩
        · rintro ⟨_, _, ⟨rfl, rfl⟩, -, rfl, rfl⟩
          exact ⟨_, rfl, rfl, rfl⟩

/- Packets at positions are at positions of the log. -/
theorem SentLog.positions_lt
    {log : SentLog P}
    {packets : PacketPtr → P}
    {arrived : List PacketPtr}
    {positions : List Nat}
    (hAt : List.Forall₂ (fun q i => log.IsAt fmt i (packets q))
      arrived positions) :
    ∀ i ∈ positions, i < log.length := by
  induction hAt with
  | nil => simp
  | cons hFirst _ ih =>
      intro i hi
      rcases List.mem_cons.mp hi with rfl | hi
      · exact hFirst.lt
      · exact ih i hi

/- What is queued for packets that are known by position. -/
theorem SentLog.insertionsAt_eq
    {log : SentLog P}
    {packets : PacketPtr → P}
    {arrived : List PacketPtr}
    {positions : List Nat}
    (hAt : List.Forall₂ (fun q i => log.IsAt fmt i (packets q))
      arrived positions) :
    ∃ carried : List (BitVec 32 × List Byte),
      List.Forall₂ (fun q sent =>
        fmt.Carries sent.1 sent.2 (packets q)) arrived carried ∧
      carried.flatMap
          (fun sent => insertionOf sent.1 sent.2) =
        log.insertionsAt positions := by
  induction hAt with
  | nil => exact ⟨[], .nil, rfl⟩
  | @cons q i arrived positions hFirst _ ih =>
      rcases hFirst with ⟨y, bytes, hAt, hCarries⟩
      rcases ih with ⟨carried, hCarried, hEq⟩
      refine ⟨(numberAt i, bytes) :: carried,
        .cons hCarries hCarried, ?_⟩
      rw [List.flatMap_cons, hEq, SentLog.insertionsAt,
        SentLog.insertionsAt, List.flatMap_cons, hAt]

/- A log only grows. -/
theorem ChannelSteps.log_eq
    (hStep : ChannelSteps fmt cfg d c ch move ch') :
    ∃ more, ch'.log = ch.log ++ more := by
  cases hStep with
  | sender => exact ⟨_, rfl⟩
  | receiver =>
      refine ⟨[], ?_⟩
      rw [List.append_nil, Channel.received]
      split <;> rfl

/- The sender's numbers go on. -/
theorem Numbered.moves
    {log : SentLog P}
    {m : StackMove P}
    {e e' : Endpoint P}
    (hNumbered : cfg.inorderStrategy ≠ .noInorder ∨
      cfg.reliableEnabled = true)
    (hLog : Numbered fmt d e log)
    (hMoves : Moves fmt cfg e m e')
    (hOpen : m ≠ .call (.destablish d)) :
    Numbered fmt d e' (log ++ m.sends d e e') := by
  have hHosts := hMoves.hostsKept hLog.hosts
  have hKept : (∃ conn, e'.conns d = some conn ∧
      conn.lastSentSequence =
        1010 + BitVec.ofNat 32 log.length) →
      Numbered fmt d e' (log ++ []) := by
    intro hLast
    rw [List.append_nil]
    exact ⟨hHosts, hLast, hLog.sent⟩
  cases hMoves with
  | @call call _ hCall =>
      by_cases hSend : ∃ buff, call = .send d buff
      · rcases hSend with ⟨buff, rfl⟩
        rw [StackMove.sends, if_pos rfl]
        exact hLog.sends hNumbered hCall
      · have hNot : ∀ buff, call ≠ .send d buff :=
          fun buff hEq => hSend ⟨buff, hEq⟩
        have hNone : (StackMove.call call).sends d e e' =
            [] := by
          unfold StackMove.sends
          split
          · next hEq =>
              cases hEq
              rw [if_neg]
              rintro rfl
              exact hNot _ rfl
          · rfl
        rw [hNone]
        exact hKept (hLog.calls hNot
          (fun hEq => hOpen (by rw [hEq])) hCall).last
  | accept hStep =>
      rcases hLog.last with ⟨conn, hConn, hLast⟩
      let R : Connection → Connection → Prop :=
        fun conn conn' =>
          conn'.lastSentSequence = conn.lastSentSequence
      have hEnd : (∃ conn', e'.conns d = some conn' ∧
          R conn conn') → Numbered fmt d e' (log ++ []) := by
        rintro ⟨conn', hConn', hSame⟩
        exact hKept ⟨conn', hConn', hSame.trans hLast⟩
      cases hStep with
      | opens hCall =>
          exact hKept (hLog.calls (by simp) (by simp)
            hCall).last
      | replays _ hOld hIngress =>
          rcases runIngressPath_touchesOne (Nat.ne_of_lt hOld)
            hIngress with hSame | ⟨b, conn₁, conn₂, hConn₁,
              hTouches, hConns⟩
          · exact hEnd ⟨conn, by rw [hSame, hConn], rfl⟩
          · apply hEnd
            rw [hConns]
            exact conn_update (R := R) hConn hConn₁ rfl
              (fun _ => hTouches.kept.2.2.2.1)
      | dequeues hConn₁ =>
          exact hEnd (conn_update (R := R) hConn hConn₁ rfl
            (fun _ => rfl))
      | signals hConn₁ =>
          exact hEnd (conn_update (R := R) hConn hConn₁ rfl
            (fun _ => rfl))

/- Positions for packets that each have one. -/
theorem SentLog.positions_of_isAt
    {log : SentLog P}
    {packets : PacketPtr → P}
    {arrived : List PacketPtr}
    (hAt : ∀ q ∈ arrived, ∃ i, log.IsAt fmt i (packets q)) :
    ∃ positions, List.Forall₂
      (fun q i => log.IsAt fmt i (packets q))
      arrived positions := by
  induction arrived with
  | nil => exact ⟨[], .nil⟩
  | cons q arrived ih =>
      rcases hAt q List.mem_cons_self with ⟨i, hFirst⟩
      rcases ih (fun r hr =>
        hAt r (List.mem_cons_of_mem q hr)) with
        ⟨positions, hRest⟩
      exact ⟨i :: positions, .cons hFirst hRest⟩

/- Only shelved packets are delivered with a packet. -/
theorem mem_arrivedPackets
    {strategy : InorderStrategy}
    {number : BitVec 32}
    {p q : PacketPtr}
    {v w : InorderView}
    {status : HookStatus}
    {taken : List PacketPtr}
    (hPlace : place strategy number p v = (status, w, taken))
    (hq : q ∈ arrivedPackets status p taken) :
    q = p ∨ ∃ k, v.slots strategy k = some q := by
  have hTaken := (place_slots hPlace).2.1
  unfold arrivedPackets at hq
  split at hq
  · rcases List.mem_cons.mp hq with rfl | hq
    · exact Or.inl rfl
    · exact Or.inr (hTaken q hq)
  · exact Or.inr (hTaken q hq)

/- What is shelved does not depend on the queue. -/
theorem slots_withQueue
    (strategy : InorderStrategy)
    (v : InorderView)
    (queue : DataQueue) :
    InorderView.slots strategy
        { v with inputQueue := queue } =
      v.slots strategy := by
  cases strategy <;> rfl

theorem Channel.received_receiver
    (e' : Endpoint P)
    (m : StackMove P) :
    (ch.received fmt cfg c e' m).receiver = e' := by
  rw [Channel.received]
  split <;> rfl

theorem Channel.received_log
    (e' : Endpoint P)
    (m : StackMove P) :
    (ch.received fmt cfg c e' m).log = ch.log := by
  rw [Channel.received]
  split <;> rfl

theorem Channel.received_sender
    (e' : Endpoint P)
    (m : StackMove P) :
    (ch.received fmt cfg c e' m).sender = ch.sender := by
  rw [Channel.received]
  split <;> rfl

/-
  The packet sent at some position, when the inorder module
  gets it, is placed by its number, and delivers packets that
  were sent.
-/
theorem ChannelInvariant.received
    {m : StackMove P}
    {p : PacketPtr}
    {e e' : Endpoint P}
    {i : Nat}
    {conn : Connection}
    (hReliable : cfg.reliableEnabled = true)
    (hInv : ChannelInvariant fmt cfg d c ch)
    (hMoves : Moves fmt cfg ch.receiver m e')
    (hProcesses : m.processes ch.receiver = some (p, e))
    (hReceiver : dataReceiver fmt cfg p e = some c)
    (hConn : ch.receiver.conns c = some conn)
    (hAt : ch.log.IsAt fmt i (e.packets p)) :
    ∃ conn' status w taken positions,
      Placed fmt cfg c ch (ch.received fmt cfg c e' m) i p e
        conn conn' status w taken positions := by
  rcases hInv.shelved with ⟨conn₁, hConn₁, hShelved⟩
  cases hConn.symm.trans hConn₁
  rcases hMoves.processed hProcesses with
    ⟨hOld, hIngress, hNext, hConns, hSame, hPackets⟩
  have hConnE : e.conns c = some conn := by
    rw [hConns, hConn]
  have hOwn := hAt
  rcases hAt with ⟨y, bytes, hAt, hCarries⟩
  rcases hIngress.dataArrives hOld hReceiver hConnE
      (hSame.hostsKept hInv.hosts) hCarries with
    ⟨status, taken, conn', hArrives⟩
  rcases hArrives.place with ⟨w, hPlace, hView⟩
  have hEach : ∀ q ∈ arrivedPackets status p taken,
      q < e.nextPacket ∧
        ∃ k, ch.log.IsAt fmt k (e.packets q) := by
    intro q hq
    rcases mem_arrivedPackets hPlace hq with rfl | ⟨k, hk⟩
    · exact ⟨hOld, i, hOwn⟩
    · rcases hShelved k q hk with ⟨hLt, j, hj⟩
      rw [← hPackets q hLt] at hj
      exact ⟨Nat.lt_of_lt_of_le hLt hNext, j, hj⟩
  rcases SentLog.positions_of_isAt
    (fun q hq => (hEach q hq).2) with ⟨positions, hPositions⟩
  rcases SentLog.insertionsAt_eq hPositions with
    ⟨carried, hCarried, hEq⟩
  refine ⟨conn', status, w, taken, positions, hConn, hOwn,
    hPlace, ?_, hView, hPositions, fun q hq => (hEach q hq).1,
    hArrives.queue, ?_, ?_⟩
  · rw [Channel.received_receiver]
    exact hArrives.after
  · rw [Channel.received, hProcesses, ← hEq,
      ← hArrives.inserted carried ((List.forall₂_and_left _ _
        ).mpr ⟨fun q hq => (hEach q hq).1, hCarried⟩)]
  · rw [Channel.received, hProcesses]
    dsimp only
    rw [if_pos hReceiver, hArrives.acked hReliable]

/- What a step does to the receiving connection. -/
theorem ChannelSteps.effect
    (hReliable : cfg.reliableEnabled = true)
    (hInv : ChannelInvariant fmt cfg d c ch)
    (hStep : ChannelSteps fmt cfg d c ch move ch') :
    ChannelEffect fmt cfg c ch ch' move := by
  rcases hInv.shelved with ⟨conn, hConn, hShelved⟩
  cases hStep with
  | sender =>
      exact .quiet hConn hConn rfl rfl rfl (Or.inl rfl)
  | @receiver m e' hMoves hOpen hGenuine =>
      cases hProcesses : m.processes ch.receiver with
      | none =>
          rcases hMoves.notProcessing hProcesses hOpen hConn
            with ⟨conn', hConn', hView, hQueue⟩
          rw [Channel.received, hProcesses]
          refine .quiet hConn hConn' hView rfl rfl
            (hQueue.imp_right ?_)
          rintro ⟨maxLen, bytes, rfl, hRead⟩
          exact ⟨maxLen, bytes, rfl, hRead⟩
      | some processed =>
          rcases processed with ⟨p, e⟩
          rcases hMoves.processed hProcesses with
            ⟨hOld, hIngress, -, hConns, -, -⟩
          have hConn₁ : e.conns c = some conn := by
            rw [hConns, hConn]
          by_cases hReceiver :
              dataReceiver fmt cfg p e = some c
          · rcases hGenuine p e hProcesses hReceiver with
              ⟨i, y, bytes, hAt, hWire⟩
            have hOwn : ch.log.IsAt fmt i (e.packets p) :=
              ⟨y, bytes, hAt, (hInv.numbered.carries i y bytes
                hAt).of_sameWire hWire⟩
            rcases hInv.received hReliable hMoves hProcesses
                hReceiver hConn hOwn with
              ⟨conn', status, w, taken, positions, hPlaced⟩
            exact .data hProcesses hReceiver hPlaced
          · rcases hIngress.notData hReceiver hConn₁ with
              ⟨conn', hConn', hView⟩
            have hQueue : e'.inputQueue c =
                e.inputQueue c := by
              rw [Endpoint.inputQueue, hConn',
                Endpoint.inputQueue, hConn₁]
              exact congrArg InorderView.inputQueue hView
            have hSameQueue : conn'.inputQueue =
                conn.inputQueue :=
              congrArg InorderView.inputQueue hView
            rw [Channel.received, hProcesses]
            refine .quiet hConn hConn' ?_ ?_ ?_
              (Or.inl hSameQueue)
            · rw [hView, hSameQueue]
              rfl
            · dsimp only
              rw [insertions_of_eq hQueue, List.append_nil]
            · exact if_neg hReceiver

/- Packets of old are kept by every step. -/
theorem ChannelSteps.kept
    {q : PacketPtr}
    {number : BitVec 32}
    {bytes : List Byte}
    (hStep : ChannelSteps fmt cfg d c ch move ch')
    (hOld : q < ch.receiver.nextPacket)
    (hCarries : fmt.Carries number bytes
      (ch.receiver.packets q)) :
    q < ch'.receiver.nextPacket ∧
      fmt.Carries number bytes (ch'.receiver.packets q) := by
  cases hStep with
  | sender => exact ⟨hOld, hCarries⟩
  | receiver hMoves =>
      rw [Channel.received_receiver]
      exact ⟨Nat.lt_of_lt_of_le hOld hMoves.nextPacket_le,
        hMoves.carries hOld hCarries⟩

/- So are those that are processed. -/
theorem ChannelSteps.kept_processed
    {m : StackMove P}
    {p q : PacketPtr}
    {e : Endpoint P}
    {number : BitVec 32}
    {bytes : List Byte}
    (hStep : ChannelSteps fmt cfg d c ch (.receiver m) ch')
    (hProcesses : m.processes ch.receiver = some (p, e))
    (hOld : q < e.nextPacket)
    (hCarries : fmt.Carries number bytes (e.packets q)) :
    q < ch'.receiver.nextPacket ∧
      fmt.Carries number bytes (ch'.receiver.packets q) := by
  cases hStep with
  | receiver hMoves =>
      rcases hMoves.processed hProcesses with
        ⟨-, hIngress, -, -, -, -⟩
      rw [Channel.received_receiver]
      exact ⟨Nat.lt_of_lt_of_le hOld hIngress.nextPacket_le,
        hIngress.carries hOld hCarries⟩

/- What was queued and acknowledged was sent. -/
theorem ChannelInvariant.books
    (hInv : ChannelInvariant fmt cfg d c ch)
    (hEffect : ChannelEffect fmt cfg c ch ch' move)
    (hLog : ∃ more, ch'.log = ch.log ++ more) :
    (∃ positions, (∀ i ∈ positions, i < ch'.log.length) ∧
      ch'.inserted = ch'.log.insertionsAt positions) ∧
    ∀ n ∈ ch'.acked, ∃ i < ch'.log.length,
      n = numberAt i := by
  rcases hInv.inserted with ⟨positions, hLt, hInserted⟩
  rcases hLog with ⟨more, hLog⟩
  have hGrown : ∀ i, i < ch.log.length →
      i < ch'.log.length := by
    intro i hi
    rw [hLog, List.length_append]
    omega
  have hAcked : ∀ n ∈ ch.acked, ∃ i < ch'.log.length,
      n = numberAt i := by
    intro n hn
    rcases hInv.acked n hn with ⟨i, hi, rfl⟩
    exact ⟨i, hGrown i hi, rfl⟩
  have hMore : ∀ new : List Nat,
      (∀ i ∈ new, i < ch.log.length) →
      ch'.inserted = ch.inserted ++ ch.log.insertionsAt new →
      ∃ positions, (∀ i ∈ positions, i < ch'.log.length) ∧
        ch'.inserted = ch'.log.insertionsAt positions := by
    intro new hNew hEq
    have hBoth : ∀ i ∈ positions ++ new,
        i < ch.log.length := by
      intro i hi
      rcases List.mem_append.mp hi with hi | hi
      · exact hLt i hi
      · exact hNew i hi
    refine ⟨positions ++ new,
      fun i hi => hGrown i (hBoth i hi), ?_⟩
    rw [hEq, hLog, SentLog.insertionsAt_log_append hBoth,
      SentLog.insertionsAt_append, hInserted]
  cases hEffect with
  | quiet _ _ _ hSame hSameAcked =>
      refine ⟨hMore [] (by simp) ?_, hSameAcked ▸ hAcked⟩
      rw [hSame]
      exact (List.append_nil _).symm
  | @data _ _ _ i _ _ _ _ _ new _ _ hPlaced =>
      refine ⟨hMore new (SentLog.positions_lt hPlaced.arrived)
        hPlaced.inserted, ?_⟩
      intro n hn
      rw [hPlaced.acked] at hn
      rcases List.mem_append.mp hn with hn | hn
      · exact hAcked n hn
      · exact ⟨i, hGrown i hPlaced.own.lt,
          List.mem_singleton.mp hn⟩

/- The invariant is kept. -/
theorem ChannelInvariant.step
    (hReliable : cfg.reliableEnabled = true)
    (hInv : ChannelInvariant fmt cfg d c ch)
    (hStep : ChannelSteps fmt cfg d c ch move ch') :
    ChannelInvariant fmt cfg d c ch' := by
  have hEffect := hStep.effect hReliable hInv
  rcases hInv.books hEffect hStep.log_eq with
    ⟨hInserted, hAcked⟩
  rcases hInv.shelved with ⟨conn, hConn, hShelved⟩
  cases hStep with
  | @sender m e' hMoves hOpen =>
      refine ⟨hInv.numbered.moves (Or.inr hReliable) hMoves
        hOpen, hInv.hosts, hInserted, hAcked, conn, hConn, ?_⟩
      intro k q hq
      rcases hShelved k q hq with ⟨hLt, i, hAt⟩
      exact ⟨hLt, i, hAt.append _⟩
  | @receiver m e' hMoves hOpen hGenuine =>
      have hReceiver : (ch.received fmt cfg c e' m).receiver =
          e' := Channel.received_receiver e' m
      have hLog : (ch.received fmt cfg c e' m).log =
          ch.log := Channel.received_log e' m
      have hSender : (ch.received fmt cfg c e' m).sender =
          ch.sender := Channel.received_sender e' m
      have hKept : ∀ q i, q < ch.receiver.nextPacket →
          ch.log.IsAt fmt i (ch.receiver.packets q) →
            q < e'.nextPacket ∧
              ∃ i, ch.log.IsAt fmt i (e'.packets q) := by
        rintro q i hLt ⟨y, bytes, hAt, hCarries⟩
        exact ⟨Nat.lt_of_lt_of_le hLt hMoves.nextPacket_le,
          i, y, bytes, hAt, hMoves.carries hLt hCarries⟩
      refine ⟨?_, ?_, hInserted, hAcked, ?_⟩
      · rw [hSender, hLog]
        exact hInv.numbered
      · rw [hReceiver]
        exact hMoves.hostsKept hInv.hosts
      · rw [hReceiver, hLog]
        cases hEffect with
        | @quiet _ conn₁ conn' hConn₁ hConn' hView =>
            cases hConn.symm.trans hConn₁
            rw [hReceiver] at hConn'
            refine ⟨conn', hConn', ?_⟩
            intro k q hq
            rw [hView, slots_withQueue] at hq
            rcases hShelved k q hq with ⟨hLt, i, hAt⟩
            exact hKept q i hLt hAt
        | @data _ p e i conn₁ conn' w status taken positions
            hProcesses _ hPlaced =>
            cases hConn.symm.trans hPlaced.before
            have hConn' := hPlaced.after
            rw [hReceiver] at hConn'
            rcases hMoves.processed hProcesses with
              ⟨hOld, hIngress, -, -, -, -⟩
            refine ⟨conn', hConn', ?_⟩
            intro k q hq
            rw [hPlaced.view, slots_withQueue] at hq
            rcases (place_slots hPlaced.place).1 k q hq with
              rfl | hBefore
            · rcases hPlaced.own with ⟨y, bytes, hAt, hCarries⟩
              exact ⟨Nat.lt_of_lt_of_le hOld
                hIngress.nextPacket_le, i, y, bytes, hAt,
                hIngress.carries hOld hCarries⟩
            · rcases hShelved k q hBefore with ⟨hLt, j, hj⟩
              exact hKept q j hLt hj

/- It holds at the start, where nothing is shelved. -/
theorem JustStarted.invariant
    (hReliable : cfg.reliableEnabled = true)
    (hStart : JustStarted fmt cfg d c ch) :
    ChannelInvariant fmt cfg d c ch := by
  have hHosts : ∀ e : Endpoint P, Running fmt cfg e →
      HostsKept e := by
    rintro e ⟨fresh, e₀, moves, hNone, hRun⟩
    refine hRun.invariant (fun _ _ _ hHosts hMoves =>
      hMoves.hostsKept hHosts) (HostsKept.netInit fresh ?_)
    intro b x hx
    rw [Endpoint.describe, hNone b] at hx
    cases hx
  rcases hStart.sender with
    ⟨e, ⟨hRunning, fresh, h, a, sa, hCall⟩, hLog⟩
  rcases hStart.receiver with
    ⟨r, hRunning', fresh', h', a', sa', hCall'⟩
  refine ⟨?_, hCall'.hostsKept (hHosts r hRunning'),
    ⟨[], by simp, hStart.inserted⟩, by simp [hStart.acked],
    ?_⟩
  · rw [hLog]
    exact numbered_opens (Or.inr hReliable)
      (hHosts e hRunning) hCall
  · cases hCall' with
    | establish _ _ hEstablish =>
        refine ⟨_, by rw [nbEstablish_conns hEstablish,
          Function.update_self], ?_⟩
        intro k q hq
        rw [openedConn_slots] at hq
        cases hq

end Channels

end NetBlocks
