import NetBlocks.Core.Channel

/-
  What packets say on their way through a host, and a host
  with what it notes of its calls: what was sent on each of
  its connections, and what came back.

  Main declarations:
    * `PacketFormat.SamePacket` and `Moves.samePacket`
    * `Post`, `Receipt` and `Reading`
    * `Journal` and `Notes`
-/

namespace NetBlocks

open Except TransitionSystem

variable {P : Type}

------------------------------------------------------------
-- What a Packet Says
------------------------------------------------------------

/-
  `y` says what `x` does: the members that are sent are the
  same, but for the checksum, and so are number and payload.
-/
structure PacketFormat.SamePacket
    (fmt : PacketFormat P)
    (x y : P) : Prop where
  get : ∀ f : Field, f.onWire = true → f ≠ .checksum →
    fmt.getInteger f y = fmt.getInteger f x
  carries : ∀ number bytes, fmt.Carries number bytes x →
    fmt.Carries number bytes y

/- By its header a packet is as long as its headers. -/
def PacketFormat.Whole
    (fmt : PacketFormat P)
    (x : P) : Prop :=
  (fmt.headerLen : Int) ≤ (fmt.getWord .totalLen x).toInt

section Packets

variable
    {fmt : PacketFormat P}
    {cfg : Config}
    {x y z : P}

theorem PacketFormat.Carries.whole
    {number : BitVec 32}
    {bytes : List Byte}
    (hCarries : fmt.Carries number bytes x) :
    fmt.Whole x := by
  rw [PacketFormat.Whole, hCarries.totalLen]
  omega

theorem PacketFormat.Whole.sized
    (hWhole : fmt.Whole x) :
    fmt.Sized (fmt.restoreTotalLen x) := by
  rw [PacketFormat.Sized, PacketFormat.toInt_getInteger rfl
    rfl, PacketFormat.getWord_restoreTotalLen]
  exact hWhole

namespace PacketFormat.SamePacket

theorem refl
    (fmt : PacketFormat P)
    (x : P) :
    fmt.SamePacket x x :=
  ⟨fun _ _ _ => rfl, fun _ _ hCarries => hCarries⟩

theorem trans
    (hFirst : fmt.SamePacket x y)
    (hSecond : fmt.SamePacket y z) :
    fmt.SamePacket x z where
  get f hWire hNe :=
    (hSecond.get f hWire hNe).trans (hFirst.get f hWire hNe)
  carries _ _ hCarries :=
    hSecond.carries _ _ (hFirst.carries _ _ hCarries)

theorem getWord
    {f : Field}
    (hSame : fmt.SamePacket x y)
    (hWire : f.onWire = true)
    (hNe : f ≠ .checksum) :
    fmt.getWord f y = fmt.getWord f x := by
  rw [PacketFormat.getWord, hSame.get f hWire hNe,
    PacketFormat.getWord]

theorem whole
    (hSame : fmt.SamePacket x y)
    (hWhole : fmt.Whole x) :
    fmt.Whole y := by
  rw [PacketFormat.Whole, hSame.getWord rfl (by decide)]
  exact hWhole

theorem sentLen
    (hSame : fmt.SamePacket x y) :
    fmt.sentLen y = fmt.sentLen x := by
  rw [PacketFormat.sentLen, hSame.getWord rfl (by decide),
    PacketFormat.sentLen]

/- Members that are not sent do not matter. -/
theorem setInteger
    {f : Field}
    (hWire : f.onWire = false)
    (v : BitVec 64)
    (x : P) :
    fmt.SamePacket x (fmt.setInteger f v x) where
  get g hOn _ := by
    have hNe : g ≠ f := by
      rintro rfl
      rw [hWire] at hOn
      cases hOn
    have hFits : f.Fits v := by
      rintro (rfl | rfl) <;> cases hWire
    exact fmt.get_set_ne f g v x hFits hNe
  carries _ _ hCarries := hCarries.setInteger hWire v

/- So do the lengths, and the padding of the checksum. -/
theorem checked
    {passes : Bool}
    (hWhole : fmt.Whole x)
    (hCheck : checkPacket fmt cfg x = .ok (y, passes)) :
    fmt.SamePacket x y where
  get f hWire _ := by
    apply checkPacket_get hCheck hWhole.sized
    rintro rfl
    cases hWire
  carries _ _ hCarries := hCarries.checked hCheck

/- What arrives over the wire says the same. -/
theorem of_sameWire
    {size : BitVec 32}
    (hSize : size = fmt.getWord .totalLen x)
    (hWire : fmt.SameWire size.toInt x y) :
    fmt.SamePacket x y where
  get f hOn _ := hWire.fields f hOn
  carries number bytes hCarries := by
    rw [hSize] at hWire
    exact hCarries.of_sameWire hWire

theorem restoreAll
    {e : Endpoint P}
    (taken : List PacketPtr)
    (q : PacketPtr) :
    fmt.SamePacket (e.packets q)
      ((e.restoreAll fmt taken).packets q) := by
  simp only [Endpoint.restoreAll]
  split
  · exact setInteger rfl _ _
  · exact refl fmt _

end PacketFormat.SamePacket

end Packets

/- Reading less returns the first of the same bytes. -/
def PacketFormat.ReadsPrefixes
    (fmt : PacketFormat P) : Prop :=
  ∀ m n x bytes, m ≤ n → fmt.readPayload n x = .ok bytes →
    fmt.readPayload m x = .ok (bytes.take m)

/- What is read of a payload is a piece of it. -/
theorem PacketFormat.Carries.piece
    {fmt : PacketFormat P}
    {number : BitVec 32}
    {bytes piece : List Byte}
    {x : P}
    {m : Nat}
    (hPrefixes : fmt.ReadsPrefixes)
    (hCarries : fmt.Carries number bytes x)
    (hLen : (m : Int) ≤ fmt.sentLen x)
    (hRead : fmt.readPayload m x = .ok piece) :
    piece = bytes.take m := by
  rw [hCarries.sentLen] at hLen
  have hLe : m ≤ bytes.length := by omega
  by_cases hNil : bytes = []
  · rw [hNil] at hLe ⊢
    cases Nat.le_zero.mp hLe
    have hAgain := hPrefixes 0 0 x piece (Nat.le_refl 0) hRead
    rw [List.take_zero, hRead] at hAgain
    cases hAgain
    rfl
  · have hTake := hPrefixes m _ x _ hLe (hCarries.payload hNil)
    rw [hRead] at hTake
    cases hTake
    rfl

------------------------------------------------------------
-- Packets in a Host's Memory
------------------------------------------------------------

section Memory

variable
    {fmt : PacketFormat P}
    {cfg : Config}
    {p q : PacketPtr}
    {e e' : Endpoint P}

theorem BackResult.samePacket
    {c : ConnPtr}
    {status : HookStatus}
    (hBack : BackResult fmt cfg p c e status e')
    (hOld : q < e.nextPacket) :
    fmt.SamePacket (e.packets q) (e'.packets q) := by
  cases hBack with
  | ack _ _ hReceive =>
      rcases receiveAck_ok_iff.mp hReceive with
        ⟨conn, -, ⟨-, rfl⟩ | ⟨_, t, -, -, rfl⟩⟩ <;>
          exact .refl fmt _
  | @data conn e₁ status v taken _ _ hAcked _ =>
      rw [← hAcked.packets_eq (Nat.ne_of_lt hOld)]
      exact .restoreAll (e := e₁.setConn c _) _ q

/- The ingress path only works on what is not sent. -/
theorem IngressResult.samePacket
    (hIngress : IngressResult fmt cfg p e e')
    (hOld : q < e.nextPacket)
    (hWhole : fmt.Whole (e.packets q)) :
    fmt.SamePacket (e.packets q) (e'.packets q) := by
  have hChecked : ∀ y passes,
      checkPacket fmt cfg (e.packets p) = .ok (y, passes) →
        fmt.SamePacket (e.packets q)
          ((e.setPacket p y).packets q) := by
    intro y passes hCheck
    by_cases hEq : q = p
    · subst hEq
      rw [Endpoint.setPacket_packets_self]
      exact .checked hWhole hCheck
    · rw [Endpoint.setPacket_packets_of_ne _ _ hEq]
      exact .refl fmt _
  cases hIngress with
  | dropped hFront =>
      cases hFront with
      | rejected hCheck => exact hChecked _ _ hCheck
      | unclaimed hCheck => exact hChecked _ _ hCheck
      | parked hCheck => exact hChecked _ _ hCheck
  | @routed y status _ hCheck _ _ hBack =>
      apply PacketFormat.SamePacket.trans _
        (hBack.samePacket hOld)
      have hKept := hChecked _ _ hCheck
      by_cases hEq : q = p
      · subst hEq
        rw [Endpoint.setPacket_packets_self] at hKept ⊢
        exact hKept.trans (.setInteger rfl _ _)
      · rw [Endpoint.setPacket_packets_of_ne _ _ hEq]
        exact .refl fmt _

/-
  It leaves another packet alone whose length is the one in
  its header.
-/
theorem IngressResult.packets_eq_of_restored
    (hIngress : IngressResult fmt cfg p e e')
    (hNe : q ≠ p)
    (hOld : q < e.nextPacket)
    (hRestored : fmt.restoreTotalLen (e.packets q) =
      e.packets q) :
    e'.packets q = e.packets q := by
  have hSet : ∀ x : P, (e.setPacket p x).packets q =
      e.packets q :=
    fun x => Endpoint.setPacket_packets_of_ne e x hNe
  cases hIngress with
  | dropped hFront =>
      cases hFront with
      | rejected => exact hSet _
      | unclaimed => exact hSet _
      | parked => exact hSet _
  | routed _ _ _ hBack =>
      cases hBack with
      | ack _ _ hReceive =>
          rcases receiveAck_ok_iff.mp hReceive with
            ⟨conn, -, ⟨-, rfl⟩ | ⟨_, t, -, -, rfl⟩⟩ <;>
              exact hSet _
      | @data conn e₁ _ v taken _ _ hAcked _ =>
          have hSame : e₁.packets q = e.packets q :=
            (hAcked.packets_eq (Nat.ne_of_lt hOld)).trans
              (hSet _)
          simp only [Endpoint.restoreAll,
            Endpoint.setConn_packets]
          split
          · rw [hSame, hRestored]
          · exact hSame

/- Steps that process nothing write to the next buffer. -/
theorem Moves.packets_eq
    {move : StackMove P}
    (hMoves : Moves fmt cfg e move e')
    (hNone : move.processes e = none)
    (hOld : q < e.nextPacket) :
    e'.packets q = e.packets q := by
  have hTakes : ∀ call, Calls fmt cfg e call e' →
      (∀ x len, call ≠ .ingress x len) →
        e'.packets q = e.packets q := by
    intro call hCall hNot
    cases hCall.takes hNot with
    | nothing _ hPackets => rw [hPackets]
    | next _ hPackets =>
        exact hPackets q (Nat.ne_of_lt hOld)
  cases hMoves with
  | @call call _ hCall =>
      apply hTakes call hCall
      rintro x len rfl
      cases hNone
  | accept hStep =>
      cases hStep with
      | opens hCall => exact hTakes _ hCall (by simp)
      | replays => cases hNone
      | dequeues => rfl
      | signals => rfl

/- No step changes what a packet of old says. -/
theorem Moves.samePacket
    {move : StackMove P}
    (hMoves : Moves fmt cfg e move e')
    (hOld : q < e.nextPacket)
    (hWhole : fmt.Whole (e.packets q)) :
    fmt.SamePacket (e.packets q) (e'.packets q) := by
  cases hProcesses : move.processes e with
  | some processed =>
      rcases hMoves.processed hProcesses with
        ⟨-, hIngress, hNext, -, -, hPackets⟩
      have hOld₀ := Nat.lt_of_lt_of_le hOld hNext
      rw [← hPackets q hOld] at hWhole ⊢
      exact hIngress.samePacket hOld₀ hWhole
  | none =>
      rw [hMoves.packets_eq hProcesses hOld]
      exact .refl fmt _

end Memory

------------------------------------------------------------
-- Whom a Packet Is From and For
------------------------------------------------------------

/- The 16 bits of an app id that are sent. -/
def appOnWire
    (app : BitVec 32) : BitVec 32 :=
  (app.setWidth 16).setWidth 32

/- A packet of the connection `x` describes, at a host. -/
structure PacketFormat.IsFrom
    (fmt : PacketFormat P)
    (localHostId : BitVec 64)
    (x : TableEntry)
    (y : P) : Prop where
  dstHost : fmt.getInteger .dstHostId y = x.remoteHostId
  srcHost : fmt.getInteger .srcHostId y = localHostId
  dstApp : fmt.getWord .dstAppId y = appOnWire x.remoteAppId
  srcApp : fmt.getWord .srcAppId y = appOnWire x.localAppId

/- A packet for the connection `x` describes, at a host. -/
structure PacketFormat.IsFor
    (fmt : PacketFormat P)
    (cfg : Config)
    (localHostId : BitVec 64)
    (x : TableEntry)
    (y : P) : Prop where
  dstHost : fmt.getInteger .dstHostId y = localHostId
  dstApp : fmt.getWord .dstAppId y = x.localAppId
  source : cfg.flowIdentifier = .srcDstIdentifier →
    fmt.getWord .srcAppId y = x.remoteAppId ∧
      fmt.getInteger .srcHostId y = x.remoteHostId

/-
  Packets of the connection `x` at one host are for `y` at
  the other. Without source ids any host and app will do.
-/
structure Reaches
    (cfg : Config)
    (fromHost toHost : BitVec 64)
    (x y : TableEntry) : Prop where
  host : x.remoteHostId = toHost
  app : appOnWire x.remoteAppId = y.localAppId
  source : cfg.flowIdentifier = .srcDstIdentifier →
    appOnWire x.localAppId = y.remoteAppId ∧
      fromHost = y.remoteHostId

/- `y` is the same flow as `x`, by the app ids on the wire. -/
structure SameFlow
    (x y : TableEntry) : Prop where
  localApp : appOnWire x.localAppId = y.localAppId
  remoteApp : appOnWire x.remoteAppId = y.remoteAppId
  remoteHost : x.remoteHostId = y.remoteHostId

section Addresses

variable
    {fmt : PacketFormat P}
    {cfg : Config}
    {fromHost toHost backHost : BitVec 64}
    {x y w : TableEntry}
    {z z' : P}

@[simp] theorem appOnWire_appOnWire
    (app : BitVec 32) :
    appOnWire (appOnWire app) = appOnWire app := by
  apply BitVec.eq_of_toNat_eq
  simp only [appOnWire, BitVec.toNat_setWidth]
  omega

/- With source ids, packets there and back are of one flow. -/
theorem Reaches.back
    (hFlow : cfg.flowIdentifier = .srcDstIdentifier)
    (hThere : Reaches cfg fromHost toHost x y)
    (hBack : Reaches cfg toHost backHost y w) :
    fromHost = backHost ∧ SameFlow x w := by
  rcases hThere.source hFlow with ⟨hApp, hHost⟩
  rcases hBack.source hFlow with ⟨hBackApp, hBackHost⟩
  refine ⟨hHost.trans hBack.host, ?_, ?_,
    hThere.host.trans hBackHost⟩
  · rw [← hBack.app, ← hApp, appOnWire_appOnWire]
  · rw [← hBackApp, ← hThere.app, appOnWire_appOnWire]

theorem PacketFormat.IsFrom.reaches
    (hFrom : fmt.IsFrom fromHost x z)
    (hFor : fmt.IsFor cfg toHost y z) :
    Reaches cfg fromHost toHost x y where
  host := hFrom.dstHost.symm.trans hFor.dstHost
  app := hFrom.dstApp.symm.trans hFor.dstApp
  source hFlow := by
    rcases hFor.source hFlow with ⟨hApp, hHost⟩
    exact ⟨hFrom.srcApp.symm.trans hApp,
      hFrom.srcHost.symm.trans hHost⟩

theorem PacketFormat.IsFrom.congr
    (hFrom : fmt.IsFrom fromHost x z)
    (hSame : fmt.SamePacket z z') :
    fmt.IsFrom fromHost x z' where
  dstHost := (hSame.get _ rfl (by decide)).trans hFrom.dstHost
  srcHost := (hSame.get _ rfl (by decide)).trans hFrom.srcHost
  dstApp := (hSame.getWord rfl (by decide)).trans hFrom.dstApp
  srcApp := (hSame.getWord rfl (by decide)).trans hFrom.srcApp

theorem PacketFormat.IsFor.congr
    (hFor : fmt.IsFor cfg toHost y z)
    (hSame : fmt.SamePacket z z') :
    fmt.IsFor cfg toHost y z' where
  dstHost := (hSame.get _ rfl (by decide)).trans hFor.dstHost
  dstApp := (hSame.getWord rfl (by decide)).trans hFor.dstApp
  source hFlow := by
    rcases hFor.source hFlow with ⟨hApp, hHost⟩
    exact ⟨(hSame.getWord rfl (by decide)).trans hApp,
      (hSame.get _ rfl (by decide)).trans hHost⟩

/- What a connection completes is from it. -/
theorem completePacket_isFrom
    {conn : Connection}
    {localHostId : BitVec 64}
    {hostId : BitVec 32}
    (hFits : HostsFit conn localHostId)
    (hSized : fmt.Sized z)
    (hComplete : completePacket fmt cfg conn localHostId
      hostId z = .ok z')
    (c : ConnPtr) :
    fmt.IsFrom localHostId (conn.tableEntry c) z' := by
  have hWord : ∀ (f : Field) (app : BitVec 32),
      f.bits = 16 → f.signed = false →
      fmt.getInteger f z' = f.canon (app.setWidth 64) →
        fmt.getWord f z' = appOnWire app := by
    intro f app hBits hSigned hGet
    rw [PacketFormat.getWord, hGet, Field.canon,
      if_neg (by simp [hSigned]), hBits, appOnWire]
    apply BitVec.eq_of_toNat_eq
    simp only [BitVec.toNat_setWidth]
    omega
  rcases completePacket_ids hFits hSized hComplete with
    ⟨hDstHost, hSrcHost, hDstApp, hSrcApp⟩
  exact ⟨hDstHost, hSrcHost, hWord _ _ rfl rfl hDstApp,
    hWord _ _ rfl rfl hSrcApp⟩

end Addresses

------------------------------------------------------------
-- Posts and Receipts
------------------------------------------------------------

/- What was sent on a connection, and under which number. -/
structure Post where
  sender : TableEntry
  number : BitVec 32
  bytes : List Byte
deriving DecidableEq

/- What a connection received: the number in the packet. -/
structure Receipt where
  receiver : TableEntry
  number : BitVec 32
deriving DecidableEq

/- What `nb__read` returned from a connection. -/
structure Reading where
  reader : TableEntry
  bytes : List Byte
deriving DecidableEq

/- A packet that was sent with a post, or a copy of it. -/
structure PacketFormat.IsPost
    (fmt : PacketFormat P)
    (cfg : Config)
    (localHostId : BitVec 64)
    (post : Post)
    (y : P) : Prop where
  isFrom : fmt.IsFrom localHostId post.sender y
  carries : ∃ number, fmt.Carries number post.bytes y ∧
    (cfg.inorderStrategy ≠ .noInorder ∨
        cfg.reliableEnabled = true →
      number = post.number)
  data : cfg.reliableEnabled = true →
    fmt.getWord .ackSequenceNumber y = 0

/- An ack that answers what was received, or a copy of it. -/
structure PacketFormat.IsAck
    (fmt : PacketFormat P)
    (cfg : Config)
    (localHostId : BitVec 64)
    (receipt : Receipt)
    (y : P) : Prop where
  reliable : cfg.reliableEnabled = true
  isFrom : fmt.IsFrom localHostId receipt.receiver y
  whole : fmt.Whole y
  number : fmt.getWord .ackSequenceNumber y = receipt.number

section Posts

variable
    {fmt : PacketFormat P}
    {cfg : Config}
    {localHostId : BitVec 64}
    {post : Post}
    {receipt : Receipt}
    {x y : P}

theorem PacketFormat.IsPost.whole
    (hPost : fmt.IsPost cfg localHostId post y) :
    fmt.Whole y := by
  rcases hPost.carries with ⟨number, hCarries, -⟩
  exact hCarries.whole

theorem PacketFormat.IsPost.congr
    (hPost : fmt.IsPost cfg localHostId post x)
    (hSame : fmt.SamePacket x y) :
    fmt.IsPost cfg localHostId post y where
  isFrom := hPost.isFrom.congr hSame
  carries := by
    rcases hPost.carries with ⟨number, hCarries, hNumber⟩
    exact ⟨number, hSame.carries _ _ hCarries, hNumber⟩
  data hReliable :=
    (hSame.getWord rfl (by decide)).trans
      (hPost.data hReliable)

theorem PacketFormat.IsAck.congr
    (hAck : fmt.IsAck cfg localHostId receipt x)
    (hSame : fmt.SamePacket x y) :
    fmt.IsAck cfg localHostId receipt y where
  reliable := hAck.reliable
  isFrom := hAck.isFrom.congr hSame
  whole := hSame.whole hAck.whole
  number := (hSame.getWord rfl (by decide)).trans hAck.number

end Posts

------------------------------------------------------------
-- Journals
------------------------------------------------------------

/-
  A host, with what was sent on its connections, the data and
  the acks that reached them, and what was read from them.
-/
structure Journal (P : Type) where
  endpoint : Endpoint P
  posts : List Post
  receipts : List Receipt
  acks : List Receipt
  reads : List Reading

/-
  The connection whose reliable module takes the packet at
  `p` for an ack.
-/
def ackReceiver
    (fmt : PacketFormat P)
    (cfg : Config)
    (p : PacketPtr)
    (e : Endpoint P) : Option ConnPtr :=
  match checkPacket fmt cfg (e.packets p) with
  | .ok (y, true) =>
      if fmt.getInteger .dstHostId y = e.myLocalHostId ∧
          lookup fmt cfg e y ≠ 0 ∧
          cfg.reliableEnabled = true ∧
          fmt.getWord .ackSequenceNumber y ≠ 0 then
        some (lookup fmt cfg e y)
      else
        none
  | _ => none

/- The connection that a step sends a packet on, and what. -/
def StackMove.posts :
    StackMove P → Option (ConnPtr × List Byte)
| .call (.establish c _ _ _ _) => some (c, [])
| .call (.send c buff) => some (c, buff)
| .accept (.opens c _ _ _ _) => some (c, [])
| _ => none

/- What a step that leads to `e'` sends. -/
def postsOf
    (e e' : Endpoint P)
    (move : StackMove P) : List Post :=
  match move.posts with
  | none => []
  | some (c, bytes) =>
      match e'.conns c with
      | none => []
      | some conn => (handedOut e e').map (fun _ =>
          ⟨conn.tableEntry c, conn.lastSentSequence, bytes⟩)

/- What a receiver notes of a number. -/
def receiptsOf
    (e : Endpoint P)
    (receiver : Option ConnPtr)
    (number : BitVec 32) : List Receipt :=
  (receiver.bind e.describe).toList.map
    (fun x => ⟨x, number⟩)

/- What a step returns to a program that reads. -/
def readingsOf
    (fmt : PacketFormat P)
    (e : Endpoint P) : StackMove P → List Reading
| .call (.read c maxLen) =>
    match nbRead fmt c maxLen e with
    | .ok (bytes, _) =>
        (e.describe c).toList.map (fun x => ⟨x, bytes⟩)
    | .error _ => []
| _ => []

namespace Journal

def start
    (e : Endpoint P) : Journal P where
  endpoint := e
  posts := []
  receipts := []
  acks := []
  reads := []

/- What is noted of a step that leads to `e'`. -/
def after
    (fmt : PacketFormat P)
    (cfg : Config)
    (t : Journal P)
    (e' : Endpoint P)
    (move : StackMove P) : Journal P where
  endpoint := e'
  posts := t.posts ++ postsOf t.endpoint e' move
  receipts :=
    match move.processes t.endpoint with
    | none => t.receipts
    | some (p, e) => t.receipts ++
        receiptsOf e (dataReceiver fmt cfg p e)
          (fmt.getWord .sequenceNumber (e.packets p))
  acks :=
    match move.processes t.endpoint with
    | none => t.acks
    | some (p, e) => t.acks ++
        receiptsOf e (ackReceiver fmt cfg p e)
          (fmt.getWord .ackSequenceNumber (e.packets p))
  reads := t.reads ++ readingsOf fmt t.endpoint move

end Journal

/- A small step of `nb__accept`, and what is noted of it. -/
def NotesMove
    (fmt : PacketFormat P)
    (cfg : Config)
    (queued : PacketPtr → Prop)
    (t : Journal P)
    (move : AcceptMove)
    (t' : Journal P) : Prop :=
  AcceptStep fmt cfg queued t.endpoint move t'.endpoint ∧
    t' = t.after fmt cfg t'.endpoint (.accept move)

/- A call of the API, and what is noted of it. -/
inductive Notes
    (fmt : PacketFormat P)
    (cfg : Config)
    (t : Journal P) : ApiCall P → Journal P → Prop
| call {call : Call P} {e' : Endpoint P} :
    Calls fmt cfg t.endpoint call e' →
    Notes fmt cfg t (.call call)
      (t.after fmt cfg e' (.call call))
| accept {c s : ConnPtr} {fresh : Connection}
    {moves : List AcceptMove} {t' : Journal P} :
    ApiCalls fmt cfg t.endpoint (.accept c s fresh)
      t'.endpoint →
    Run (NotesMove fmt cfg (IsQueued t.endpoint)) t moves
      t' →
    Notes fmt cfg t (.accept c s fresh) t'

section Noting

variable
    {fmt : PacketFormat P}
    {cfg : Config}
    {t : Journal P}
    {e e' : Endpoint P}

/- Every sequence of small steps can be noted. -/
theorem notesMove_of_steps
    {queued : PacketPtr → Prop}
    {moves : List AcceptMove}
    (hRun : Run (AcceptStep fmt cfg queued) e moves e')
    (hStart : t.endpoint = e) :
    ∃ t', t'.endpoint = e' ∧
      Run (NotesMove fmt cfg queued) t moves t' := by
  induction hRun generalizing t with
  | nil e => exact ⟨t, hStart, .nil t⟩
  | @cons e₁ e₂ _ move _ hStep _ ih =>
      let t₁ := t.after fmt cfg e₂ (.accept move)
      have hEnd : t₁.endpoint = e₂ := rfl
      rcases ih hEnd with ⟨t', hEndpoint, hRun'⟩
      refine ⟨t', hEndpoint, .cons ⟨?_, rfl⟩ hRun'⟩
      rw [hEnd, hStart]
      exact hStep

/- Every call that returns can be noted. -/
theorem notes_of_apiCalls
    {call : ApiCall P}
    (hOld : QueuedOld t.endpoint)
    (hCall : ApiCalls fmt cfg t.endpoint call e') :
    ∃ t', t'.endpoint = e' ∧ Notes fmt cfg t call t' := by
  cases hCall with
  | @call _ call hCall =>
      exact ⟨t.after fmt cfg e' (.call call), rfl,
        .call hCall⟩
  | @accept _ c s _ _ _ hNe hFree hAccept =>
      have hIn : QueuedIn (IsQueued t.endpoint) t.endpoint :=
        queuedIn_iff.mpr (fun _ hp => hp)
      have hHanded := queuedIn_iff.mp hOld
      rcases nbAccept_steps hIn hHanded hNe hFree hAccept with
        ⟨moves, hRun⟩
      rcases notesMove_of_steps (t := t) hRun rfl with
        ⟨t', rfl, hNoted⟩
      exact ⟨t', rfl, .accept (.accept hNe hFree hAccept)
        hNoted⟩

end Noting

end NetBlocks
