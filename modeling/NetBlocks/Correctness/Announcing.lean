import NetBlocks.Correctness.Accepting

/-
  When the callback for a packet to accept is made: there is
  one for each packet that is parked, also for those that
  `nb__accept` parks again.

  Main declarations:
    * `ParksAt` and `Listens`
    * `Tells`
    * `IngressResult.tells`
    * `nbAccept_tells`
-/

namespace NetBlocks

open Except TransitionSystem SwapRemoval

variable {P : Type}

------------------------------------------------------------
-- Parking and Telling
------------------------------------------------------------

/- The packet at `p` is one to park at the listener `l`. -/
def ParksAt
    (fmt : PacketFormat P)
    (cfg : Config)
    (p : PacketPtr)
    (l : ConnPtr)
    (e : Endpoint P) : Prop :=
  cfg.flowIdentifier = .srcDstIdentifier ∧ l ≠ 0 ∧
    ∃ y, checkPacket fmt cfg (e.packets p) = .ok (y, true) ∧
      fmt.getInteger .dstHostId y = e.myLocalHostId ∧
      lookup fmt cfg e y = 0 ∧
      e.netState.retrieveWildcardConnection
        (fmt.getWord .dstAppId y) = l

/- A packet is parked, and its listener told, or neither. -/
inductive ParkResult
    (fmt : PacketFormat P)
    (cfg : Config)
    (p : PacketPtr)
    (e e' : Endpoint P) : Prop
| parked {l : ConnPtr} {conn : Connection} {x : AcceptEntry} :
    ParksAt fmt cfg p l e →
    e.conns l = some conn →
    e'.conns = Function.update e.conns l (some
      (conn.withAcceptQueue (conn.acceptQueue ++ [x]))) →
    e'.events = e.events ++ [(.acceptReady, l)] →
    ParkResult fmt cfg p e e'
| quiet :
    (∀ c conn, e.conns c = some conn → ∃ conn',
      e'.conns c = some conn' ∧
        conn'.acceptQueue = conn.acceptQueue) →
    e'.events = e.events →
    ParkResult fmt cfg p e e'

/- A listener with packets to accept. -/
def Listens
    (e : Endpoint P)
    (c : ConnPtr) : Prop :=
  ∃ conn, e.conns c = some conn ∧ IsListener conn ∧
    conn.acceptQueue ≠ []

/-
  The callbacks made between two endpoints are for the
  listeners `told`, each of which has a packet to accept
  since. Of an accept queue no entries but those `taken` are
  gone.
-/
structure Tells
    (taken : ConnPtr → AcceptEntry → Prop)
    (told : List ConnPtr)
    (e e' : Endpoint P) : Prop where
  events : e'.events =
    e.events ++ told.map (fun l => (.acceptReady, l))
  live : ∀ c, e'.conns c = none ↔ e.conns c = none
  kept : ∀ c conn, e.conns c = some conn → ∃ conn',
    e'.conns c = some conn' ∧
      (IsListener conn → IsListener conn') ∧
      ∀ x ∈ conn.acceptQueue, ¬ taken c x →
        x ∈ conn'.acceptQueue
  found : ∀ l ∈ told, e.conns l ≠ none
  ready : ∀ l ∈ told, (∀ x, ¬ taken l x) → Listens e' l

/- Nothing is taken out of any queue. -/
def noEntry : ConnPtr → AcceptEntry → Prop :=
  fun _ _ => False

namespace Tells

variable
    {taken taken' : ConnPtr → AcceptEntry → Prop}
    {told first second : List ConnPtr}
    {c : ConnPtr}
    {e e₁ e' : Endpoint P}

theorem listens
    (hTells : Tells taken told e e')
    (hListens : Listens e c)
    (hTaken : ∀ x, ¬ taken c x) :
    Listens e' c := by
  rcases hListens with ⟨conn, hConn, hListener, hQueue⟩
  rcases hTells.kept c conn hConn with
    ⟨conn', hConn', hListener', hEntries⟩
  rcases List.exists_mem_of_ne_nil _ hQueue with ⟨x, hx⟩
  exact ⟨conn', hConn', hListener' hListener,
    List.ne_nil_of_mem (hEntries x hx (hTaken x))⟩

theorem trans
    (hFirst : Tells taken first e e₁)
    (hSecond : Tells taken second e₁ e') :
    Tells taken (first ++ second) e e' := by
  refine ⟨?_, ?_, ?_, ?_, ?_⟩
  · rw [hSecond.events, hFirst.events, List.map_append,
      List.append_assoc]
  · exact fun c => (hSecond.live c).trans (hFirst.live c)
  · intro c conn hConn
    rcases hFirst.kept c conn hConn with
      ⟨conn₁, hConn₁, hListener₁, hEntries₁⟩
    rcases hSecond.kept c conn₁ hConn₁ with
      ⟨conn', hConn', hListener', hEntries'⟩
    exact ⟨conn', hConn',
      fun hListener => hListener' (hListener₁ hListener),
      fun x hx hNot =>
        hEntries' x (hEntries₁ x hx hNot) hNot⟩
  · intro l hl
    rcases List.mem_append.mp hl with hl | hl
    · exact hFirst.found l hl
    · exact fun hNone =>
        hSecond.found l hl ((hFirst.live l).mpr hNone)
  · intro l hl hTaken
    rcases List.mem_append.mp hl with hl | hl
    · exact hSecond.listens (hFirst.ready l hl hTaken) hTaken
    · exact hSecond.ready l hl hTaken

theorem mono
    (hTells : Tells taken told e e')
    (hMore : ∀ c x, taken c x → taken' c x) :
    Tells taken' told e e' where
  events := hTells.events
  live := hTells.live
  kept := by
    intro c conn hConn
    rcases hTells.kept c conn hConn with
      ⟨conn', hConn', hListener, hEntries⟩
    exact ⟨conn', hConn', hListener, fun x hx hNot =>
      hEntries x hx (fun hTaken => hNot (hMore c x hTaken))⟩
  found := hTells.found
  ready := fun l hl hNot =>
    hTells.ready l hl
      (fun x hTaken => hNot x (hMore l x hTaken))

/- Connections and events stay as they are. -/
theorem of_conns_eq
    (hConns : e'.conns = e.conns)
    (hEvents : e'.events = e.events) :
    Tells taken [] e e' where
  events := by simp [hEvents]
  live := fun c => by rw [hConns]
  kept := fun c conn hConn =>
    ⟨conn, by rw [hConns, hConn], id, fun _ hx _ => hx⟩
  found := fun l hl => absurd hl List.not_mem_nil
  ready := fun l hl => absurd hl List.not_mem_nil

/- A connection is assigned that keeps its entries. -/
theorem of_assign
    {conn conn' : Connection}
    (hConn : e.conns c = some conn)
    (hConns : e'.conns =
      Function.update e.conns c (some conn'))
    (hEvents : e'.events = e.events)
    (hListener : IsListener conn → IsListener conn')
    (hEntries : ∀ x ∈ conn.acceptQueue, ¬ taken c x →
      x ∈ conn'.acceptQueue) :
    Tells taken [] e e' where
  events := by simp [hEvents]
  live := by
    intro d
    rw [hConns, Function.update_apply]
    split
    · next hEq => simp [hEq, hConn]
    · exact Iff.rfl
  kept := by
    intro d conn₁ hConn₁
    rw [hConns, Function.update_apply]
    split
    · next hEq =>
        subst hEq
        cases hConn.symm.trans hConn₁
        exact ⟨conn', rfl, hListener, hEntries⟩
    · exact ⟨conn₁, hConn₁, id, fun _ hx _ => hx⟩
  found := fun l hl => absurd hl List.not_mem_nil
  ready := fun l hl => absurd hl List.not_mem_nil

end Tells

------------------------------------------------------------
-- Received Packets
------------------------------------------------------------

section Packets

variable
    {fmt : PacketFormat P}
    {cfg : Config}
    {p : PacketPtr}
    {c s : ConnPtr}
    {conn fresh : Connection}
    {e e' : Endpoint P}

theorem IngressResult.touchesOne
    (hIngress : IngressResult fmt cfg p e e') :
    TouchesOne p e e' := by
  cases hIngress with
  | dropped hFront => exact hFront.touchesOne
  | routed _ _ _ hBack => exact hBack.touchesOne

/- The modules behind the lookup keep all accept queues. -/
theorem BackResult.acceptQueues
    {status : HookStatus}
    (hBack : BackResult fmt cfg p c e status e') :
    ∀ d conn, e.conns d = some conn → ∃ conn',
      e'.conns d = some conn' ∧
        conn'.acceptQueue = conn.acceptQueue := by
  rcases hBack.delivers with ⟨conn₁, conn₂, hDelivers⟩
  intro d conn hConn
  rw [hDelivers.conns, Function.update_apply]
  split
  · next hEq =>
      subst hEq
      cases hDelivers.found.symm.trans hConn
      exact ⟨conn₂, rfl, hDelivers.acceptQueue⟩
  · exact ⟨conn, hConn, rfl⟩

theorem IngressResult.parkResult
    (hIngress : IngressResult fmt cfg p e e') :
    ParkResult fmt cfg p e e' := by
  have hSame : ∀ d conn, e.conns d = some conn → ∃ conn',
      e.conns d = some conn' ∧
        conn'.acceptQueue = conn.acceptQueue :=
    fun _ conn hConn => ⟨conn, hConn, rfl⟩
  cases hIngress with
  | dropped hFront =>
      cases hFront with
      | rejected => exact .quiet hSame rfl
      | unclaimed => exact .quiet hSame rfl
      | @parked y l conn q hCheck hHost hLookup hFlow hFound
          hNe hConn hInsert =>
          rcases insertAcceptQueue_ok_iff.mp hInsert with
            ⟨-, rfl⟩
          exact .parked ⟨hFlow, hNe, y, hCheck, hHost, hLookup,
            hFound⟩ hConn rfl rfl
  | routed _ _ _ hBack =>
      exact .quiet hBack.acceptQueues hBack.events

/- A listener is described by its identifiers. -/
theorem SameTable.isListener
    {conn' : Connection}
    (hSame : SameTable e e')
    (hConn : e.conns c = some conn)
    (hConn' : e'.conns c = some conn')
    (hListener : IsListener conn) :
    IsListener conn' := by
  have hDescribe := hSame.describe c
  rw [Endpoint.describe, Endpoint.describe, hConn, hConn']
    at hDescribe
  have hEntry := Option.some.inj hDescribe
  exact ⟨(congrArg TableEntry.remoteAppId hEntry).trans
      hListener.1,
    (congrArg TableEntry.remoteHostId hEntry).trans
      hListener.2⟩

theorem SameTable.live
    (hSame : SameTable e e')
    (c : ConnPtr) :
    e'.conns c = none ↔ e.conns c = none := by
  have hDescribe : e'.describe c ≠ none ↔
      e.describe c ≠ none := by
    rw [hSame.describe]
  exact not_iff_not.mp ((describe_ne_none_iff.symm.trans
    hDescribe).trans describe_ne_none_iff)

/- A received packet tells at most one listener. -/
theorem IngressResult.tells
    (hAgrees : Agrees cfg e)
    (hIngress : IngressResult fmt cfg p e e') :
    ∃ told, Tells noEntry told e e' ∧
      ∀ l ∈ told, ParksAt fmt cfg p l e := by
  have hSame := hIngress.sameTable
  cases hIngress.parkResult with
  | @parked l conn x hParks hConn hConns hEvents =>
      have hParksAt := hParks
      rcases hParks with ⟨hFlow, hNe, y, -, -, -, hFound⟩
      have hListener := isListener_of_wildcard hFlow hAgrees
        hFound hNe hConn
      have hConn' : e'.conns l = some (conn.withAcceptQueue
          (conn.acceptQueue ++ [x])) := by
        rw [hConns, Function.update_self]
      refine ⟨[l], ⟨hEvents, hSame.live, ?_, ?_, ?_⟩, ?_⟩
      · intro d conn₁ hConn₁
        rw [hConns, Function.update_apply]
        split
        · next hEq =>
            subst hEq
            cases hConn.symm.trans hConn₁
            exact ⟨_, rfl, id, fun _ hMem _ =>
              List.mem_append_left _ hMem⟩
        · exact ⟨conn₁, hConn₁, id, fun _ hMem _ => hMem⟩
      · intro l' hl'
        rw [List.mem_singleton.mp hl', hConn]
        exact Option.some_ne_none conn
      · intro l' hl' _
        rw [List.mem_singleton.mp hl']
        exact ⟨_, hConn', hListener,
          List.ne_nil_of_mem (List.mem_append_right _
            (List.mem_singleton_self x))⟩
      · intro l' hl'
        rw [List.mem_singleton.mp hl']
        exact hParksAt
  | quiet hQueues hEvents =>
      refine ⟨[], ⟨?_, hSame.live, ?_,
        fun l hl => absurd hl List.not_mem_nil,
        fun l hl => absurd hl List.not_mem_nil⟩,
        fun l hl => absurd hl List.not_mem_nil⟩
      · simp [hEvents]
      · intro d conn hConn
        rcases hQueues d conn hConn with
          ⟨conn', hConn', hQueue⟩
        refine ⟨conn', hConn', hSame.isListener hConn hConn',
          ?_⟩
        intro x hx _
        rw [hQueue]
        exact hx

end Packets

------------------------------------------------------------
-- Accepting
------------------------------------------------------------

/- The entries of a peer in the queue of the listener `c`. -/
def entriesOf
    (c : ConnPtr)
    (srcAppId : BitVec 32)
    (srcHostId : BitVec 64) :
    ConnPtr → AcceptEntry → Prop :=
  fun d x => d = c ∧ x.isOf srcAppId srcHostId = true

section Accepts

variable
    {fmt : PacketFormat P}
    {cfg : Config}
    {p : PacketPtr}
    {c s : ConnPtr}
    {conn conn₁ fresh : Connection}
    {entry : AcceptEntry}
    {srcAppId : BitVec 32}
    {srcHostId : BitVec 64}
    {e e₁ e' : Endpoint P}

/- Packets are put behind those that are queued. -/
theorem TouchesOne.acceptQueue_prefix
    (hTouches : TouchesOne p e e₁)
    (hConn : e.conns c = some conn)
    (hConn₁ : e₁.conns c = some conn₁) :
    conn.acceptQueue <+: conn₁.acceptQueue := by
  rcases hTouches with
    hSame | ⟨d, connD, connD', hConnD, hTouches, hConns⟩
  · rw [hSame] at hConn₁
    cases hConn.symm.trans hConn₁
    exact List.prefix_refl _
  · rw [hConns, Function.update_apply] at hConn₁
    split at hConn₁
    · next hEq =>
        subst hEq
        cases hConn.symm.trans hConnD
        cases hConn₁
        cases hTouches with
        | parked x => exact List.prefix_append _ _
        | acked => exact List.prefix_refl _
        | arrived status v =>
            rw [(arrivedConn_members conn status v).2]
        | taken => exact List.prefix_refl _
    · cases hConn.symm.trans hConn₁
      exact List.prefix_refl _

/-
  A packet of the peer is processed and its entry taken out,
  unless it is parked at the same listener again.
-/
theorem IngressResult.tells_dequeueAt
    {i : Nat}
    (hAgrees : Agrees cfg e)
    (hConn : e.conns c = some conn)
    (hEntry : conn.acceptQueue[i]? = some entry)
    (hPeer : entry.isOf srcAppId srcHostId = true)
    (hIngress : IngressResult fmt cfg p e e₁)
    (hConn₁ : e₁.conns c = some conn₁) :
    ∃ told, Tells (entriesOf c srcAppId srcHostId) told e
        (dequeueAt c i conn₁ e₁) ∧
      ∀ l ∈ told, ParksAt fmt cfg p l e := by
  rcases hIngress.tells hAgrees with ⟨told, hTells, hParks⟩
  refine ⟨told, ?_, hParks⟩
  have hRemoved : Tells (entriesOf c srcAppId srcHostId) []
      e₁ (dequeueAt c i conn₁ e₁) := by
    rw [dequeueAt_eq hConn₁]
    refine .of_assign hConn₁ rfl rfl id ?_
    intro x hx hNot
    rcases hIngress.touchesOne.acceptQueue_prefix hConn
      hConn₁ with ⟨parked, hQueue⟩
    have hLt := (List.getElem?_eq_some_iff.mp hEntry).1
    have hEntry₁ : conn₁.acceptQueue[i]? = some entry := by
      rw [← hQueue, List.getElem?_append_left hLt, hEntry]
    have hMem := (removeAt_perm hEntry₁).mem_iff.mpr hx
    rcases List.mem_cons.mp hMem with rfl | hMem
    · exact absurd ⟨rfl, hPeer⟩ hNot
    · exact hMem
  have hBoth := (hTells.mono (fun _ _ hNone => absurd hNone
    id)).trans hRemoved
  rw [List.append_nil] at hBoth
  exact hBoth

/- The loop of `nb__accept` takes out entries of the peer. -/
theorem acceptLoop_tells
    {fuel i : Nat}
    (hKept : TableKept cfg e)
    (hLoop : acceptLoop fmt cfg c srcAppId srcHostId fuel i e =
      .ok e') :
    ∃ told, Tells (entriesOf c srcAppId srcHostId) told e
        e' ∧
      ∀ l ∈ told, ∃ p e₁, e₁.netState = e.netState ∧
        ParksAt fmt cfg p l e₁ := by
  induction fuel generalizing i e with
  | zero => cases hLoop
  | succ fuel ih =>
      rw [acceptLoop] at hLoop
      rcases bind_eq_ok_iff.mp hLoop with
        ⟨conn, hLoad, hRest⟩
      have hConn := Endpoint.loadConn_eq_ok_iff.mp hLoad
      cases hEntry : conn.acceptQueue[i]? with
      | none =>
          rw [hEntry] at hRest
          cases hRest
          exact ⟨[], .of_conns_eq rfl rfl,
            fun l hl => absurd hl List.not_mem_nil⟩
      | some entry =>
          rw [hEntry] at hRest
          dsimp only at hRest
          split at hRest
          · next hPeer =>
              rcases bind_eq_ok_iff.mp hRest with
                ⟨e₁, hIngress, hRest⟩
              rcases bind_eq_ok_iff.mp hRest with
                ⟨conn₁, hLoad₁, hRest⟩
              change acceptLoop fmt cfg c srcAppId srcHostId
                fuel i (dequeueAt c i conn₁ e₁) = _ at hRest
              have hConn₁ :=
                Endpoint.loadConn_eq_ok_iff.mp hLoad₁
              have hPacket : entry.packet < e.nextPacket :=
                hKept.queued c conn entry hConn
                  (List.mem_of_getElem? hEntry)
              have hResult := (runIngressPath_iff
                (Nat.ne_of_lt hPacket)).mp hIngress
              have hOf : entry.isOf srcAppId srcHostId =
                  true := by
                simpa [AcceptEntry.isOf] using hPeer
              rcases hResult.tells_dequeueAt hKept.agrees hConn
                  hEntry hOf hConn₁ with
                ⟨first, hFirst, hParks⟩
              have hReplay : AcceptStep fmt cfg
                  (· < e.nextPacket) e
                  (.replays entry.packet) e₁ :=
                .replays hPacket hPacket hIngress
              have hDequeue : AcceptStep fmt cfg
                  (· < e₁.nextPacket) e₁ (.dequeues c)
                  (dequeueAt c i conn₁ e₁) := by
                rw [dequeueAt_eq hConn₁]
                exact .dequeues hConn₁
                  (fun x hx => mem_of_mem_removeAt hx)
              have hNetState : (dequeueAt c i conn₁
                  e₁).netState = e.netState := by
                rw [dequeueAt_eq hConn₁]
                exact hResult.sameTable.netState
              rcases ih (hDequeue.tableKept
                  (hReplay.tableKept hKept)) hRest with
                ⟨second, hSecond, hLater⟩
              refine ⟨first ++ second, hFirst.trans hSecond,
                ?_⟩
              intro l hl
              rcases List.mem_append.mp hl with hl | hl
              · exact ⟨_, e, rfl, hParks l hl⟩
              · rcases hLater l hl with
                  ⟨p, e₂, hSame, hParksAt⟩
                exact ⟨p, e₂, hSame.trans hNetState,
                  hParksAt⟩
          · exact ih hKept hRest

theorem acceptLoop_of_empty
    {fuel i : Nat}
    (hConn : e.conns c = some conn)
    (hQueue : conn.acceptQueue = [])
    (hLoop : acceptLoop fmt cfg c srcAppId srcHostId fuel i e =
      .ok e') :
    e' = e := by
  cases fuel with
  | zero => cases hLoop
  | succ fuel =>
      rw [acceptLoop, Endpoint.loadConn_of_some hConn,
        ok_bind, hQueue, List.getElem?_nil] at hLoop
      cases hLoop
      rfl

/- With a new entry in the table, fewer packets match none. -/
theorem lookup_added_eq_zero
    {x : TableEntry}
    {y : P}
    (hNull : NoNullEntry e)
    (hNe : x.conn ≠ 0)
    (hEntries : e'.netState.entries =
      e.netState.entries ++ [x])
    (hLookup : lookup fmt cfg e' y = 0) :
    lookup fmt cfg e y = 0 ∧
      x.matchesFlow cfg.flowIdentifier
        (fmt.getWord .dstAppId y) (fmt.getWord .srcAppId y)
        (fmt.getInteger .srcHostId y) = false := by
  rw [lookup, NetState.retrieveConnection_eq, hEntries,
    List.find?_append] at hLookup
  rw [lookup, NetState.retrieveConnection_eq]
  generalize TableEntry.matchesFlow cfg.flowIdentifier
    (fmt.getWord .dstAppId y) (fmt.getWord .srcAppId y)
    (fmt.getInteger .srcHostId y) = found at hLookup ⊢
  cases hFind : e.netState.entries.find? found with
  | some z =>
      rw [hFind] at hLookup
      exact absurd hLookup
        (hNull z (List.mem_of_find?_eq_some hFind))
  | none =>
      cases hMatch : found x with
      | false => exact ⟨rfl, rfl⟩
      | true =>
          simp [hFind, hMatch] at hLookup
          exact absurd hLookup hNe

/-
  A listener comes before the connections it accepts, so that
  none of these is found as a listener.
-/
theorem retrieveWildcard_ne_accepted
    {x : TableEntry}
    {a : BitVec 32}
    (hFlow : cfg.flowIdentifier = .srcDstIdentifier)
    (hKept : TableKept cfg e)
    (hEntries : e'.netState.entries =
      e.netState.entries ++ [x])
    (hNull : x.conn ≠ 0)
    (hFree : e.conns x.conn = none)
    (hConn : e.conns c = some conn)
    (hListener : IsListener conn)
    (hLocal : x.localAppId = conn.localAppId) :
    e'.netState.retrieveWildcardConnection a ≠ x.conn := by
  rw [NetState.retrieveWildcardConnection_eq, hEntries,
    List.find?_append]
  cases hFind : e.netState.entries.find?
      (TableEntry.matchesWildcard a) with
  | some z =>
      have hMem : z.conn ∈ e.netState.connections := by
        rw [NetState.connections_eq]
        exact List.mem_map_of_mem
          (List.mem_of_find?_eq_some hFind)
      intro hEq
      rw [Option.some_or, Option.map_some, Option.getD_some]
        at hEq
      rw [hEq] at hMem
      exact (hKept.table.live x.conn).mp hMem hFree
  | none =>
      have hOwn : conn.tableEntry c ∈ e.netState.entries :=
        mem_of_describe hFlow hKept.table hKept.agrees (by
          rw [Endpoint.describe, hConn, Option.map_some])
      have hNot := List.find?_eq_none.mp hFind _ hOwn
      cases hMatch : TableEntry.matchesWildcard a x with
      | false =>
          simpa [hMatch] using Ne.symm hNull
      | true =>
          have hApp := (TableEntry.matchesWildcard_iff.mp
            hMatch).1
          exact absurd (TableEntry.matchesWildcard_iff.mpr
            ⟨hLocal.symm.trans hApp, hListener.1,
              hListener.2⟩) hNot

/-
  The packet of an entry is neither for the connection that
  is accepted for it nor for another one: the listener at `c`
  gets it again.
-/
def ParkedAgain
    (fmt : PacketFormat P)
    (cfg : Config)
    (c s : ConnPtr)
    (conn : Connection)
    (entry : AcceptEntry)
    (e : Endpoint P) : Prop :=
  ParksAt fmt cfg entry.packet c e ∧
    ∀ y, checkPacket fmt cfg (e.packets entry.packet) =
      .ok (y, true) →
      (acceptedEntry e s conn entry).matchesFlow
        cfg.flowIdentifier (fmt.getWord .dstAppId y)
        (fmt.getWord .srcAppId y)
        (fmt.getInteger .srcHostId y) = false

section Opening

variable
    {e₂ : Endpoint P}
    (hKept : TableKept cfg e)
    (hConn : e.conns c = some conn)
    (hLast : conn.acceptQueue.getLast? = some entry)
    (hNe : s ≠ c)
    (hEstablish : acceptEstablish fmt cfg c s fresh conn entry
      e = .ok e₂)

include hKept hConn hNe hEstablish in
theorem acceptEstablish_tableKept
    (hNull : s ≠ 0)
    (hFree : e.conns s = none) :
    TableKept cfg (e₂.setConn s
      (acceptedConn cfg fresh conn entry e)) := by
  let e₁ := e.setConn c conn.popped
  have hDequeue : AcceptStep fmt cfg (· < e.nextPacket) e
      (.dequeues c) e₁ :=
    .dequeues hConn
      (fun x hx => (List.dropLast_sublist _).subset hx)
  have hFree₁ : e₁.conns s = none := by
    rw [← hFree]
    exact Endpoint.setConn_conns_of_ne e _ hNe
  have hOpen : AcceptStep fmt cfg (· < e₁.nextPacket) e₁
      (.opens s fresh (entry.srcHostId.setWidth 32)
        entry.srcAppId conn.localAppId) e₂ :=
    .opens (.establish hNull hFree₁ hEstablish)
  have hConn₂ := congrFun (nbEstablish_conns hEstablish) s
  rw [Function.update_self] at hConn₂
  have hSignal : AcceptStep fmt cfg (· < e₂.nextPacket) e₂
      (.signals s) (e₂.setConn s
        (acceptedConn cfg fresh conn entry e)) :=
    .signals hConn₂
  exact hSignal.tableKept (hOpen.tableKept
    (hDequeue.tableKept hKept))

include hConn hLast hNe hEstablish in
/- Opening takes the last entry out, and makes no callback. -/
theorem acceptEstablish_tells :
    Tells (entriesOf c entry.srcAppId entry.srcHostId) []
      (e.setConn s (acceptedConn cfg fresh conn entry e))
      (e₂.setConn s (acceptedConn cfg fresh conn entry e)) := by
  let accepted := acceptedConn cfg fresh conn entry e
  have hConns : Function.update e₂.conns s (some accepted) =
      Function.update (e.setConn s accepted).conns c
        (some conn.popped) := by
    rw [nbEstablish_conns hEstablish, Function.update_idem]
    exact Function.update_comm (Ne.symm hNe) _ _ _
  have hConn' : (e.setConn s accepted).conns c =
      some conn := by
    rw [Endpoint.setConn_conns_of_ne _ _ (Ne.symm hNe),
      hConn]
  rcases nbEstablish_frame hEstablish with
    ⟨-, -, -, hEvents, -, -⟩
  refine .of_assign hConn' hConns hEvents id ?_
  intro x hx hNot
  have hQueue := List.dropLast_append_getLast? entry hLast
  rw [← hQueue] at hx
  rcases List.mem_append.mp hx with hx | hx
  · exact hx
  · rw [List.mem_singleton.mp hx] at hNot
    exact absurd ⟨rfl, by simp [AcceptEntry.isOf]⟩ hNot

include hKept hNe hEstablish in
/- With the new connection, parking is as without it. -/
theorem parkedAgain_of_parksAt
    (hNull : s ≠ 0)
    (hOld : entry.packet < e.nextPacket)
    (hParks : ParksAt fmt cfg entry.packet c
      (e₂.setConn s (acceptedConn cfg fresh conn entry e))) :
    ParkedAgain fmt cfg c s conn entry e := by
  rcases hParks with
    ⟨hFlow, hNe', y, hCheck, hOwn, hLookup, hFound⟩
  rcases nbEstablish_frame hEstablish with
    ⟨hAdd, hHost, -, -, -, hPackets⟩
  have hEntries : e₂.netState.entries = e.netState.entries ++
      [acceptedEntry e s conn entry] :=
    (NetState.addConnection_entries hAdd).1
  have hPacket : e₂.packets entry.packet =
      e.packets entry.packet := hPackets _ (Or.inl hOld)
  have hCheck' : checkPacket fmt cfg (e.packets entry.packet) =
      .ok (y, true) := by
    rw [← hPacket]
    exact hCheck
  rcases lookup_added_eq_zero
      (noNullEntry_iff.mpr hKept.table.ne_null) hNull hEntries
      hLookup with ⟨hLookup', hMatch⟩
  refine ⟨⟨hFlow, hNe', y, hCheck', hOwn.trans hHost,
    hLookup', ?_⟩, ?_⟩
  · have hFound' : e₂.netState.retrieveWildcardConnection
        (fmt.getWord .dstAppId y) = c := hFound
    rw [NetState.retrieveWildcardConnection_eq, hEntries,
      List.find?_append] at hFound'
    rw [NetState.retrieveWildcardConnection_eq]
    cases hFind : e.netState.entries.find?
        (TableEntry.matchesWildcard
          (fmt.getWord .dstAppId y)) with
    | some z =>
        rw [hFind] at hFound'
        exact hFound'
    | none =>
        rw [hFind, Option.none_or, List.find?_singleton]
          at hFound'
        split at hFound'
        · exact absurd hFound' hNe
        · exact absurd hFound'.symm hNe'
  · intro z hz
    cases hCheck'.symm.trans hz
    exact hMatch

end Opening

/-
  Accepting opens the connection at `s` and takes out entries
  of its peer. A single packet is parked again only if it is
  not for the new connection.
-/
theorem nbAccept_tells
    {fuel : Nat}
    {result : ConnPtr}
    (hKept : TableKept cfg e)
    (hConn : e.conns c = some conn)
    (hListener : IsListener conn)
    (hLast : conn.acceptQueue.getLast? = some entry)
    (hNull : s ≠ 0)
    (hFree : e.conns s = none)
    (hAccept : nbAccept fmt cfg c s fresh fuel e =
      .ok (result, e')) :
    result = s ∧ ∃ told,
      Tells (entriesOf c entry.srcAppId entry.srcHostId) told
        (e.setConn s (acceptedConn cfg fresh conn entry e))
        e' ∧
      (∀ l ∈ told, l ≠ s) ∧
      (conn.acceptQueue = [entry] →
        ¬ ParkedAgain fmt cfg c s conn entry e →
          ∀ l ∈ told, l ≠ c) := by
  have hNe : s ≠ c := by
    rintro rfl
    rw [hFree] at hConn
    cases hConn
  have hLogged : ∃ log, nbAcceptLogged fmt cfg c s fresh fuel
      e = .ok (result, log, e') := by
    rw [← nbAcceptLogged_erase, map_eq_ok_iff] at hAccept
    rcases hAccept with ⟨⟨result', log, e₁⟩, hLogged, hEq⟩
    cases hEq
    exact ⟨log, hLogged⟩
  rcases hLogged with ⟨log, hLogged⟩
  rcases (nbAcceptLogged_ok_iff hConn hLast).mp hLogged with
    ⟨e₂, e₄, rest, hEstablish, hIngress, hLoop, rfl, -⟩
  let e₃ := e₂.setConn result
    (acceptedConn cfg fresh conn entry e)
  rcases nbEstablish_frame hEstablish with
    ⟨hAdd, -, -, -, hNext, -⟩
  have hEntries : e₃.netState.entries = e.netState.entries ++
      [acceptedEntry e result conn entry] :=
    (NetState.addConnection_entries hAdd).1
  have hKept₃ : TableKept cfg e₃ :=
    acceptEstablish_tableKept hKept hConn hNe hEstablish hNull
      hFree
  have hOpened := acceptEstablish_tells hConn hLast hNe
    hEstablish
  -- the first packet is processed
  have hOld : entry.packet < e.nextPacket :=
    hKept.queued c conn entry hConn (List.mem_of_getLast? hLast)
  have hOld₃ : entry.packet < e₃.nextPacket :=
    Nat.lt_of_lt_of_le hOld hNext
  have hResult := (runIngressPath_iff
    (Nat.ne_of_lt hOld₃)).mp hIngress
  rcases hResult.tells hKept₃.agrees with
    ⟨first, hFirst, hParks⟩
  have hReplay : AcceptStep fmt cfg (· < e₃.nextPacket) e₃
      (.replays entry.packet) e₄ :=
    .replays hOld₃ hOld₃ hIngress
  -- and then the loop is run
  have hLoop' : acceptLoop fmt cfg c entry.srcAppId
      entry.srcHostId fuel 0 e₄ = .ok e' := by
    rw [← acceptLoopLogged_erase, hLoop]
    rfl
  rcases acceptLoop_tells (hReplay.tableKept hKept₃) hLoop'
    with ⟨second, hSecond, hLater⟩
  have hFirst' : Tells
      (entriesOf c entry.srcAppId entry.srcHostId) first e₃
      e₄ := hFirst.mono (fun _ _ hNone => hNone.elim)
  refine ⟨rfl, first ++ second,
    (hOpened.trans hFirst').trans hSecond, ?_, ?_⟩
  · have hWildcard : ∀ l p e₅, e₅.netState = e₃.netState →
        ParksAt fmt cfg p l e₅ → l ≠ result := by
      rintro l p e₅ hSame ⟨hFlow, -, y, -, -, -, rfl⟩
      rw [hSame]
      exact retrieveWildcard_ne_accepted hFlow hKept hEntries
        hNull hFree hConn hListener rfl
    intro l hl
    rcases List.mem_append.mp hl with hl | hl
    · exact hWildcard l _ e₃ rfl (hParks l hl)
    · rcases hLater l hl with ⟨p, e₅, hSame, hParksAt⟩
      exact hWildcard l p e₅
        (hSame.trans hResult.sameTable.netState) hParksAt
  · intro hSingle hNot
    have hAway : ∀ l, ParksAt fmt cfg entry.packet l e₃ →
        l ≠ c := by
      rintro l hParksAt rfl
      exact hNot (parkedAgain_of_parksAt hKept hNe hEstablish
        hNull hOld hParksAt)
    have hConn₃ : e₃.conns c = some conn.popped := by
      rw [Endpoint.setConn_conns_of_ne _ _ (Ne.symm hNe),
        nbEstablish_conns hEstablish,
        Function.update_of_ne (Ne.symm hNe)]
      exact Endpoint.setConn_conns_self e c _
    -- the queue is empty when the loop begins
    have hEmpty : ∃ conn₄, e₄.conns c = some conn₄ ∧
        conn₄.acceptQueue = [] := by
      have hPopped : conn.popped.acceptQueue = [] := by
        change conn.acceptQueue.dropLast = []
        rw [hSingle]
        rfl
      cases hResult.parkResult with
      | @parked l _ x hParksAt _ hConns _ =>
          refine ⟨conn.popped, ?_, hPopped⟩
          rw [hConns, Function.update_of_ne
            (Ne.symm (hAway l hParksAt)), hConn₃]
      | quiet hQueues _ =>
          rcases hQueues c _ hConn₃ with
            ⟨conn₄, hConn₄, hQueue⟩
          exact ⟨conn₄, hConn₄, hQueue.trans hPopped⟩
    rcases hEmpty with ⟨conn₄, hConn₄, hQueue⟩
    have hEnd := acceptLoop_of_empty hConn₄ hQueue hLoop'
    have hNone : second = [] := by
      have hEvents := hSecond.events
      rw [hEnd] at hEvents
      simpa using hEvents
    intro l hl
    rw [hNone, List.append_nil] at hl
    exact hAway l (hParks l hl)

end Accepts

end NetBlocks
