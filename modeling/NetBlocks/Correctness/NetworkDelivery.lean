import NetBlocks.Correctness.AckNumbers
import NetBlocks.Correctness.KnownPackets
import NetBlocks.Lib.MessageNetwork

/-
  Hosts on a network that loses, repeats and reorders packets
  hand nothing to a connection but what was sent to it, and
  take no ack for data that did not arrive.

  Main declarations:
    * `JournalInvariant` and `hosts`
    * `readsPosted_of_run`
    * `acksAnswer_of_run`
-/

namespace NetBlocks

open Except TransitionSystem MessageNetwork

variable {P : Type}

------------------------------------------------------------
-- Where What Is Noted Comes From
------------------------------------------------------------

/-
  What a host noted comes from packets of known origin: each
  receipt from data with its number, each ack from an ack,
  and each reading is a piece of some data.
-/
structure Noted
    (fmt : PacketFormat P)
    (cfg : Config)
    (known : P → Prop)
    (t : Journal P) : Prop where
  receipts : ∀ r ∈ t.receipts, ∃ y,
    DataFor fmt cfg known t.endpoint.myLocalHostId r.receiver
        y ∧
      fmt.getWord .sequenceNumber y = r.number
  acks : ∀ a ∈ t.acks, ∃ y, known y ∧
    fmt.IsFor cfg t.endpoint.myLocalHostId a.receiver y ∧
    cfg.reliableEnabled = true ∧
    fmt.getWord .ackSequenceNumber y = a.number ∧
    a.number ≠ 0
  reads : ∀ r ∈ t.reads, r.bytes ≠ [] → ∃ y, ∃ m : Nat,
    DataFor fmt cfg known t.endpoint.myLocalHostId r.reader
        y ∧
      (m : Int) ≤ fmt.sentLen y ∧
      fmt.readPayload m y = .ok r.bytes

structure JournalInvariant
    (fmt : PacketFormat P)
    (cfg : Config)
    (known : P → Prop)
    (own : PacketPtr → Prop)
    (t : Journal P) : Prop where
  host : HostInvariant fmt cfg known own t.endpoint
  noted : Noted fmt cfg known t

/-
  The packets of known origin account for all that `t` sent,
  and no data among them has the number 0, which would make
  its ack look like data.
-/
structure AccountsFor
    (fmt : PacketFormat P)
    (cfg : Config)
    (known : P → Prop)
    (t : Journal P) : Prop where
  traceable : Traceable fmt known
  posts : ∀ post ∈ t.posts, ∀ y,
    fmt.IsPost cfg t.endpoint.myLocalHostId post y → known y
  acks : ∀ r ∈ t.receipts, r.number ≠ 0 → ∀ y,
    fmt.IsAck cfg t.endpoint.myLocalHostId r y → known y
  numbers : ∀ y, known y → cfg.reliableEnabled = true →
    fmt.getWord .ackSequenceNumber y = 0 →
      fmt.getWord .sequenceNumber y ≠ 0

/- Nothing that `t` noted is forgotten in `t'`. -/
structure Journal.GrowsTo
    (t t' : Journal P) : Prop where
  host : t'.endpoint.myLocalHostId =
    t.endpoint.myLocalHostId
  posts : ∀ post ∈ t.posts, post ∈ t'.posts
  receipts : ∀ r ∈ t.receipts, r ∈ t'.receipts

section Journals

variable
    {fmt : PacketFormat P}
    {cfg : Config}
    {known known' : P → Prop}
    {own : PacketPtr → Prop}
    {t t₁ t' : Journal P}
    {e' : Endpoint P}
    {move : StackMove P}

theorem Journal.GrowsTo.refl
    (t : Journal P) :
    t.GrowsTo t :=
  ⟨rfl, fun _ hp => hp, fun _ hr => hr⟩

theorem Journal.GrowsTo.trans
    (hFirst : t.GrowsTo t₁)
    (hSecond : t₁.GrowsTo t') :
    t.GrowsTo t' where
  host := hSecond.host.trans hFirst.host
  posts _ hp := hSecond.posts _ (hFirst.posts _ hp)
  receipts _ hr := hSecond.receipts _ (hFirst.receipts _ hr)

theorem Moves.growsTo
    (hMoves : Moves fmt cfg t.endpoint move e') :
    t.GrowsTo (t.after fmt cfg e' move) where
  host := hMoves.myLocalHostId_eq
  posts _ hp := List.mem_append_left _ hp
  receipts _ hr := by
    unfold Journal.after
    dsimp only
    split
    · exact hr
    · exact List.mem_append_left _ hr

theorem AccountsFor.before
    (hAccounts : AccountsFor fmt cfg known t')
    (hGrows : t.GrowsTo t') :
    AccountsFor fmt cfg known t where
  traceable := hAccounts.traceable
  posts post hp y hPost := by
    rw [← hGrows.host] at hPost
    exact hAccounts.posts post (hGrows.posts _ hp) y hPost
  acks r hr hNe y hAck := by
    rw [← hGrows.host] at hAck
    exact hAccounts.acks r (hGrows.receipts _ hr) hNe y hAck
  numbers := hAccounts.numbers

theorem Noted.mono
    (hLarger : ∀ y, known y → known' y)
    (hNoted : Noted fmt cfg known t) :
    Noted fmt cfg known' t where
  receipts r hr := by
    rcases hNoted.receipts r hr with ⟨y, hData, hNumber⟩
    exact ⟨y, hData.mono hLarger, hNumber⟩
  acks a ha := by
    rcases hNoted.acks a ha with ⟨y, hKnown, hRest⟩
    exact ⟨y, hLarger _ hKnown, hRest⟩
  reads r hr hSome := by
    rcases hNoted.reads r hr hSome with ⟨y, m, hData, hRest⟩
    exact ⟨y, m, hData.mono hLarger, hRest⟩

/- What is noted of a receiver, if there is one. -/
theorem mem_receiptsOf_iff
    {e : Endpoint P}
    {receiver : Option ConnPtr}
    {number : BitVec 32}
    {r : Receipt} :
    r ∈ receiptsOf e receiver number ↔
      ∃ c, receiver = some c ∧
        e.describe c = some r.receiver ∧
        r.number = number := by
  constructor
  · intro hr
    rcases List.mem_map.mp hr with ⟨x, hx, rfl⟩
    rw [Option.mem_toList, Option.bind_eq_some_iff] at hx
    rcases hx with ⟨c, hReceiver, hDescribe⟩
    exact ⟨c, hReceiver, hDescribe, rfl⟩
  · rintro ⟨c, hReceiver, hDescribe, hNumber⟩
    refine List.mem_map.mpr ⟨r.receiver, ?_, ?_⟩
    · rw [Option.mem_toList, hReceiver]
      exact hDescribe
    · rw [← hNumber]

/- What is noted of a step that processes a packet -/
theorem Journal.after_of_processes
    {p : PacketPtr}
    {e₀ : Endpoint P}
    (fmt : PacketFormat P)
    (cfg : Config)
    (e' : Endpoint P)
    (hProcesses : move.processes t.endpoint = some (p, e₀)) :
    (t.after fmt cfg e' move).receipts = t.receipts ++
        receiptsOf e₀ (dataReceiver fmt cfg p e₀)
          (fmt.getWord .sequenceNumber (e₀.packets p)) ∧
      (t.after fmt cfg e' move).acks = t.acks ++
        receiptsOf e₀ (ackReceiver fmt cfg p e₀)
          (fmt.getWord .ackSequenceNumber
            (e₀.packets p)) := by
  simp only [Journal.after, hProcesses, and_self]

theorem Journal.after_of_none
    (fmt : PacketFormat P)
    (cfg : Config)
    (e' : Endpoint P)
    (hNone : move.processes t.endpoint = none) :
    (t.after fmt cfg e' move).receipts = t.receipts ∧
      (t.after fmt cfg e' move).acks = t.acks := by
  simp only [Journal.after, hNone, and_self]

/- What a step reads is a piece of what was queued. -/
theorem HostInvariant.reading
    {r : Reading}
    {e : Endpoint P}
    (hInv : HostInvariant fmt cfg known own e)
    (hMoves : Moves fmt cfg e move e')
    (hReading : r ∈ readingsOf fmt e move)
    (hSome : r.bytes ≠ []) :
    ∃ y, ∃ m : Nat,
      DataFor fmt cfg known e.myLocalHostId r.reader y ∧
      (m : Int) ≤ fmt.sentLen y ∧
      fmt.readPayload m y = .ok r.bytes := by
  cases hMoves with
  | accept => cases hReading
  | call hCall =>
      cases hCall with
      | @read _ c maxLen bytes hRead =>
          rw [readingsOf, hRead] at hReading
          dsimp only at hReading
          rcases List.mem_map.mp hReading with ⟨x, hx, rfl⟩
          rw [Option.mem_toList] at hx
          cases hConn : e.conns c with
          | none =>
              rw [Endpoint.describe, hConn] at hx
              cases hx
          | some conn =>
              rw [Endpoint.describe, hConn] at hx
              cases hx
              rcases nbRead_frame hRead with
                ⟨conn₁, q, hConn₁, rfl⟩
              have hConn' := Endpoint.setConn_conns_self e c
                { conn₁ with inputQueue := q }
              rcases nbRead_queue hConn hConn' hRead with
                ⟨-, hNone, -⟩ | ⟨p, size, hQueue, hNot, hCopy⟩
              · exact absurd hNone hSome
              · have hMem : (p, size) ∈ conn.inputQueue := by
                  rw [hQueue]
                  exact List.mem_cons_self ..
                rcases hInv.queued c conn _ hConn hMem with
                  ⟨hHolds, hSize, -⟩
                dsimp only at hHolds hSize
                refine ⟨_, _, hHolds.data, ?_, hCopy⟩
                rw [← hSize]
                omega
      | _ => cases hReading

/- What one step notes is of known origin, too. -/
theorem Noted.after
    (hTraceable : Traceable fmt known)
    (hInv : HostInvariant fmt cfg known own t.endpoint)
    (hNoted : Noted fmt cfg known t)
    (hReceives : ∀ p e₀,
      move.processes t.endpoint = some (p, e₀) →
        known (e₀.packets p))
    (hMoves : Moves fmt cfg t.endpoint move e') :
    Noted fmt cfg known (t.after fmt cfg e' move) := by
  have hHost : (t.after fmt cfg e' move
      ).endpoint.myLocalHostId = t.endpoint.myLocalHostId :=
    hMoves.myLocalHostId_eq
  have hReads : ∀ r ∈ (t.after fmt cfg e' move).reads,
      r ∈ t.reads ∨ r ∈ readingsOf fmt t.endpoint move :=
    fun _ hr => List.mem_append.mp hr
  have hReading : ∀ r ∈ (t.after fmt cfg e' move).reads,
      r.bytes ≠ [] → ∃ y, ∃ m : Nat,
        DataFor fmt cfg known t.endpoint.myLocalHostId
            r.reader y ∧
          (m : Int) ≤ fmt.sentLen y ∧
          fmt.readPayload m y = .ok r.bytes := by
    intro r hr hSome
    rcases hReads r hr with hOld | hNew
    · exact hNoted.reads r hOld hSome
    · exact hInv.reading hMoves hNew hSome
  cases hProcesses : move.processes t.endpoint with
  | none =>
      rcases Journal.after_of_none fmt cfg e' hProcesses with
        ⟨hReceipts, hAcks⟩
      refine ⟨?_, ?_, ?_⟩
      · rw [hReceipts, hHost]
        exact hNoted.receipts
      · rw [hAcks, hHost]
        exact hNoted.acks
      · rw [hHost]
        exact hReading
  | some processed =>
      rcases processed with ⟨p, e₀⟩
      rcases Journal.after_of_processes fmt cfg e' hProcesses
        with ⟨hReceipts, hAcks⟩
      rcases hMoves.processed hProcesses with
        ⟨-, hIngress, -, -, hTable, -⟩
      have hKnown := hReceives p e₀ hProcesses
      have hAgrees := hTable.agrees hInv.agrees
      have hHost₀ : e₀.myLocalHostId =
          t.endpoint.myLocalHostId := by
        rw [← hMoves.myLocalHostId_eq]
        exact hIngress.sameHosts.localHost.symm
      refine ⟨?_, ?_, ?_⟩
      · intro r hr
        rw [hReceipts] at hr
        rw [hHost]
        rcases List.mem_append.mp hr with hOld | hNew
        · exact hNoted.receipts r hOld
        · rcases mem_receiptsOf_iff.mp hNew with
            ⟨c, hReceiver, hDescribe, hNumber⟩
          rcases dataFor_of_dataReceiver hTraceable hKnown
            hAgrees hReceiver with ⟨x, hX, hData⟩
          cases hDescribe.symm.trans hX
          rw [hHost₀] at hData
          exact ⟨_, hData, hNumber.symm⟩
      · intro a ha
        rw [hAcks] at ha
        rw [hHost]
        rcases List.mem_append.mp ha with hOld | hNew
        · exact hNoted.acks a hOld
        · rcases mem_receiptsOf_iff.mp hNew with
            ⟨c, hReceiver, hDescribe, hNumber⟩
          rcases isFor_of_ackReceiver hAgrees
              (hTraceable.whole _ hKnown) hReceiver with
            ⟨x, hX, hFor, hReliable, hAck⟩
          cases hDescribe.symm.trans hX
          rw [hHost₀] at hFor
          rw [← hNumber] at hAck
          exact ⟨_, hKnown, hFor, hReliable, hNumber.symm,
            hAck⟩
      · rw [hHost]
        exact hReading

/- What a step sends is noted as a post of its connection. -/
theorem mem_postsOf
    {e : Endpoint P}
    {c : ConnPtr}
    {bytes : List Byte}
    {conn : Connection}
    {y : P}
    (hPosts : move.posts = some (c, bytes))
    (hConn : e'.conns c = some conn)
    (hSent : y ∈ handedOut e e') :
    ⟨conn.tableEntry c, conn.lastSentSequence, bytes⟩ ∈
      postsOf e e' move := by
  rw [postsOf, hPosts]
  dsimp only
  rw [hConn]
  exact List.mem_map.mpr ⟨y, hSent, rfl⟩

/- One step of a host keeps the invariant. -/
theorem JournalInvariant.after
    (hAccounts : AccountsFor fmt cfg known
      (t.after fmt cfg e' move))
    (hInv : JournalInvariant fmt cfg known own t)
    (hKeeps : KeepsEntries cfg t.endpoint move)
    (hReceives : ∀ p e₀,
      move.processes t.endpoint = some (p, e₀) →
        known (e₀.packets p) ∧ ¬ own p)
    (hMoves : Moves fmt cfg t.endpoint move e') :
    JournalInvariant fmt cfg known
      (ownAfter own t.endpoint e' move)
      (t.after fmt cfg e' move) := by
  have hHost : (t.after fmt cfg e' move
      ).endpoint.myLocalHostId = t.endpoint.myLocalHostId :=
    hMoves.myLocalHostId_eq
  refine ⟨?_, ?_⟩
  · apply hInv.host.moves hAccounts.traceable hKeeps hReceives
      _ _ hMoves
    · intro c bytes conn y hPosts hConn hSent hPost
      rw [← hHost] at hPost
      exact hAccounts.posts _ (List.mem_append_right _
        (mem_postsOf hPosts hConn hSent)) y hPost
    · intro p e₀ c conn y hProcesses hReceiver hConn hAck
      rcases hMoves.processed hProcesses with
        ⟨-, -, -, -, hTable, -⟩
      have hKnown := (hReceives p e₀ hProcesses).1
      rcases dataFor_of_dataReceiver hAccounts.traceable hKnown
        (hTable.agrees hInv.host.agrees) hReceiver with
          ⟨x, -, hData⟩
      have hNe := hAccounts.numbers _ hKnown hAck.reliable
        (hData.data hAck.reliable)
      rw [← hHost] at hAck
      refine hAccounts.acks _ ?_ hNe y hAck
      rw [(Journal.after_of_processes fmt cfg e'
        hProcesses).1]
      apply List.mem_append_right
      refine mem_receiptsOf_iff.mpr ⟨c, hReceiver, ?_, rfl⟩
      rw [Endpoint.describe, hConn]
      rfl
  · apply hInv.noted.after hAccounts.traceable hInv.host _
      hMoves
    intro p e₀ hProcesses
    exact (hReceives p e₀ hProcesses).1

end Journals

------------------------------------------------------------
-- Calls
------------------------------------------------------------

/- What the table's invariants ask of a call of the API. -/
def KeepsEntriesCall
    (cfg : Config)
    (e : Endpoint P) : ApiCall P → Prop
| .call call => KeepsEntries cfg e (.call call)
| .accept _ _ _ => True

/- The packet that a call receives from the network -/
def ApiCall.receives : ApiCall P → Option P
| .call (.ingress x _) => some x
| _ => none

section ApiCalls

variable
    {fmt : PacketFormat P}
    {cfg : Config}
    {known : P → Prop}
    {own : PacketPtr → Prop}
    {queued : PacketPtr → Prop}
    {t t' : Journal P}
    {e e' : Endpoint P}

theorem AcceptStep.moves
    {move : AcceptMove}
    (hStep : AcceptStep fmt cfg queued e move e') :
    Moves fmt cfg e (.accept move) e' := by
  cases hStep with
  | opens hCall => exact .accept (.opens hCall)
  | replays _ hOld hIngress =>
      exact .accept (.replays trivial hOld hIngress)
  | dequeues hConn hQueue =>
      exact .accept (.dequeues hConn hQueue)
  | signals hConn => exact .accept (.signals hConn)

/- A replayed packet is one of the set. -/
theorem AcceptStep.queued_of_processes
    {move : AcceptMove}
    {p : PacketPtr}
    {e₀ : Endpoint P}
    (hStep : AcceptStep fmt cfg queued e move e')
    (hProcesses : StackMove.processes e (.accept move) =
      some (p, e₀)) :
    queued p ∧ e₀ = e := by
  cases hStep with
  | replays hQueued =>
      cases hProcesses
      exact ⟨hQueued, rfl⟩
  | _ => cases hProcesses

theorem NotesMove.growsTo
    {move : AcceptMove}
    (hMove : NotesMove fmt cfg queued t move t') :
    t.GrowsTo t' := by
  rcases hMove with ⟨hStep, hEq⟩
  rw [hEq]
  exact hStep.moves.growsTo

theorem growsTo_of_moves
    {moves : List AcceptMove}
    (hRun : Run (NotesMove fmt cfg queued) t moves t') :
    t.GrowsTo t' := by
  induction hRun with
  | nil t => exact .refl t
  | cons hMove _ ih => exact hMove.growsTo.trans ih

theorem Notes.growsTo
    {call : ApiCall P}
    (hNotes : Notes fmt cfg t call t') :
    t.GrowsTo t' := by
  cases hNotes with
  | @call call e' hCall => exact (Moves.call hCall).growsTo
  | accept _ hRun => exact growsTo_of_moves hRun

/-
  The small steps of `nb__accept` keep the invariant, by
  induction on their list: what was queued before is not in
  the host's own buffers, and stays what it is.
-/
theorem journalInvariant_of_moves
    {moves : List AcceptMove}
    (hRun : Run (NotesMove fmt cfg queued) t moves t')
    (hAccounts : AccountsFor fmt cfg known t')
    (hInv : JournalInvariant fmt cfg known own t)
    (hQueued : ∀ p, queued p → p < t.endpoint.nextPacket ∧
      ¬ own p ∧ known (t.endpoint.packets p)) :
    ∃ own', JournalInvariant fmt cfg known own' t' := by
  induction hRun generalizing own with
  | nil t => exact ⟨own, hInv⟩
  | @cons t t₁ _ move _ hMove hRest ih =>
      rcases hMove with ⟨hStep, hEq⟩
      have hMoves := hStep.moves
      have hAfter := hAccounts.before (growsTo_of_moves hRest)
      have hReceives : ∀ p e₀, StackMove.processes t.endpoint
          (.accept move) = some (p, e₀) →
            known (e₀.packets p) ∧ ¬ own p := by
        intro p e₀ hProcesses
        rcases hStep.queued_of_processes hProcesses with
          ⟨hIn, rfl⟩
        rcases hQueued p hIn with ⟨-, hNot, hKnown⟩
        exact ⟨hKnown, hNot⟩
      rw [hEq] at hAfter
      have hNext := hInv.after hAfter trivial hReceives hMoves
      rw [← hEq] at hNext
      apply ih hAccounts hNext
      intro p hp
      rcases hQueued p hp with ⟨hOld, hNot, hKnown⟩
      refine ⟨Nat.lt_of_lt_of_le hOld hMoves.nextPacket_le, ?_,
        ?_⟩
      · rintro (hOwn | ⟨-, hGe, -⟩)
        · exact hNot hOwn
        · exact absurd hOld (Nat.not_lt.mpr hGe)
      · exact hAccounts.traceable.congr _ _ hKnown
          (hMoves.samePacket hOld
            (hAccounts.traceable.whole _ hKnown))

/- A call keeps it, if it receives a known packet or none. -/
theorem Notes.journalInvariant
    {call : ApiCall P}
    (hNotes : Notes fmt cfg t call t')
    (hAccounts : AccountsFor fmt cfg known t')
    (hInv : JournalInvariant fmt cfg known own t)
    (hKeeps : KeepsEntriesCall cfg t.endpoint call)
    (hReceives : ∀ x, call.receives = some x → known x) :
    ∃ own', JournalInvariant fmt cfg known own' t' := by
  cases hNotes with
  | @call call e' hCall =>
      refine ⟨_, hInv.after hAccounts hKeeps ?_ (.call hCall)⟩
      intro p e₀ hProcesses
      cases call with
      | ingress x len =>
          cases hProcesses
          rw [polled_packets_self]
          refine ⟨hReceives x rfl, ?_⟩
          intro hOwn
          exact Nat.lt_irrefl _ (hInv.host.buffers _ hOwn).1
      | _ => cases hProcesses
  | accept _ hRun =>
      apply journalInvariant_of_moves hRun hAccounts hInv
      exact queuedIn_iff.mp hInv.host.parked

end ApiCalls

------------------------------------------------------------
-- Hosts on a Network
------------------------------------------------------------

/-
  Hosts that note their calls. They destablish connections
  where the table allows it, and with acks no connection runs
  out of numbers. A packet arrives as it was handed out, or
  not at all, and maybe more than once.
-/
def hosts
    (fmt : PacketFormat P)
    (cfg : Config) :
    Nodes (Journal P) (ApiCall P) (P × BitVec 32) P where
  step t call t' := Notes fmt cfg t call t' ∧
    KeepsEntriesCall cfg t.endpoint call ∧
    (cfg.reliableEnabled = true →
      ∀ post ∈ t'.posts, post.number ≠ 0)
  receives := ApiCall.receives
  sent t := t.endpoint.out
  copies sent y := fmt.SameWire sent.2.toInt sent.1 y

/- A packet of a post, or an ack of a receipt, of some host -/
inductive KnownPacket
    {ι : Type}
    (fmt : PacketFormat P)
    (cfg : Config)
    (n : ι → Journal P)
    (y : P) : Prop
| post {i : ι} {post : Post} :
    post ∈ (n i).posts →
    fmt.IsPost cfg (n i).endpoint.myLocalHostId post y →
    (cfg.reliableEnabled = true → post.number ≠ 0) →
    KnownPacket fmt cfg n y
| ack {i : ι} {r : Receipt} :
    r ∈ (n i).receipts →
    fmt.IsAck cfg (n i).endpoint.myLocalHostId r y →
    r.number ≠ 0 →
    KnownPacket fmt cfg n y

/- Nothing was sent yet, and no timer is active. -/
def Journal.IsFresh
    (t : Journal P) : Prop :=
  ∃ e fresh, (∀ c, e.conns c = none) ∧
    e.timers.timersHead = none ∧ e.out = [] ∧
    t = .start (nbNetInit fresh e)

section Network

variable
    {ι : Type}
    [DecidableEq ι]
    {fmt : PacketFormat P}
    {cfg : Config}
    {known : P → Prop}
    {n n' : ι → Journal P}
    {i : ι}
    {t t' : Journal P}

omit [DecidableEq ι] in
theorem traceable_knownPacket
    (fmt : PacketFormat P)
    (cfg : Config)
    (n : ι → Journal P) :
    Traceable fmt (KnownPacket fmt cfg n) where
  congr x y hKnown hSame := by
    cases hKnown with
    | post hMem hPost hNumber =>
        exact .post hMem (hPost.congr hSame) hNumber
    | ack hMem hAck hNumber =>
        exact .ack hMem (hAck.congr hSame) hNumber
  whole x hKnown := by
    cases hKnown with
    | post _ hPost => exact hPost.whole
    | ack _ hAck => exact hAck.whole

/- Packets remain known when one host notes more. -/
theorem KnownPacket.update
    {y : P}
    (hGrows : (n i).GrowsTo t')
    (hKnown : KnownPacket fmt cfg n y) :
    KnownPacket fmt cfg (Function.update n i t') y := by
  have hAll : ∀ j, (n j).GrowsTo (Function.update n i t' j) := by
    intro j
    by_cases hEq : j = i
    · rw [hEq, Function.update_self]
      exact hGrows
    · rw [Function.update_of_ne hEq]
      exact .refl _
  cases hKnown with
  | @post j post hMem hPost hNumber =>
      rw [← (hAll j).host] at hPost
      exact .post ((hAll j).posts _ hMem) hPost hNumber
  | @ack j r hMem hAck hNumber =>
      rw [← (hAll j).host] at hAck
      exact .ack ((hAll j).receipts _ hMem) hAck hNumber

/- Data that is known was posted by some host. -/
omit [DecidableEq ι] in
theorem KnownPacket.posted
    {x : TableEntry}
    {y : P}
    (hData : DataFor fmt cfg (KnownPacket fmt cfg n)
      (n i).endpoint.myLocalHostId x y) :
    ∃ j, ∃ post ∈ (n j).posts,
      fmt.IsPost cfg (n j).endpoint.myLocalHostId post y ∧
      Reaches cfg (n j).endpoint.myLocalHostId
        (n i).endpoint.myLocalHostId post.sender x := by
  cases hData.known with
  | @post j post hMem hPost _ =>
      exact ⟨j, post, hMem, hPost,
        hPost.isFrom.reaches hData.isFor⟩
  | ack _ hAck hNumber =>
      have hZero := hData.data hAck.reliable
      rw [hAck.number] at hZero
      exact absurd hZero hNumber

/- With acks, the number of a post is in its packets. -/
theorem PacketFormat.IsPost.number_eq
    {host : BitVec 64}
    {post : Post}
    {y : P}
    (hPost : fmt.IsPost cfg host post y)
    (hReliable : cfg.reliableEnabled = true) :
    fmt.getWord .sequenceNumber y = post.number := by
  rcases hPost.carries with ⟨number, hCarries, hNumber⟩
  rw [hCarries.number]
  exact hNumber (Or.inr hReliable)

/- All that a host sent is known, with what it just noted. -/
theorem accounts_update
    (hNumbers : cfg.reliableEnabled = true →
      ∀ post ∈ t'.posts, post.number ≠ 0) :
    AccountsFor fmt cfg
      (KnownPacket fmt cfg (Function.update n i t')) t' := by
  have hSelf : Function.update n i t' i = t' :=
    Function.update_self i t' n
  refine ⟨traceable_knownPacket fmt cfg _, ?_, ?_, ?_⟩
  · intro post hMem y hPost
    apply KnownPacket.post (i := i)
    · rw [hSelf]
      exact hMem
    · rw [hSelf]
      exact hPost
    · exact fun hReliable => hNumbers hReliable post hMem
  · intro r hMem hNe y hAck
    apply KnownPacket.ack (i := i) _ _ hNe
    · rw [hSelf]
      exact hMem
    · rw [hSelf]
      exact hAck
  · intro y hKnown hReliable hAck
    cases hKnown with
    | post _ hPost hNumber =>
        rw [hPost.number_eq hReliable]
        exact hNumber hReliable
    | ack _ hIsAck hNumber =>
        rw [hIsAck.number] at hAck
        exact absurd hAck hNumber

/-
  A host that receives known packets only sends known ones,
  and a network carries nothing else.
-/
theorem guarantees_hosts
    (fmt : PacketFormat P)
    (cfg : Config) :
    (hosts fmt cfg).Guarantees (KnownPacket (ι := ι) fmt cfg)
      (fun known t =>
        ∃ own, JournalInvariant fmt cfg known own t) where
  grows n i call t' hStep y hKnown :=
    hKnown.update hStep.1.growsTo
  weakens before after t hLarger hInv := by
    rcases hInv with ⟨own, hHost, hNoted⟩
    exact ⟨own, hHost.mono hLarger, hNoted.mono hLarger⟩
  sends n i hInv x hSent y hCopies := by
    rcases hInv with ⟨own, hHost, -⟩
    rcases hHost.out x.1 x.2 hSent with ⟨hKnown, hSize⟩
    exact (traceable_knownPacket fmt cfg n).congr _ _ hKnown
      (.of_sameWire hSize hCopies)
  keeps n i call t' hInv hStep hReceives := by
    rcases hInv with ⟨own, hHost, hNoted⟩
    rcases hStep with ⟨hNotes, hKeeps, hNumbers⟩
    have hLarger : ∀ y, KnownPacket fmt cfg n y →
        KnownPacket fmt cfg (Function.update n i t') y :=
      fun y hKnown => hKnown.update hNotes.growsTo
    apply hNotes.journalInvariant (accounts_update hNumbers)
      ⟨hHost.mono hLarger, hNoted.mono hLarger⟩ hKeeps
    intro x hx
    exact hLarger x (hReceives x hx)

/- It holds before the first call. -/
theorem Journal.IsFresh.journalInvariant
    (hFresh : t.IsFresh)
    (fmt : PacketFormat P)
    (cfg : Config)
    (known : P → Prop) :
    ∃ own, JournalInvariant fmt cfg known own t := by
  rcases hFresh with ⟨e, fresh, hConns, hHead, hOut, rfl⟩
  rcases timersFor_netInit fresh hConns hHead with
    ⟨hHosts, hTimers⟩
  have hNone : ∀ c, (nbNetInit fresh e).conns c = none :=
    hConns
  have hNothing : (nbNetInit fresh e).out = [] := hOut
  refine ⟨fun _ => False, ⟨hHosts,
    tableInvariant_netInit fresh hConns, agrees_netInit fresh,
    hTimers, fun _ hOwn => hOwn.elim, ?_, ?_, ?_, ?_⟩, ?_⟩
  · intro c conn x hConn
    cases (hNone c).symm.trans hConn
  · intro c conn k q hConn
    cases (hNone c).symm.trans hConn
  · intro c conn entry hConn
    cases (hNone c).symm.trans hConn
  · intro x size hMem
    change (x, size) ∈ (nbNetInit fresh e).out at hMem
    rw [hNothing] at hMem
    cases hMem
  · refine ⟨?_, ?_, ?_⟩ <;>
      · intro r hr
        cases hr

/- It holds for every host after every run. -/
theorem journalInvariant_of_run
    {labels : List (ι × ApiCall P)}
    (hFresh : ∀ i, (n i).IsFresh)
    (hRun : Run (hosts fmt cfg).Steps n labels n')
    (i : ι) :
    ∃ own, JournalInvariant fmt cfg (KnownPacket fmt cfg n')
      own (n' i) := by
  apply (guarantees_hosts fmt cfg).invariant_of_run _ hRun
  intro j
  exact (hFresh j).journalInvariant fmt cfg _

end Network

------------------------------------------------------------
-- What Reaches a Connection
------------------------------------------------------------

section Delivery

variable
    {ι : Type}
    [DecidableEq ι]
    {fmt : PacketFormat P}
    {cfg : Config}
    {n n' : ι → Journal P}
    {labels : List (ι × ApiCall P)}

/-
  In every run of hosts on a network, what a program reads
  from a connection is the beginning of a payload that was
  sent on a connection whose packets reach it.
-/
theorem readsPosted_of_run
    (hPrefixes : fmt.ReadsPrefixes)
    (hFresh : ∀ i, (n i).IsFresh)
    (hRun : Run (hosts fmt cfg).Steps n labels n') :
    ∀ i, ∀ r ∈ (n' i).reads, r.bytes ≠ [] →
      ∃ j, ∃ post ∈ (n' j).posts,
        r.bytes <+: post.bytes ∧
        Reaches cfg (n' j).endpoint.myLocalHostId
          (n' i).endpoint.myLocalHostId post.sender
          r.reader := by
  intro i r hr hSome
  rcases journalInvariant_of_run hFresh hRun i with
    ⟨own, -, hNoted⟩
  rcases hNoted.reads r hr hSome with
    ⟨y, m, hData, hLen, hRead⟩
  rcases KnownPacket.posted hData with
    ⟨j, post, hMem, hPost, hReaches⟩
  rcases hPost.carries with ⟨number, hCarries, -⟩
  have hPiece := hCarries.piece hPrefixes hLen hRead
  refine ⟨j, post, hMem, ?_, hReaches⟩
  rw [hPiece]
  exact List.take_prefix m post.bytes

/-
  In every such run, an ack that a connection takes answers
  data that some connection received, which in turn was sent
  under that number. With source ids it is of the flow that
  takes the ack.
-/
theorem acksAnswer_of_run
    (hFresh : ∀ i, (n i).IsFresh)
    (hRun : Run (hosts fmt cfg).Steps n labels n') :
    ∀ i, ∀ a ∈ (n' i).acks,
      ∃ j, ∃ r ∈ (n' j).receipts,
      ∃ k, ∃ post ∈ (n' k).posts,
        r.number = a.number ∧ post.number = a.number ∧
        Reaches cfg (n' k).endpoint.myLocalHostId
          (n' j).endpoint.myLocalHostId post.sender
          r.receiver ∧
        Reaches cfg (n' j).endpoint.myLocalHostId
          (n' i).endpoint.myLocalHostId r.receiver
          a.receiver ∧
        (cfg.flowIdentifier = .srcDstIdentifier →
          (n' k).endpoint.myLocalHostId =
              (n' i).endpoint.myLocalHostId ∧
            SameFlow post.sender a.receiver) := by
  intro i a ha
  rcases journalInvariant_of_run hFresh hRun i with
    ⟨own, -, hNoted⟩
  rcases hNoted.acks a ha with
    ⟨y, hKnown, hFor, hReliable, hNumber, hNe⟩
  cases hKnown with
  | post _ hPost =>
      have hZero := hPost.data hReliable
      rw [hNumber] at hZero
      exact absurd hZero hNe
  | @ack j r hMem hAck =>
      have hBack := hAck.isFrom.reaches hFor
      have hSame : r.number = a.number :=
        hAck.number.symm.trans hNumber
      rcases journalInvariant_of_run hFresh hRun j with
        ⟨own', -, hNoted'⟩
      rcases hNoted'.receipts r hMem with ⟨z, hData, hSeq⟩
      rcases KnownPacket.posted hData with
        ⟨k, post, hMem', hPost, hThere⟩
      have hPosted : post.number = a.number := by
        rw [← hPost.number_eq hReliable, hSeq, hSame]
      exact ⟨j, r, hMem, k, post, hMem', hSame, hPosted, hThere,
        hBack, fun hFlow => hThere.back hFlow hBack⟩

end Delivery

------------------------------------------------------------
-- One Byte and Its Ack
------------------------------------------------------------

/- Buffers are copied from their beginning. -/
theorem netPacketFormat_readsPrefixes :
    netPacketFormat.ReadsPrefixes := by
  intro m n x bytes hLe hRead
  change x.readPayload n = .ok bytes at hRead
  change x.readPayload m = .ok (bytes.take m)
  unfold PacketBuffer.readPayload at hRead ⊢
  split at hRead
  · next hRoom =>
      cases hRead
      rw [if_pos (by omega), ← List.map_take, List.take_range,
        Nat.min_eq_left hLe]
  · cases hRead

/- What the two hosts of an exchange noted -/
structure TwoJournals where
  left : Journal PacketBuffer
  right : Journal PacketBuffer

namespace TwoJournals

def journals
    (s : TwoJournals) : Side → Journal PacketBuffer
| .left => s.left
| .right => s.right

def set
    (s : TwoJournals)
    (t : Journal PacketBuffer) : Side → TwoJournals
| .left => { s with left := t }
| .right => { s with right := t }

theorem update_eq
    (s : TwoJournals)
    (i : Side)
    (t : Journal PacketBuffer) :
    Function.update s.journals i t = (s.set t i).journals := by
  funext j
  cases i <;> cases j <;> rfl

end TwoJournals

/- The two hosts as they start -/
def twoFresh : TwoJournals where
  left := .start (nbNetInit blankNetState Side.left.endpoint)
  right := .start (nbNetInit blankNetState Side.right.endpoint)

/- A stack that acks what it receives -/
def ackingConfig : Config :=
  reliably .holdForever

theorem twoFresh_isFresh
    (i : Side) :
    (twoFresh.journals i).IsFresh := by
  cases i <;>
    exact ⟨_, _, fun _ => rfl, rfl, rfl, rfl⟩

/- The first packet that was handed out -/
def firstOut
    (e : Endpoint P) : Except Fault P :=
  match e.out with
  | [] => .error .outOfBounds
  | (x, _) :: _ => .ok x

theorem mem_of_firstOut
    {e : Endpoint P}
    {x : P}
    (hFirst : firstOut e = .ok x) :
    ∃ sent ∈ e.out, sent.1 = x := by
  unfold firstOut at hFirst
  split at hFirst
  · cases hFirst
  · next y size rest hOut =>
      cases hFirst
      rw [hOut]
      exact ⟨(x, size), List.mem_cons_self .., rfl⟩

/- What a host notes of a call of the exchange -/
def Journal.notes
    (t : Journal PacketBuffer)
    (call : Call PacketBuffer)
    (e' : Endpoint PacketBuffer) : Journal PacketBuffer :=
  t.after netPacketFormat ackingConfig e' (.call call)

/-
  Both hosts connect, and host 1 sends a byte. Host 2 receives
  it and reads it, and host 1 receives the ack.
-/
def exchangeOne : Except Fault TwoJournals := do
  let l₁ ← Side.left.opens .holdForever
  let r₁ ← Side.right.opens .holdForever
  let (_, l₂) ← nbSend netPacketFormat ackingConfig 1 [104] l₁
  let x ← firstOut l₂
  let r₂ ← ingress netPacketFormat ackingConfig x 0 r₁
  let (_, r₃) ← nbRead netPacketFormat 1 10 r₂
  let y ← firstOut r₃
  let l₃ ← ingress netPacketFormat ackingConfig y 0 l₂
  return {
    left := ((twoFresh.left.notes Side.left.connects l₁).notes
      (.send 1 [104]) l₂).notes (.ingress y 0) l₃
    right := ((twoFresh.right.notes Side.right.connects r₁).notes
      (.ingress x 0) r₂).notes (.read 1 10) r₃ }

/- A call of one of the hosts is a step of the network. -/
theorem TwoJournals.steps
    {s : TwoJournals}
    {call : Call PacketBuffer}
    {e' : Endpoint PacketBuffer}
    (s' : TwoJournals)
    (i : Side)
    (hCall : Calls netPacketFormat ackingConfig
      (s.journals i).endpoint call e')
    (hKeeps : KeepsEntries ackingConfig (s.journals i).endpoint
      (.call call))
    (hReceives : ∀ x, (ApiCall.call call).receives = some x →
      ∃ j, ∃ sent ∈ (s.journals j).endpoint.out, sent.1 = x)
    (hLater : ((s.journals i).notes call e').GrowsTo (s'.journals i))
    (hNumbers : ∀ post ∈ (s'.journals i).posts, post.number ≠ 0) :
    (hosts netPacketFormat ackingConfig).Steps s.journals
      (i, .call call)
      (s.set ((s.journals i).notes call e') i).journals := by
  rw [← TwoJournals.update_eq]
  refine .step ⟨.call hCall, hKeeps, ?_⟩ ?_
  · intro _ post hPost
    exact hNumbers post (hLater.posts post hPost)
  · intro y hy
    rcases hReceives y hy with ⟨j, sent, hMem, rfl⟩
    exact ⟨j, sent, hMem, fun _ _ => rfl, fun _ _ => rfl⟩

/- The exchange is a run of the network. -/
theorem run_exchangeOne
    {s : TwoJournals}
    (hExchange : exchangeOne = .ok s)
    (hNumbers : ∀ i, ∀ post ∈ (s.journals i).posts,
      post.number ≠ 0) :
    ∃ labels, Run (hosts netPacketFormat ackingConfig).Steps
      twoFresh.journals labels s.journals := by
  rcases bind_eq_ok_iff.mp hExchange with ⟨l₁, hL₁, h₁⟩
  rcases bind_eq_ok_iff.mp h₁ with ⟨r₁, hR₁, h₂⟩
  rcases bind_eq_ok_iff.mp h₂ with ⟨⟨n, l₂⟩, hL₂, h₃⟩
  rcases bind_eq_ok_iff.mp h₃ with ⟨x, hX, h₄⟩
  rcases bind_eq_ok_iff.mp h₄ with ⟨r₂, hR₂, h₅⟩
  rcases bind_eq_ok_iff.mp h₅ with ⟨⟨bytes, r₃⟩, hR₃, h₆⟩
  rcases bind_eq_ok_iff.mp h₆ with ⟨y, hY, h₇⟩
  rcases bind_eq_ok_iff.mp h₇ with ⟨l₃, hL₃, hEnd⟩
  cases hEnd
  let s₁ := twoFresh.set
    (twoFresh.left.notes Side.left.connects l₁) .left
  let s₂ := s₁.set
    (twoFresh.right.notes Side.right.connects r₁) .right
  let s₃ := s₂.set (s₂.left.notes (.send 1 [104]) l₂) .left
  let s₄ := s₃.set (s₃.right.notes (.ingress x 0) r₂) .right
  let s₅ := s₄.set (s₄.right.notes (.read 1 10) r₃) .right
  let s₆ := s₅.set (s₅.left.notes (.ingress y 0) l₃) .left
  have hSend : Calls netPacketFormat ackingConfig l₁
      (.send 1 [104]) l₂ := .send hL₂
  have hTakes : Calls netPacketFormat ackingConfig r₁
      (.ingress x 0) r₂ := .ingress hR₂
  have hRead : Calls netPacketFormat ackingConfig r₂
      (.read 1 10) r₃ := .read hR₃
  have hAcked : Calls netPacketFormat ackingConfig l₂
      (.ingress y 0) l₃ := .ingress hL₃
  have hLeft₃ : s₃.left.GrowsTo s₆.left :=
    Moves.growsTo (.call hAcked)
  have hLeft₁ : s₁.left.GrowsTo s₆.left :=
    .trans (Moves.growsTo (.call hSend)) hLeft₃
  have hRight₄ : s₄.right.GrowsTo s₆.right :=
    Moves.growsTo (.call hRead)
  have hRight₂ : s₂.right.GrowsTo s₆.right :=
    .trans (Moves.growsTo (.call hTakes)) hRight₄
  have hStep₁ := twoFresh.steps s₆ .left
    (.establish (by decide) rfl hL₁) ⟨trivial, trivial⟩
    (fun _ hx => by cases hx) hLeft₁ (hNumbers .left)
  have hStep₂ := s₁.steps s₆ .right
    (.establish (by decide) rfl hR₁) ⟨trivial, trivial⟩
    (fun _ hx => by cases hx) hRight₂ (hNumbers .right)
  have hStep₃ := s₂.steps s₆ .left hSend ⟨trivial, trivial⟩
    (fun _ hx => by cases hx) hLeft₃ (hNumbers .left)
  have hStep₄ := s₃.steps s₆ .right hTakes ⟨trivial, trivial⟩
    (fun _ hx => by
      cases hx
      exact ⟨.left, mem_of_firstOut hX⟩)
    hRight₄ (hNumbers .right)
  have hStep₅ := s₄.steps s₆ .right hRead ⟨trivial, trivial⟩
    (fun _ hx => by cases hx) (.refl _) (hNumbers .right)
  have hStep₆ := s₅.steps s₆ .left hAcked ⟨trivial, trivial⟩
    (fun _ hx => by
      cases hx
      exact ⟨.right, mem_of_firstOut hY⟩)
    (.refl _) (hNumbers .left)
  exact ⟨_, .cons hStep₁ (.cons hStep₂ (.cons hStep₃
    (.cons hStep₄ (.cons hStep₅ (.cons hStep₆ (.nil _))))))⟩

/- What is noted in the end -/
theorem exists_exchangeOne :
    ∃ (s : TwoJournals) (labels : List (Side × ApiCall
        PacketBuffer)),
      Run (hosts netPacketFormat ackingConfig).Steps
        twoFresh.journals labels s.journals ∧
      s.right.reads = [⟨⟨1, 8, 7, 1⟩, [104]⟩] ∧
      s.left.acks = [⟨⟨1, 7, 8, 2⟩, 1011⟩] := by
  have hTable : (do
      let s ← exchangeOne
      return (s.left.posts.map Post.number,
        s.right.posts.map Post.number, s.right.reads,
        s.left.acks)) =
      .ok ([1011], [], [⟨⟨1, 8, 7, 1⟩, [104]⟩],
        [⟨⟨1, 7, 8, 2⟩, 1011⟩]) := by
    decide +kernel
  rcases bind_eq_ok_iff.mp hTable with ⟨s, hExchange, hEnd⟩
  simp only [pure_eq_ok, Except.ok.injEq, Prod.mk.injEq]
    at hEnd
  rcases hEnd with ⟨hLeft, hRight, hReads, hAcks⟩
  have hNumbers : ∀ i, ∀ post ∈ (s.journals i).posts,
      post.number ≠ 0 := by
    intro i post hPost
    have hMem : post.number ∈
        (s.journals i).posts.map Post.number :=
      List.mem_map_of_mem hPost
    cases i with
    | left =>
        rw [TwoJournals.journals, hLeft] at hMem
        rw [List.mem_singleton.mp hMem]
        decide
    | right =>
        rw [TwoJournals.journals, hRight] at hMem
        cases hMem
  rcases run_exchangeOne hExchange hNumbers with
    ⟨labels, hRun⟩
  exact ⟨s, labels, hRun, hReads, hAcks⟩

/- The byte that host 2 reads was sent to it. -/
theorem readsPosted_of_run_one :
    ∃ (s : TwoJournals) (j : Side),
      ∃ post ∈ (s.journals j).posts, [104] <+: post.bytes ∧
        Reaches ackingConfig
          (s.journals j).endpoint.myLocalHostId
          s.right.endpoint.myLocalHostId post.sender
          ⟨1, 8, 7, 1⟩ := by
  rcases exists_exchangeOne with ⟨s, labels, hRun, hReads, -⟩
  have hMem : ⟨⟨1, 8, 7, 1⟩, [104]⟩ ∈
      (s.journals .right).reads := by
    rw [TwoJournals.journals, hReads]
    exact List.mem_singleton_self _
  rcases readsPosted_of_run netPacketFormat_readsPrefixes
      twoFresh_isFresh hRun .right _ hMem (by decide) with
    ⟨j, post, hPost, hPrefix, hReaches⟩
  exact ⟨s, j, post, hPost, hPrefix, hReaches⟩

/- The ack that host 1 takes is of the flow it sent on. -/
theorem acksAnswer_of_run_one :
    ∃ (s : TwoJournals) (k : Side),
      ∃ post ∈ (s.journals k).posts, post.number = 1011 ∧
        SameFlow post.sender ⟨1, 7, 8, 2⟩ := by
  rcases exists_exchangeOne with ⟨s, labels, hRun, -, hAcks⟩
  have hMem : ⟨⟨1, 7, 8, 2⟩, 1011⟩ ∈
      (s.journals .left).acks := by
    rw [TwoJournals.journals, hAcks]
    exact List.mem_singleton_self _
  rcases acksAnswer_of_run twoFresh_isFresh hRun .left _ hMem
    with ⟨j, r, -, k, post, hPost, -, hNumber, -, -, hFlow⟩
  exact ⟨s, k, post, hPost, hNumber, (hFlow rfl).2⟩

end NetBlocks
