import NetBlocks.Modules.Identifier
import Mathlib.Data.List.Basic

/-
  The connection table as a list of entries: adding appends,
  looking up takes the first entry that matches, and deleting
  moves the last entry into the place of the first match.

  Main declarations:
    * `TableEntry` and `NetState.entries`
    * `NetState.retrieveConnection_eq`
    * `NetState.addConnection_entries`
    * `NetState.deleteConnection_entries`
-/

namespace NetBlocks

------------------------------------------------------------
-- Entries
------------------------------------------------------------

/- One entry of the four parallel arrays. -/
structure TableEntry where
  conn : ConnPtr
  localAppId : BitVec 32
  remoteAppId : BitVec 32
  remoteHostId : BitVec 64
deriving DecidableEq, Repr

namespace TableEntry

/- Whether a packet with these identifiers is the entry's. -/
def matchesFlow
    (flow : FlowIdentifier)
    (dstAppId srcAppId : BitVec 32)
    (srcHostId : BitVec 64)
    (x : TableEntry) : Bool :=
  match flow with
  | .srcDstIdentifier =>
      x.localAppId == dstAppId &&
        (x.remoteAppId == srcAppId &&
          x.remoteHostId == srcHostId)
  | .dstIdentifiersOnly => x.localAppId == dstAppId

/- Whether the entry is a wildcard listener's. -/
def matchesWildcard
    (appId : BitVec 32)
    (x : TableEntry) : Bool :=
  x.localAppId == appId &&
    (x.remoteAppId == wildcardAppId &&
      x.remoteHostId == wildcardHostIdentifier)

theorem matchesFlow_srcDst_iff
    {dstAppId srcAppId : BitVec 32}
    {srcHostId : BitVec 64}
    {x : TableEntry} :
    x.matchesFlow .srcDstIdentifier dstAppId srcAppId
        srcHostId = true ↔
      x.localAppId = dstAppId ∧ x.remoteAppId = srcAppId ∧
        x.remoteHostId = srcHostId := by
  simp [matchesFlow]

theorem matchesFlow_dst_iff
    {dstAppId srcAppId : BitVec 32}
    {srcHostId : BitVec 64}
    {x : TableEntry} :
    x.matchesFlow .dstIdentifiersOnly dstAppId srcAppId
        srcHostId = true ↔
      x.localAppId = dstAppId := by
  simp [matchesFlow]

theorem matchesWildcard_iff
    {appId : BitVec 32}
    {x : TableEntry} :
    x.matchesWildcard appId = true ↔
      x.localAppId = appId ∧ x.remoteAppId = wildcardAppId ∧
        x.remoteHostId = wildcardHostIdentifier := by
  simp [matchesWildcard]

/-
  What a deleted entry becomes when the last one is moved
  into its place. Its remote host id stays, and without
  source identifiers so does its remote app id.
-/
def replacedBy
    (flow : FlowIdentifier)
    (last x : TableEntry) : TableEntry :=
  match flow with
  | .srcDstIdentifier =>
      { last with remoteHostId := x.remoteHostId }
  | .dstIdentifiersOnly =>
      { last with
        remoteAppId := x.remoteAppId
        remoteHostId := x.remoteHostId }

@[simp] theorem replacedBy_conn
    (flow : FlowIdentifier)
    (last x : TableEntry) :
    (replacedBy flow last x).conn = last.conn := by
  cases flow <;> rfl

@[simp] theorem replacedBy_localAppId
    (flow : FlowIdentifier)
    (last x : TableEntry) :
    (replacedBy flow last x).localAppId =
      last.localAppId := by
  cases flow <;> rfl

/- The entries behind a deleted one, after the deletion. -/
def fillGap
    (flow : FlowIdentifier)
    (x : TableEntry)
    (behind : List TableEntry) : List TableEntry :=
  match behind.getLast? with
  | none => []
  | some last => replacedBy flow last x :: behind.dropLast

@[simp] theorem fillGap_nil
    (flow : FlowIdentifier)
    (x : TableEntry) :
    fillGap flow x [] = [] :=
  rfl

@[simp] theorem fillGap_concat
    (flow : FlowIdentifier)
    (x last : TableEntry)
    (between : List TableEntry) :
    fillGap flow x (between ++ [last]) =
      replacedBy flow last x :: between := by
  simp [fillGap]

/- Filling the gap keeps the connections behind it. -/
theorem fillGap_perm
    (flow : FlowIdentifier)
    (x : TableEntry)
    (behind : List TableEntry) :
    ((fillGap flow x behind).map conn).Perm
      (behind.map conn) := by
  rcases behind.eq_nil_or_concat' with rfl | ⟨between, last, rfl⟩
  · exact List.Perm.nil
  · rw [fillGap_concat, List.map_cons, replacedBy_conn,
      List.map_append]
    exact (List.perm_append_singleton last.conn _).symm

end TableEntry

------------------------------------------------------------
-- The Arrays as a List
------------------------------------------------------------

namespace NetState

/- The entry at an index of the arrays. -/
def entry
    (s : NetState)
    (i : Nat) : TableEntry where
  conn := s.activeConnections i
  localAppId := s.activeLocalAppIds i
  remoteAppId := s.activeRemoteAppIds i
  remoteHostId := s.activeRemoteHostIds i

/- The entries in use. -/
def entries
    (s : NetState) : List TableEntry :=
  (List.range s.numConn).map s.entry

/- The connections in use, `active_connections[0 ..]`. -/
def connections
    (s : NetState) : List ConnPtr :=
  (List.range s.numConn).map s.activeConnections

theorem connections_eq
    (s : NetState) :
    s.connections = s.entries.map TableEntry.conn := by
  rw [entries, List.map_map]
  rfl

@[simp] theorem length_connections
    (s : NetState) :
    s.connections.length = s.numConn := by
  simp [connections]

@[simp] theorem length_entries
    (s : NetState) :
    s.entries.length = s.numConn := by
  simp [entries]

theorem getElem?_entries
    (s : NetState)
    (i : Nat) :
    s.entries[i]? =
      if i < s.numConn then some (s.entry i) else none := by
  rw [entries, List.getElem?_map]
  split
  · next hLt => rw [List.getElem?_range hLt]; rfl
  · next hGe =>
      rw [List.getElem?_eq_none (by simpa using hGe)]
      rfl

theorem matchConnection_eq
    (s : NetState)
    (flow : FlowIdentifier)
    (dstAppId srcAppId : BitVec 32)
    (srcHostId : BitVec 64) :
    s.matchConnection flow dstAppId srcAppId srcHostId =
      TableEntry.matchesFlow flow dstAppId srcAppId
        srcHostId ∘ s.entry := by
  cases flow <;> rfl

theorem matchWildcard_eq
    (s : NetState)
    (appId : BitVec 32) :
    s.matchWildcard appId =
      TableEntry.matchesWildcard appId ∘ s.entry :=
  rfl

/- The search loops find the first matching entry. -/
theorem find?_entries
    (s : NetState)
    (found : TableEntry → Bool) :
    s.entries.find? found =
      (s.findIndex (found ∘ s.entry)).map s.entry := by
  rw [entries, List.find?_map, findIndex]

/- `retrieve_connection` returns the first match. -/
theorem retrieveConnection_eq
    (s : NetState)
    (flow : FlowIdentifier)
    (dstAppId srcAppId : BitVec 32)
    (srcHostId : BitVec 64) :
    s.retrieveConnection flow dstAppId srcAppId srcHostId =
      ((s.entries.find? (TableEntry.matchesFlow flow dstAppId
        srcAppId srcHostId)).map TableEntry.conn).getD 0 := by
  rw [retrieveConnection, find?_entries, matchConnection_eq]
  cases s.findIndex (TableEntry.matchesFlow flow dstAppId
    srcAppId srcHostId ∘ s.entry) <;> rfl

/- So does `retrieve_wildcard_connection`. -/
theorem retrieveWildcardConnection_eq
    (s : NetState)
    (appId : BitVec 32) :
    s.retrieveWildcardConnection appId =
      ((s.entries.find? (TableEntry.matchesWildcard appId)
        ).map TableEntry.conn).getD 0 := by
  rw [retrieveWildcardConnection, find?_entries,
    matchWildcard_eq]
  cases s.findIndex (TableEntry.matchesWildcard appId ∘
    s.entry) <;> rfl

------------------------------------------------------------
-- Adding and Deleting
------------------------------------------------------------

/- `add_connection` appends an entry. -/
theorem addConnection_entries
    {s s' : NetState}
    {c : ConnPtr}
    {appId srcAppId : BitVec 32}
    {srcHostId : BitVec 64}
    (hAdd : s.addConnection c appId srcAppId srcHostId =
      .ok s') :
    s'.entries =
        s.entries ++ [⟨c, appId, srcAppId, srcHostId⟩] ∧
      s'.routingTable = s.routingTable := by
  unfold addConnection at hAdd
  dsimp only at hAdd
  split at hAdd
  · cases hAdd
    refine ⟨?_, rfl⟩
    rw [entries, List.range_succ, List.map_append]
    congr 1
    · apply List.map_congr_left
      intro i hi
      have hNe : i ≠ s.numConn := by
        rw [List.mem_range] at hi
        omega
      simp [entry, Function.update_of_ne hNe]
    · simp [entry]
  · cases hAdd

/- The entries once the one at index `i` is removed. -/
theorem removeEntry_entry
    (s : NetState)
    (flow : FlowIdentifier)
    {i j : Nat}
    (hLt : j < s.numConn - 1) :
    (s.removeEntry flow i).entry j =
      if j = i then
        TableEntry.replacedBy flow (s.entry (s.numConn - 1))
          (s.entry i)
      else
        s.entry j := by
  have hLast : j ≠ s.numConn - 1 := Nat.ne_of_lt hLt
  by_cases hEq : j = i
  · subst hEq
    rw [if_pos rfl]
    cases flow <;>
      simp [removeEntry, entry, TableEntry.replacedBy,
        Function.update_of_ne hLast]
  · rw [if_neg hEq]
    cases flow <;>
      simp [removeEntry, entry, Function.update_of_ne hLast,
        Function.update_of_ne hEq]

theorem removeEntry_numConn
    (s : NetState)
    (flow : FlowIdentifier)
    (i : Nat) :
    (s.removeEntry flow i).numConn = s.numConn - 1 := by
  cases flow <;> rfl

theorem removeEntry_entries
    {s : NetState}
    {xs ys : List TableEntry}
    {x : TableEntry}
    (flow : FlowIdentifier)
    (hEntries : s.entries = xs ++ x :: ys) :
    (s.removeEntry flow xs.length).entries =
      xs ++ TableEntry.fillGap flow x ys := by
  have hLength := s.length_entries
  have hGet : ∀ j, (xs ++ x :: ys)[j]? =
      if j < s.numConn then some (s.entry j) else none := by
    intro j
    rw [← hEntries, getElem?_entries]
  rw [hEntries, List.length_append, List.length_cons]
    at hLength
  have hX : s.entry xs.length = x := by
    have hAt := hGet xs.length
    rw [if_pos (by omega)] at hAt
    simpa using hAt.symm
  apply List.ext_getElem?
  intro j
  rw [getElem?_entries, removeEntry_numConn]
  by_cases hIn : j < s.numConn - 1
  · have hAt := hGet j
    rw [if_pos (by omega)] at hAt
    rw [if_pos hIn, removeEntry_entry s flow hIn, hX]
    rcases ys.eq_nil_or_concat' with
      rfl | ⟨between, last, rfl⟩
    · have hLt : j < xs.length := by
        simp only [List.length_nil] at hLength
        omega
      rw [if_neg (Nat.ne_of_lt hLt), ← hAt,
        List.getElem?_append_left hLt, TableEntry.fillGap_nil,
        List.append_nil]
    · have hLast : s.entry (s.numConn - 1) = last := by
        have hAtLast := hGet (s.numConn - 1)
        rw [if_pos (by omega)] at hAtLast
        rw [List.length_append, List.length_singleton]
          at hLength
        have hIndex : s.numConn - 1 =
            xs.length + (between.length + 1) := by omega
        rw [hIndex, List.getElem?_append_right (by omega)]
          at hAtLast
        simp only [Nat.add_sub_cancel_left,
          List.getElem?_cons_succ] at hAtLast
        rw [hIndex]
        simpa using hAtLast.symm
      rw [List.length_append, List.length_singleton]
        at hLength
      rw [TableEntry.fillGap_concat, hLast]
      rcases Nat.lt_trichotomy j xs.length with
        hLt | rfl | hGt
      · rw [if_neg (Nat.ne_of_lt hLt), ← hAt,
          List.getElem?_append_left hLt,
          List.getElem?_append_left hLt]
      · simp
      · obtain ⟨k, rfl⟩ : ∃ k, j = xs.length + (k + 1) :=
          ⟨j - xs.length - 1, by omega⟩
        rw [if_neg (by omega), ← hAt,
          List.getElem?_append_right (by omega),
          List.getElem?_append_right (by omega)]
        simp only [Nat.add_sub_cancel_left,
          List.getElem?_cons_succ]
        rw [List.getElem?_append_left (by omega)]
  · rw [if_neg hIn]
    have hShort : (xs ++ TableEntry.fillGap flow x ys).length ≤
        j := by
      have hPerm := (TableEntry.fillGap_perm flow x ys
        ).length_eq
      rw [List.length_map, List.length_map] at hPerm
      rw [List.length_append, hPerm]
      omega
    exact (List.getElem?_eq_none hShort).symm

/- `delete_connection` removes the first matching entry. -/
theorem deleteConnection_entries
    {s : NetState}
    {xs ys : List TableEntry}
    {x : TableEntry}
    {flow : FlowIdentifier}
    {appId srcAppId : BitVec 32}
    {srcHostId : BitVec 64}
    (hEntries : s.entries = xs ++ x :: ys)
    (hFirst : ∀ y ∈ xs,
      y.matchesFlow flow appId srcAppId srcHostId = false)
    (hMatch :
      x.matchesFlow flow appId srcAppId srcHostId = true) :
    (s.deleteConnection flow appId srcAppId
        srcHostId).entries =
      xs ++ TableEntry.fillGap flow x ys := by
  have hLength := s.length_entries
  rw [hEntries, List.length_append, List.length_cons]
    at hLength
  have hAt : ∀ j, j < s.numConn →
      (xs ++ x :: ys)[j]? = some (s.entry j) := by
    intro j hj
    rw [← hEntries, getElem?_entries, if_pos hj]
  have hFound : s.findIndex (s.matchConnection flow appId
      srcAppId srcHostId) = some xs.length := by
    rw [findIndex, List.find?_range_eq_some,
      matchConnection_eq]
    refine ⟨?_, List.mem_range.mpr (by omega), ?_⟩
    · have hX := hAt xs.length (by omega)
      simp only [List.getElem?_append_right (Nat.le_refl _),
        Nat.sub_self, List.getElem?_cons_zero,
        Option.some.injEq] at hX
      rw [Function.comp_apply, ← hX]
      exact hMatch
    · intro j hj
      have hY := hAt j (by omega)
      rw [List.getElem?_append_left hj] at hY
      rw [Function.comp_apply,
        hFirst _ (List.mem_of_getElem? hY)]
      rfl
  rw [deleteConnection, hFound]
  exact removeEntry_entries flow hEntries

end NetState

end NetBlocks
