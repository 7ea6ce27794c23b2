import NetBlocks.Core.Calls

/-
  The input queue as it lies in memory: two parallel arrays,
  which are shifted in place when an entry is taken out. It
  refines the list of entries that the stack works on.

  Main declarations:
    * `DataQueueArrays`
    * `entries_insert` and `read_cons`
    * `nbRead_refines`
-/

namespace NetBlocks

open Except

variable {α : Type}

------------------------------------------------------------
-- The Two Arrays
------------------------------------------------------------

/-
  `struct data_queue_t`, with elements at addresses of a
  type. No more elements are current than there is room for.
-/
structure DataQueueArrays (α : Type) where
  dataQueueElems : Nat → α
  dataQueueElemsSize : Nat → Int
  currentElems : Nat
  currentElems_le : currentElems ≤ maxDataQueueElems

namespace DataQueueArrays

/-
  `nb__new_data_queue`, with what `malloc` left in the
  arrays.
-/
def new
    (elems : Nat → α)
    (sizes : Nat → Int) : DataQueueArrays α where
  dataQueueElems := elems
  dataQueueElemsSize := sizes
  currentElems := 0
  currentElems_le := Nat.zero_le _

/- `nb__insert_data_queue` -/
def insert
    (q : DataQueueArrays α)
    (buff : α)
    (len : Int) : Except Fault (DataQueueArrays α) :=
  let index := q.currentElems
  if hRoom : index < maxDataQueueElems then
    .ok
      { dataQueueElems :=
          Function.update q.dataQueueElems index buff
        dataQueueElemsSize :=
          Function.update q.dataQueueElemsSize index len
        currentElems := index + 1
        currentElems_le := hRoom }
  else
    .error .outOfBounds

/-
  The loop of `nb__read`, with `n` rounds to go from `i` on:
  every element moves to the place before it.
-/
def shiftLoop :
    Nat → Nat → DataQueueArrays α → DataQueueArrays α
| 0, _, q => q
| n + 1, i, q =>
    shiftLoop n (i + 1)
      { q with
        dataQueueElems :=
          Function.update q.dataQueueElems (i - 1)
            (q.dataQueueElems i)
        dataQueueElemsSize :=
          Function.update q.dataQueueElemsSize (i - 1)
            (q.dataQueueElemsSize i) }

/- The shifted queue with one element less. -/
def shifted
    (q : DataQueueArrays α) : DataQueueArrays α :=
  { shiftLoop (q.currentElems - 1) 1 q with
    currentElems := q.currentElems - 1
    currentElems_le :=
      Nat.le_trans (Nat.sub_le _ _) q.currentElems_le }

/-
  `nb__read`, where `memcpy` copies as many bytes as it is
  told from the address of a payload.
-/
def read
    (memcpy : α → Nat → Except Fault (List Byte))
    (maxLen : Int)
    (q : DataQueueArrays α) :
    Except Fault (List Byte × DataQueueArrays α) :=
  if q.currentElems = 0 then
    .ok ([], q)
  else do
    let payload := q.dataQueueElems 0
    let payloadSize := q.dataQueueElemsSize 0
    let copySize :=
      if maxLen < payloadSize then maxLen else payloadSize
    if copySize < 0 then
      -- `memcpy` takes the size as unsigned
      throw .outOfBounds
    else
      let bytes ← memcpy payload copySize.toNat
      return (bytes, q.shifted)

------------------------------------------------------------
-- Entries
------------------------------------------------------------

/- The current elements with their sizes. -/
def entries
    (q : DataQueueArrays α) : List (α × Int) :=
  (List.range q.currentElems).map (fun i =>
    (q.dataQueueElems i, q.dataQueueElemsSize i))

@[simp] theorem entries_new
    (elems : Nat → α)
    (sizes : Nat → Int) :
    (new elems sizes).entries = [] :=
  rfl

@[simp] theorem length_entries
    (q : DataQueueArrays α) :
    q.entries.length = q.currentElems := by
  simp [entries]

theorem entries_eq_nil_iff
    {q : DataQueueArrays α} :
    q.entries = [] ↔ q.currentElems = 0 := by
  rw [← List.length_eq_zero_iff, length_entries]

/- A new element goes behind the current ones. -/
theorem entries_insert
    {q q' : DataQueueArrays α}
    {buff : α}
    {len : Int}
    (hInsert : q.insert buff len = .ok q') :
    q'.entries = q.entries ++ [(buff, len)] := by
  rw [insert] at hInsert
  split at hInsert
  · cases hInsert
    simp only [entries, List.range_succ, List.map_append,
      List.map_cons, List.map_nil, Function.update_self]
    congr 1
    apply List.map_congr_left
    intro i hi
    have hNe : i ≠ q.currentElems :=
      Nat.ne_of_lt (List.mem_range.mp hi)
    rw [Function.update_of_ne hNe, Function.update_of_ne hNe]
  · cases hInsert

/- There is room for 512 elements. -/
theorem insert_ok_iff
    {q : DataQueueArrays α}
    (buff : α)
    (len : Int) :
    (∃ q', q.insert buff len = .ok q') ↔
      q.entries.length < maxDataQueueElems := by
  rw [length_entries, insert]
  split
  · next hRoom => exact ⟨fun _ => hRoom, fun _ => ⟨_, rfl⟩⟩
  · next hFull =>
      constructor
      · rintro ⟨q', hOk⟩
        cases hOk
      · intro hRoom
        exact absurd hRoom hFull

------------------------------------------------------------
-- Shifting
------------------------------------------------------------

/- The places from `i - 1` on get what is behind them. -/
theorem shiftLoop_get
    (n : Nat)
    {i : Nat}
    (hPos : 0 < i)
    (q : DataQueueArrays α)
    (k : Nat) :
    ((shiftLoop n i q).dataQueueElems k,
        (shiftLoop n i q).dataQueueElemsSize k) =
      if i - 1 ≤ k ∧ k < i - 1 + n then
        (q.dataQueueElems (k + 1),
          q.dataQueueElemsSize (k + 1))
      else
        (q.dataQueueElems k, q.dataQueueElemsSize k) := by
  induction n generalizing i q with
  | zero =>
      rw [if_neg (by omega)]
      rfl
  | succ n ih =>
      rw [shiftLoop, ih (Nat.succ_pos i)]
      dsimp only
      by_cases hFirst : k = i - 1
      · -- the place this round writes is not touched again
        have hBehind : i = i - 1 + 1 := by omega
        rw [if_neg (by omega), if_pos (by omega), hFirst,
          Function.update_self, Function.update_self,
          ← hBehind]
      · have hNext : k + 1 ≠ i - 1 ∨ k < i - 1 := by omega
        by_cases hIn : i - 1 ≤ k ∧ k < i - 1 + (n + 1)
        · rw [if_pos (by omega), if_pos hIn,
            Function.update_of_ne (by omega),
            Function.update_of_ne (by omega)]
        · rw [if_neg (by omega), if_neg hIn,
            Function.update_of_ne hFirst,
            Function.update_of_ne hFirst]

/- Shifting takes the first entry off the list. -/
theorem entries_shifted
    (q : DataQueueArrays α) :
    q.shifted.entries = q.entries.tail := by
  apply List.ext_getElem
  · rw [List.length_tail, length_entries, length_entries]
    rfl
  · intro k hk hk'
    rw [length_entries] at hk
    have hLt : k < q.currentElems - 1 := hk
    simp only [entries, List.getElem_tail, List.getElem_map,
      List.getElem_range]
    have hShift := shiftLoop_get (q.currentElems - 1)
      Nat.one_pos q k
    rw [if_pos (by omega)] at hShift
    exact hShift

/- Nothing is read from an empty queue. -/
theorem read_nil
    {q : DataQueueArrays α}
    (hNone : q.entries = [])
    (memcpy : α → Nat → Except Fault (List Byte))
    (maxLen : Int) :
    q.read memcpy maxLen = .ok ([], q) := by
  rw [read, if_pos (entries_eq_nil_iff.mp hNone)]

/- The first entry is read, and taken off the list. -/
theorem read_cons
    {q : DataQueueArrays α}
    {payload : α}
    {size : Int}
    {rest : List (α × Int)}
    (hEntries : q.entries = (payload, size) :: rest)
    (memcpy : α → Nat → Except Fault (List Byte))
    (maxLen : Int) :
    q.shifted.entries = rest ∧
      q.read memcpy maxLen =
        let copySize :=
          if maxLen < size then maxLen else size
        if copySize < 0 then
          .error .outOfBounds
        else
          (memcpy payload copySize.toNat).map (fun bytes =>
            (bytes, q.shifted)) := by
  have hSome : q.currentElems ≠ 0 := by
    intro hZero
    rw [← entries_eq_nil_iff, hEntries] at hZero
    cases hZero
  have hHead : (q.dataQueueElems 0, q.dataQueueElemsSize 0) =
      (payload, size) := by
    have hFirst : q.entries[0]? = some (payload, size) := by
      rw [hEntries]
      rfl
    simpa [entries, Nat.pos_of_ne_zero hSome] using hFirst
  simp only [Prod.mk.injEq] at hHead
  refine ⟨by rw [entries_shifted, hEntries]; rfl, ?_⟩
  rw [read, if_neg hSome, hHead.1, hHead.2]
  rfl

end DataQueueArrays

------------------------------------------------------------
-- The Queue of a Connection
------------------------------------------------------------

/- The stack's insertion is the one into the arrays. -/
theorem insertDataQueue_refines
    (q : DataQueueArrays PacketPtr)
    (buff : PacketPtr)
    (len : Int) :
    insertDataQueue q.entries buff len =
      (q.insert buff len).map DataQueueArrays.entries := by
  unfold insertDataQueue
  by_cases hRoom : q.entries.length < maxDataQueueElems
  · rcases (DataQueueArrays.insert_ok_iff buff len).mpr hRoom
      with ⟨q', hInsert⟩
    rw [if_pos hRoom, hInsert]
    exact congrArg Except.ok
      (DataQueueArrays.entries_insert hInsert).symm
  · rw [if_neg hRoom]
    rw [DataQueueArrays.length_entries] at hRoom
    rw [DataQueueArrays.insert, dif_neg hRoom]
    rfl

/- The stack's `nb__read` is the one from the arrays. -/
theorem nbRead_refines
    {P : Type}
    {fmt : PacketFormat P}
    {c : ConnPtr}
    {e : Endpoint P}
    {conn : Connection}
    {q : DataQueueArrays PacketPtr}
    (hConn : e.conns c = some conn)
    (hQueue : conn.inputQueue = q.entries)
    (maxLen : Int) :
    nbRead fmt c maxLen e =
      (q.read (fun p n => fmt.readPayload n (e.packets p))
        maxLen).map (fun (bytes, q') =>
          (bytes, e.setConn c { conn with
            inputQueue := q'.entries })) := by
  rw [nbRead, Endpoint.loadConn_of_some hConn, ok_bind]
  cases hEntries : q.entries with
  | nil =>
      have hNone := hQueue.trans hEntries
      rw [q.read_nil hEntries, hNone]
      have hSame : { conn with inputQueue := q.entries } =
          conn := by rw [← hQueue]
      simp only [Except.map, hSame, Endpoint.setConn_self hConn]
      rfl
  | cons entry rest =>
      rcases entry with ⟨payload, size⟩
      rcases q.read_cons hEntries (fun p n =>
        fmt.readPayload n (e.packets p)) maxLen with
        ⟨hRest, hRead⟩
      rw [hRead, hQueue.trans hEntries]
      dsimp only
      generalize (if maxLen < size then maxLen else size) =
        copySize
      by_cases hNeg : copySize < 0
      · rw [if_pos hNeg, if_pos hNeg]
        rfl
      · rw [if_neg hNeg, if_neg hNeg]
        cases hCopy : fmt.readPayload copySize.toNat
          (e.packets payload) with
        | error fault => rfl
        | ok bytes =>
            rw [ok_bind, Endpoint.modifyConn_eq hConn, ← hRest]
            rfl

end NetBlocks
