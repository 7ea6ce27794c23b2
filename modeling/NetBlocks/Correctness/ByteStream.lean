import NetBlocks.Lib.ByteMemory
import NetBlocks.Runtime.DataQueue

/-
  The bytes a program reads from a connection, compared with
  those of the payloads that arrived on it.

  Main declarations:
    * `StreamSteps` and `NbpReceives`
    * `ReadsWhole`
    * `readsAll_of_run` and `not_forall_readsAll`
-/

namespace NetBlocks

open Except TransitionSystem ByteMemory

------------------------------------------------------------
-- One Connection's Input
------------------------------------------------------------

/-
  The input queue of a connection, the memory that holds the
  payloads, and the bytes that were put in and taken out.
-/
structure InputStream where
  queue : DataQueueArrays Nat
  memory : Memory
  inserted : List Byte
  returned : List Byte

namespace InputStream

/- A new connection's queue, in any memory. -/
def new
    (elems : Nat → Nat)
    (sizes : Nat → Int)
    (memory : Memory) : InputStream where
  queue := .new elems sizes
  memory := memory
  inserted := []
  returned := []

/- The bytes of a payload that waits in the queue. -/
def entryBytes
    (s : InputStream)
    (entry : Nat × Int) : List Byte :=
  bytesAt s.memory entry.1 entry.2.toNat

/- The bytes of all payloads that wait. -/
def waiting
    (s : InputStream) : List Byte :=
  s.queue.entries.flatMap s.entryBytes

/- `nb__read` -/
def read
    (maxLen : Int)
    (s : InputStream) :
    Except Fault (List Byte × InputStream) := do
  let (bytes, queue) ← s.queue.read
    (fun a n => .ok (bytesAt s.memory a n)) maxLen
  return (bytes, { s with
    queue := queue
    returned := s.returned ++ bytes })

end InputStream

/- A `size_t` passed as an `int`. -/
def asInt
    (len : BitVec 64) : Int :=
  (len.setWidth 32).toInt

------------------------------------------------------------
-- Arrivals and Reads
------------------------------------------------------------

/- A payload that arrives, or another write to memory. -/
inductive Arrival where
| insert (buff : Nat) (len : Int)
| store (memory : Memory)

/- Payloads are not empty, and stay as they are. -/
inductive Arrives :
    InputStream → Arrival → InputStream → Prop
| insert {s : InputStream} {buff : Nat} {len : Int}
    {q : DataQueueArrays Nat} :
    0 < len →
    s.queue.insert buff len = .ok q →
    Arrives s (.insert buff len)
      { s with
        queue := q
        inserted :=
          s.inserted ++ bytesAt s.memory buff len.toNat }
| store {s : InputStream} {memory : Memory} :
    (∀ entry ∈ s.queue.entries,
      bytesAt memory entry.1 entry.2.toNat =
        s.entryBytes entry) →
    Arrives s (.store memory) { s with memory }

/-
  `nbp_recv`, which calls `nb__read` until it gets something.
  Payloads arrive in the steps of the main loop between.
-/
inductive NbpReceives
    (len : BitVec 64) :
    InputStream → List Arrival → InputStream → Prop
| returns {s s' : InputStream} {bytes : List Byte} :
    s.read (asInt len) = .ok (bytes, s') →
    bytes.length ≠ 0 →
    NbpReceives len s [] s'
| spins {s s₁ s₂ s' : InputStream} {bytes : List Byte}
    {step arrivals : List Arrival} :
    s.read (asInt len) = .ok (bytes, s₁) →
    bytes.length = 0 →
    Run Arrives s₁ step s₂ →
    NbpReceives len s₂ arrivals s' →
    NbpReceives len s (step ++ arrivals) s'

/- What happens on the connection. -/
inductive StreamCall where
| arrival (arrival : Arrival)
| read (maxLen : Int)
| recv (len : BitVec 64) (arrivals : List Arrival)

/- Buffers have a positive size. -/
inductive StreamSteps :
    InputStream → StreamCall → InputStream → Prop
| arrival {s s' : InputStream} {arrival : Arrival} :
    Arrives s arrival s' →
    StreamSteps s (.arrival arrival) s'
| read {s s' : InputStream} {maxLen : Int}
    {bytes : List Byte} :
    0 < maxLen →
    s.read maxLen = .ok (bytes, s') →
    StreamSteps s (.read maxLen) s'
| recv {s s' : InputStream} {len : BitVec 64}
    {arrivals : List Arrival} :
    0 < len →
    NbpReceives len s arrivals s' →
    StreamSteps s (.recv len arrivals) s'

------------------------------------------------------------
-- Reading Whole Payloads
------------------------------------------------------------

/- The entries made for what arrives. -/
def arrivedEntries
    (arrivals : List Arrival) : List (Nat × Int) :=
  arrivals.filterMap (fun arrival =>
    match arrival with
    | .insert buff len => some (buff, len)
    | .store _ => none)

/-
  A buffer has room for the payload at the front of the
  queue, or for the first one to arrive.
-/
def ReadsWhole
    (s : InputStream) : StreamCall → Prop
| .arrival _ => True
| .read maxLen =>
    ∀ entry, s.queue.entries.head? = some entry →
      entry.2 ≤ maxLen
| .recv len arrivals =>
    ∀ entry, (s.queue.entries ++
        arrivedEntries arrivals).head? = some entry →
      entry.2 ≤ asInt len

/-
  What was returned is a prefix of what was inserted, and
  all of it when nothing waits.
-/
structure ReadsAll
    (s : InputStream) : Prop where
  returned_prefix : s.returned <+: s.inserted
  all_of_empty : s.queue.currentElems = 0 →
    s.returned = s.inserted

/-
  Every byte that was inserted was returned or waits, and
  all that waits are payloads with something in them.
-/
structure StreamKept
    (s : InputStream) : Prop where
  bytes : s.inserted = s.returned ++ s.waiting
  nonempty : ∀ entry ∈ s.queue.entries, 0 < entry.2

namespace StreamKept

variable {s s' : InputStream}

theorem readsAll
    (hKept : StreamKept s) :
    ReadsAll s where
  returned_prefix := ⟨s.waiting, hKept.bytes.symm⟩
  all_of_empty hZero := by
    have hNone : s.queue.entries = [] :=
      DataQueueArrays.entries_eq_nil_iff.mpr hZero
    have hBytes := hKept.bytes
    rw [InputStream.waiting, hNone, List.flatMap_nil,
      List.append_nil] at hBytes
    exact hBytes.symm

theorem arrives
    {arrival : Arrival}
    (hKept : StreamKept s)
    (hStep : Arrives s arrival s') :
    StreamKept s' := by
  cases hStep with
  | @insert buff len q hPos hInsert =>
      have hEntries := DataQueueArrays.entries_insert hInsert
      constructor
      · simp only [InputStream.waiting,
          InputStream.entryBytes, hEntries,
          List.flatMap_append, List.flatMap_cons,
          List.flatMap_nil, List.append_nil]
        rw [hKept.bytes, List.append_assoc]
        rfl
      · intro entry hEntry
        dsimp only at hEntry
        rw [hEntries] at hEntry
        rcases List.mem_append.mp hEntry with hOld | hNew
        · exact hKept.nonempty entry hOld
        · rw [List.mem_singleton.mp hNew]
          exact hPos
  | store hSame =>
      refine ⟨?_, hKept.nonempty⟩
      have hWaiting : s.queue.entries.flatMap
          (InputStream.entryBytes { s with memory := _ }) =
            s.waiting :=
        List.flatMap_congr (fun entry hEntry =>
          hSame entry hEntry)
      exact hKept.bytes.trans
        (congrArg (s.returned ++ ·) hWaiting.symm)

/- A read that has room takes the first payload whole. -/
theorem read
    {maxLen : Int}
    {bytes : List Byte}
    (hKept : StreamKept s)
    (hRoom : ∀ entry, s.queue.entries.head? = some entry →
      entry.2 ≤ maxLen)
    (hRead : s.read maxLen = .ok (bytes, s')) :
    StreamKept s' ∧
      (bytes.length = 0 → s.queue.entries = [] ∧ s' = s) := by
  rw [InputStream.read] at hRead
  rcases bind_eq_ok_iff.mp hRead with
    ⟨⟨bytes', q⟩, hCopy, hEnd⟩
  cases hEnd
  cases hEntries : s.queue.entries with
  | nil =>
      rw [DataQueueArrays.read_nil hEntries] at hCopy
      cases hCopy
      have hSame : { s with
          queue := s.queue
          returned := s.returned ++ [] } = s := by
        rw [List.append_nil]
      rw [hSame]
      exact ⟨hKept, fun _ => ⟨rfl, rfl⟩⟩
  | cons entry rest =>
      rcases entry with ⟨payload, size⟩
      have hSize := hRoom (payload, size) (by
        rw [hEntries]
        rfl)
      have hPos := hKept.nonempty (payload, size) (by
        rw [hEntries]
        exact List.mem_cons_self ..)
      rcases s.queue.read_cons hEntries
          (fun a n => .ok (bytesAt s.memory a n)) maxLen with
        ⟨hRest, hFirst⟩
      dsimp only at hSize hPos
      rw [hFirst] at hCopy
      dsimp only at hCopy
      rw [if_neg (Int.not_lt.mpr hSize),
        if_neg (Int.not_lt.mpr (Int.le_of_lt hPos))] at hCopy
      cases hCopy
      refine ⟨⟨?_, ?_⟩, ?_⟩
      · have hBytes := hKept.bytes
        rw [InputStream.waiting, hEntries,
          List.flatMap_cons] at hBytes
        simp only [InputStream.waiting, hRest]
        rw [hBytes, List.append_assoc]
        rfl
      · intro entry hEntry
        dsimp only at hEntry
        rw [hRest] at hEntry
        apply hKept.nonempty entry
        rw [hEntries]
        exact List.mem_cons_of_mem _ hEntry
      · intro hNone
        rw [length_bytesAt] at hNone
        omega

/- Arrivals put their entries behind the ones that wait. -/
theorem arriveRun
    {arrivals : List Arrival}
    (hKept : StreamKept s)
    (hRun : Run Arrives s arrivals s') :
    StreamKept s' ∧
      s'.queue.entries =
        s.queue.entries ++ arrivedEntries arrivals := by
  induction hRun with
  | nil =>
      refine ⟨hKept, ?_⟩
      rw [arrivedEntries, List.filterMap_nil, List.append_nil]
  | cons hStep _ ih =>
      rcases ih (hKept.arrives hStep) with ⟨hKept', hEntries⟩
      refine ⟨hKept', ?_⟩
      rw [hEntries]
      cases hStep with
      | insert _ hInsert =>
          dsimp only
          rw [DataQueueArrays.entries_insert hInsert,
            List.append_assoc]
          rfl
      | store => rfl

/-
  `nbp_recv` returns the first payload whole, be it one that
  waits or one that arrives while the loop spins.
-/
theorem receives
    {len : BitVec 64}
    {arrivals : List Arrival}
    (hKept : StreamKept s)
    (hRoom : ∀ entry, (s.queue.entries ++
        arrivedEntries arrivals).head? = some entry →
      entry.2 ≤ asInt len)
    (hReceives : NbpReceives len s arrivals s') :
    StreamKept s' := by
  have hFront : ∀ {s : InputStream} {new : List (Nat × Int)},
      (∀ entry, (s.queue.entries ++ new).head? =
        some entry → entry.2 ≤ asInt len) →
      ∀ entry, s.queue.entries.head? = some entry →
        entry.2 ≤ asInt len := by
    intro s new hAll entry hHead
    apply hAll
    rw [List.head?_append, hHead]
    rfl
  induction hReceives with
  | returns hRead _ =>
      exact (hKept.read (hFront hRoom) hRead).1
  | @spins s s₁ s₂ s' bytes step rest hRead hNone hRun _ ih =>
      rcases (hKept.read (hFront hRoom) hRead).2 hNone with
        ⟨-, rfl⟩
      rcases hKept.arriveRun hRun with ⟨hKept₂, hEntries⟩
      apply ih hKept₂
      intro entry hHead
      apply hRoom
      rw [hEntries, List.append_assoc] at hHead
      rw [arrivedEntries, List.filterMap_append]
      exact hHead

theorem step
    {call : StreamCall}
    (hKept : StreamKept s)
    (hStep : Guarded ReadsWhole StreamSteps s call s') :
    StreamKept s' := by
  rcases hStep with ⟨hRoom, hStep⟩
  cases hStep with
  | arrival hArrives => exact hKept.arrives hArrives
  | read _ hRead => exact (hKept.read hRoom hRead).1
  | recv _ hReceives => exact hKept.receives hRoom hReceives

theorem new
    (elems : Nat → Nat)
    (sizes : Nat → Int)
    (memory : Memory) :
    StreamKept (.new elems sizes memory) where
  bytes := rfl
  nonempty entry hEntry := by cases hEntry

end StreamKept

------------------------------------------------------------
-- Runs
------------------------------------------------------------

/-
  In every run whose buffers have room for the payloads they
  get, no byte is lost.
-/
theorem readsAll_of_run
    {elems : Nat → Nat}
    {sizes : Nat → Int}
    {memory : Memory}
    {calls : List StreamCall}
    {s : InputStream}
    (hRun : Run (Guarded ReadsWhole StreamSteps)
      (.new elems sizes memory) calls s) :
    ReadsAll s := by
  have hStep : ∀ s call s', StreamKept s →
      Guarded ReadsWhole StreamSteps s call s' →
        StreamKept s' :=
    fun _ _ _ hKept hCall => hKept.step hCall
  have hKept := hRun.invariant hStep
    (StreamKept.new elems sizes memory)
  exact hKept.readsAll

/- A queue that was never used, and memory that is all zero. -/
def quietStream : InputStream :=
  .new (fun _ => 0) (fun _ => 0) (fun _ => 0)

/- The same with a payload of five bytes that waits. -/
def fiveWaiting : InputStream where
  queue :=
    { dataQueueElems := Function.update (fun _ => 0) 0 0
      dataQueueElemsSize := Function.update (fun _ => 0) 0 5
      currentElems := 1
      currentElems_le := by decide }
  memory := fun _ => 0
  inserted := [0, 0, 0, 0, 0]
  returned := []

theorem arrives_five :
    Arrives quietStream (.insert 0 5) fiveWaiting :=
  .insert (by decide) rfl

/- Five bytes arrive, and are read. -/
theorem readsAll_of_run_five :
    ∃ s calls, s.returned.length = 5 ∧
      Run (Guarded ReadsWhole StreamSteps) quietStream calls
        s ∧ ReadsAll s := by
  have hRead : fiveWaiting.read 8 = .ok ([0, 0, 0, 0, 0],
      { fiveWaiting with
        queue := fiveWaiting.queue.shifted
        returned := [0, 0, 0, 0, 0] }) := rfl
  have hWhole : ReadsWhole fiveWaiting (.read 8) := by
    intro entry hEntry
    have hFirst : fiveWaiting.queue.entries.head? =
      some (0, 5) := rfl
    cases hFirst.symm.trans hEntry
    decide
  have hRun : Run (Guarded ReadsWhole StreamSteps) quietStream
      [.arrival (.insert 0 5), .read 8]
      { fiveWaiting with
        queue := fiveWaiting.queue.shifted
        returned := [0, 0, 0, 0, 0] } :=
    .cons ⟨trivial, .arrival arrives_five⟩
      (.cons ⟨hWhole, .read (by decide) hRead⟩ (.nil _))
  exact ⟨_, _, rfl, hRun, readsAll_of_run hRun⟩

/- Of five bytes that arrived, two are all that is read. -/
theorem not_forall_readsAll :
    ¬ ∀ elems sizes memory calls s,
      Run StreamSteps (.new elems sizes memory) calls s →
        ReadsAll s := by
  intro hAll
  have hRead : fiveWaiting.read 2 = .ok ([0, 0],
      { fiveWaiting with
        queue := fiveWaiting.queue.shifted
        returned := [0, 0] }) := rfl
  have hRun : Run StreamSteps quietStream
      [.arrival (.insert 0 5), .read 2]
      { fiveWaiting with
        queue := fiveWaiting.queue.shifted
        returned := [0, 0] } :=
    .cons (.arrival arrives_five)
      (.cons (.read (by decide) hRead) (.nil _))
  have hEnd := (hAll _ _ _ _ _ hRun).all_of_empty rfl
  exact absurd (congrArg List.length hEnd) (by decide)

end NetBlocks
