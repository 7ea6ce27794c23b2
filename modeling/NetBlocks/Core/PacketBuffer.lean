import NetBlocks.Core.NetPacket

/-
  Packet buffers of the NO_COMPAT stack, down to their bytes:
  the members of the layout, the payload behind them, and the
  checksum over what is sent.

  Main declarations:
    * `PacketBuffer` and its operations
    * `PacketBuffer.computeChecksum`
    * `netPacketFormat`
-/

namespace NetBlocks

open ByteMemory Except

/- `get_headroom()`, the bytes of group 0 -/
def headroom : Nat := 24

/- `get_total_size() - 1`, where the payload starts -/
def payloadStart : Nat := 62

/-
  A buffer of `size` bytes, with room for the headers, as
  `nb__request_send_buffer` and `nb__poll_packet` return it.
  What memory holds behind it does not matter.
-/
structure PacketBuffer where
  size : Nat
  memory : Memory
  payloadStart_le : payloadStart ≤ size
  size_lt : size < 2 ^ 31

namespace PacketBuffer

------------------------------------------------------------
-- Members
------------------------------------------------------------

/- `get_integer` -/
def getInteger
    (f : Field)
    (x : PacketBuffer) : BitVec 64 :=
  match readField f x.memory with
  | .ok v => v
  | .error _ => 0

/- `set_integer` -/
def setInteger
    (f : Field)
    (v : BitVec 64)
    (x : PacketBuffer) : PacketBuffer :=
  match writeField f v x.memory with
  | .ok memory => { x with memory }
  | .error _ => x

theorem getInteger_bits
    (f : Field)
    (x : PacketBuffer)
    {i : Nat}
    (hi : i < 64) :
    (x.getInteger f).getLsbD i =
      if i < f.bits then
        bit x.memory (f.start + i)
      else
        f.signed &&
          bit x.memory (f.start + (f.bits - 1)) := by
  rcases readField_bits f x.memory with ⟨v, hRead, hBits⟩
  rw [getInteger, hRead]
  exact hBits i hi

theorem setInteger_bits
    {f : Field}
    {v : BitVec 64}
    (hFits : f.Fits v)
    (x : PacketBuffer)
    (k : Nat) :
    bit (x.setInteger f v).memory k =
      if f.start ≤ k ∧ k < f.start + f.bits then
        v.getLsbD (k - f.start)
      else
        bit x.memory k := by
  rcases writeField_bits hFits x.memory with
    ⟨memory, hWrite, hBits⟩
  rw [setInteger, hWrite]
  exact hBits k

@[simp] theorem setInteger_size
    (f : Field)
    (v : BitVec 64)
    (x : PacketBuffer) :
    (x.setInteger f v).size = x.size := by
  unfold setInteger
  split <;> rfl

/- Buffers of one size with the same bits are the same. -/
theorem eq_of_bit_eq
    {x y : PacketBuffer}
    (hSize : y.size = x.size)
    (hBits : ∀ k, bit y.memory k = bit x.memory k) :
    y = x := by
  cases x
  cases y
  cases hSize
  cases ByteMemory.eq_of_bit_eq hBits
  rfl

/- Members read alike from the same bits. -/
theorem getInteger_congr
    {f : Field}
    {x y : PacketBuffer}
    (hBits : ∀ k, f.start ≤ k → k < f.start + f.bits →
      bit y.memory k = bit x.memory k) :
    y.getInteger f = x.getInteger f := by
  have hPos := f.bits_pos
  apply BitVec.eq_of_getLsbD_eq
  intro i hi
  rw [getInteger_bits f y hi, getInteger_bits f x hi,
    hBits (f.start + (f.bits - 1)) (by omega) (by omega)]
  split
  · exact hBits _ (by omega) (by omega)
  · rfl

theorem canon_getInteger
    (f : Field)
    (x : PacketBuffer) :
    f.canon (x.getInteger f) = x.getInteger f := by
  have hPos := f.bits_pos
  have hLe := f.bits_le_64
  apply BitVec.eq_of_getLsbD_eq
  intro i hi
  rw [f.getLsbD_canon _ hi, getInteger_bits f x hi,
    getInteger_bits f x (by omega : f.bits - 1 < 64)]
  split
  · rfl
  · rw [if_pos (by omega)]

theorem getInteger_setInteger_self
    {f : Field}
    {v : BitVec 64}
    (hFits : f.Fits v)
    (x : PacketBuffer) :
    (x.setInteger f v).getInteger f = f.canon v := by
  have hPos := f.bits_pos
  apply BitVec.eq_of_getLsbD_eq
  intro i hi
  rw [getInteger_bits f _ hi, f.getLsbD_canon v hi]
  split
  · rw [setInteger_bits hFits, if_pos (by omega)]
    congr 1
    omega
  · rw [setInteger_bits hFits, if_pos (by omega)]
    congr 2
    omega

theorem getInteger_setInteger_ne
    {f g : Field}
    {v : BitVec 64}
    (hFits : f.Fits v)
    (hNe : g ≠ f)
    (x : PacketBuffer) :
    (x.setInteger f v).getInteger g = x.getInteger g := by
  have hApart := Field.apart hNe
  apply getInteger_congr
  intro k hFrom hTo
  rw [setInteger_bits hFits, if_neg (by omega)]

/- What a member returns, it can be given. -/
theorem fits_getInteger
    (f : Field)
    (x : PacketBuffer) :
    f.Fits (x.getInteger f) := by
  intro hHost
  have hCanon := canon_getInteger f x
  rw [← hCanon]
  rcases hHost with rfl | rfl <;>
    · simp only [Field.canon, Field.signed, Field.bits,
        Bool.false_eq_true, if_false, BitVec.toNat_setWidth]
      omega

theorem setInteger_getInteger
    (f : Field)
    (x : PacketBuffer) :
    x.setInteger f (x.getInteger f) = x := by
  have hLe := f.bits_le_64
  apply eq_of_bit_eq (setInteger_size _ _ _)
  intro k
  rw [setInteger_bits (fits_getInteger f x)]
  split
  · next hIn =>
      rw [getInteger_bits f x (by omega), if_pos (by omega)]
      congr 1
      omega
  · rfl

------------------------------------------------------------
-- Payload
------------------------------------------------------------

/- The `memcpy` to the payload's address. -/
def writePayload
    (bytes : List Byte)
    (x : PacketBuffer) : Except Fault PacketBuffer :=
  if payloadStart + bytes.length ≤ x.size then
    .ok { x with
      memory := fun a =>
        if a < payloadStart then
          x.memory a
        else
          (bytes[a - payloadStart]?).getD (x.memory a) }
  else
    .error .outOfBounds

/- The first `n` bytes from the payload's address on. -/
def readPayload
    (n : Nat)
    (x : PacketBuffer) : Except Fault (List Byte) :=
  if payloadStart + n ≤ x.size then
    .ok ((List.range n).map
      (fun i => x.memory (payloadStart + i)))
  else
    .error .outOfBounds

/- Reading a payload only looks at its bytes. -/
theorem readPayload_congr
    {n : Nat}
    {x y : PacketBuffer}
    (hSize : y.size = x.size)
    (hBytes : ∀ a, payloadStart ≤ a → a < payloadStart + n →
      y.memory a = x.memory a) :
    y.readPayload n = x.readPayload n := by
  unfold readPayload
  rw [hSize]
  split
  · congr 1
    apply List.map_congr_left
    intro i hi
    rw [List.mem_range] at hi
    exact hBytes _ (by omega) (by omega)
  · rfl

theorem readPayload_setInteger
    {f : Field}
    {v : BitVec 64}
    (hFits : f.Fits v)
    (n : Nat)
    (x : PacketBuffer) :
    (x.setInteger f v).readPayload n = x.readPayload n := by
  have hEnd := f.start_add_bits_le
  apply readPayload_congr (setInteger_size _ _ _)
  intro a hFrom _
  unfold payloadStart at hFrom
  apply byte_eq_of_bit_eq
  intro i _
  rw [setInteger_bits hFits, if_neg (by omega)]

/- The bits before the payload are the headers'. -/
theorem bit_eq_of_headers
    {x y : PacketBuffer}
    (hBytes : ∀ a, a < payloadStart →
      y.memory a = x.memory a)
    {f : Field}
    {k : Nat}
    (hTo : k < f.start + f.bits) :
    bit y.memory k = bit x.memory k := by
  have hEnd := f.start_add_bits_le
  rw [bit, bit, hBytes (k / 8) (by
    unfold payloadStart
    omega)]

theorem getInteger_writePayload
    {bytes : List Byte}
    {x y : PacketBuffer}
    (hWrite : x.writePayload bytes = .ok y)
    (f : Field) :
    y.getInteger f = x.getInteger f := by
  unfold writePayload at hWrite
  split at hWrite
  · cases hWrite
    apply getInteger_congr
    intro k _ hTo
    apply bit_eq_of_headers _ hTo
    intro a ha
    exact if_pos ha
  · cases hWrite

theorem readPayload_writePayload
    {bytes : List Byte}
    {x y : PacketBuffer}
    (hWrite : x.writePayload bytes = .ok y) :
    y.readPayload bytes.length = .ok bytes := by
  unfold writePayload at hWrite
  split at hWrite
  · next hRoom =>
      cases hWrite
      rw [readPayload, if_pos hRoom]
      congr 1
      apply List.ext_getElem (by simp)
      intro i hi _
      rw [List.length_map, List.length_range] at hi
      simp [payloadStart, List.getElem?_eq_getElem hi]
  · cases hWrite

------------------------------------------------------------
-- Checksum
------------------------------------------------------------

/-
  The sum of `n` words of two bytes each, from the byte at
  `a` on, in an `unsigned short`.
-/
def sumWords
    (mem : Memory)
    (a : Nat) : Nat → BitVec 16
| 0 => 0
| n + 1 =>
    sumWords mem a n + BitVec.ofNat 16 (load mem (a + 2 * n) 2)

/-
  `p[eo] = 0`, the padding to an even number of bytes. The
  end of the packet is computed from its length.
-/
def pad
    (eo : Int)
    (x : PacketBuffer) : Except Fault PacketBuffer :=
  if 0 ≤ eo ∧ eo < x.size then
    .ok { x with
      memory := Function.update x.memory eo.toNat 0 }
  else
    .error .outOfBounds

/- `eo`, an `int` -/
def packetEnd
    (x : PacketBuffer) : Int :=
  ((x.getInteger .computedTotalLen).setWidth 32 +
    BitVec.ofNat 32 headroom).toInt

/-
  `compute_checksum`, for `full_packet`: clear the checksum,
  pad the packet, and add up its words.
-/
def computeChecksum
    (x : PacketBuffer) :
    Except Fault (PacketBuffer × BitVec 16) := do
  let x := x.setInteger .checksum 0
  let so : Int := headroom
  let eo := x.packetEnd
  let (x, eo) ←
    if (eo - so) % 2 ≠ 0 then do
      let x ← x.pad eo
      pure (x, eo + 1)
    else
      pure (x, eo)
  if eo ≤ so then
    -- the loop ends before its first round
    return (x, 0)
  else if x.size < eo then
    throw .outOfBounds
  else
    return (x,
      sumWords x.memory headroom ((eo - so) / 2).toNat)

/- The packet a checksum is computed of, and its end. -/
def cleared
    (x : PacketBuffer) : Except Fault (PacketBuffer × Int) :=
  let x := x.setInteger .checksum 0
  let eo := x.packetEnd
  if (eo - headroom) % 2 ≠ 0 then
    (x.pad eo).map (fun x => (x, eo + 1))
  else
    .ok (x, eo)

/- Adding up the words of a cleared packet. -/
def addUp : PacketBuffer × Int →
    Except Fault (PacketBuffer × BitVec 16)
| (x, eo) =>
    if eo ≤ headroom then
      .ok (x, 0)
    else if x.size < eo then
      .error .outOfBounds
    else
      .ok (x, sumWords x.memory headroom
        ((eo - headroom) / 2).toNat)

theorem computeChecksum_eq
    (x : PacketBuffer) :
    x.computeChecksum = x.cleared >>= addUp := by
  unfold computeChecksum cleared
  dsimp only
  split
  · cases (x.setInteger .checksum 0).pad
        (x.setInteger .checksum 0).packetEnd with
    | error fault => simp [Except.map]
    | ok y =>
        simp only [ok_bind, pure_eq_ok, Except.map, addUp,
          throw_eq_error]
  · simp only [ok_bind, pure_eq_ok, addUp, throw_eq_error]

theorem fits_checksum
    (v : BitVec 64) :
    Field.checksum.Fits v :=
  Field.fits_of_bits_ne (by decide) v

/- A byte set to zero leaves no bit set. -/
theorem bit_update_zero
    (mem : Memory)
    (a k : Nat) :
    bit (Function.update mem a 0) k =
      if k / 8 = a then false else bit mem k := by
  unfold bit
  by_cases hEq : k / 8 = a
  · rw [if_pos hEq, hEq, Function.update_self]
    simp
  · rw [if_neg hEq, Function.update_of_ne hEq]

/- The packet is cleared, and padded at its end. -/
theorem cleared_ok
    {x y : PacketBuffer}
    {eo : Int}
    (hCleared : x.cleared = .ok (y, eo)) :
    y.size = x.size ∧
      ((y = x.setInteger .checksum 0 ∧
          (x.packetEnd - headroom) % 2 = 0 ∧
          eo = x.packetEnd) ∨
        (0 ≤ x.packetEnd ∧
          (x.packetEnd - headroom) % 2 ≠ 0 ∧
          eo = x.packetEnd + 1 ∧
          y.memory = Function.update
            (x.setInteger .checksum 0).memory
            x.packetEnd.toNat 0)) := by
  have hEnd : (x.setInteger .checksum 0).packetEnd =
      x.packetEnd := by
    rw [packetEnd, getInteger_setInteger_ne
      (fits_checksum _) (by decide), packetEnd]
  unfold cleared at hCleared
  simp only [hEnd] at hCleared
  split at hCleared
  · next hOdd =>
      unfold pad at hCleared
      split at hCleared
      · next hIn =>
          cases hCleared
          exact ⟨setInteger_size _ _ _,
            Or.inr ⟨hIn.1, hOdd, rfl, rfl⟩⟩
      · cases hCleared
  · next hEven =>
      cases hCleared
      exact ⟨setInteger_size _ _ _,
        Or.inl ⟨rfl, not_not.mp hEven, rfl⟩⟩

/- Only the checksum and the padding are written. -/
theorem cleared_bits
    {x y : PacketBuffer}
    {eo : Int}
    (hCleared : x.cleared = .ok (y, eo))
    (k : Nat) :
    bit y.memory k =
      if (Field.checksum.start ≤ k ∧
          k < Field.checksum.start + Field.checksum.bits) ∨
        ((x.packetEnd - headroom) % 2 ≠ 0 ∧
          k / 8 = x.packetEnd.toNat) then
        false
      else
        bit x.memory k := by
  have hZero := setInteger_bits (fits_checksum 0) x k
  rcases (cleared_ok hCleared).2 with
    ⟨rfl, hEven, -⟩ | ⟨-, hOdd, -, hMemory⟩
  · rw [hZero]
    simp [hEven]
  · rw [hMemory, bit_update_zero, hZero]
    by_cases hPad : k / 8 = x.packetEnd.toNat
    · simp [hPad, hOdd]
    · simp [hPad]

theorem addUp_ok
    {x y : PacketBuffer}
    {eo : Int}
    {s : BitVec 16}
    (hSum : addUp (x, eo) = .ok (y, s)) :
    y = x := by
  simp only [addUp] at hSum
  split at hSum
  · cases hSum
    rfl
  · split at hSum
    · cases hSum
    · cases hSum
      rfl

/- A checksum is computed of a cleared packet. -/
theorem computeChecksum_ok
    {x y : PacketBuffer}
    {s : BitVec 16}
    (hChecksum : x.computeChecksum = .ok (y, s)) :
    ∃ eo, x.cleared = .ok (y, eo) ∧
      addUp (y, eo) = .ok (y, s) := by
  rw [computeChecksum_eq] at hChecksum
  rcases bind_eq_ok_iff.mp hChecksum with
    ⟨⟨z, eo⟩, hCleared, hSum⟩
  cases addUp_ok hSum
  exact ⟨eo, hCleared, hSum⟩

theorem getInteger_checksum_cleared
    {x y : PacketBuffer}
    {eo : Int}
    (hCleared : x.cleared = .ok (y, eo)) :
    y.getInteger .checksum = 0 := by
  apply BitVec.eq_of_getLsbD_eq
  intro i hi
  rw [getInteger_bits .checksum y hi]
  split
  · next hIn =>
      rw [cleared_bits hCleared, if_pos]
      · simp
      · exact Or.inl ⟨by omega, by omega⟩
  · simp [Field.signed]

/-
  A packet at least as long as its headers, of which the
  length plus the headroom does not overflow, ends behind
  the headers.
-/
theorem packetEnd_of_sized
    {x : PacketBuffer}
    (hSized : (38 : Int) ≤
      (x.getInteger .computedTotalLen).toInt) :
    x.packetEnd < 0 ∨
      x.packetEnd =
        (x.getInteger .computedTotalLen).toInt + 24 := by
  have hCanon := canon_getInteger .computedTotalLen x
  generalize hLen : x.getInteger .computedTotalLen = len
    at hSized hCanon
  have hWord : len.toInt = (len.setWidth 32).toInt := by
    conv_lhs => rw [← hCanon]
    simp only [Field.canon, Field.signed, Field.bits, if_true]
    exact BitVec.toInt_signExtend_of_le (by decide)
  rw [packetEnd, hLen, hWord, headroom]
  rw [hWord] at hSized
  generalize len.setWidth 32 = w at hSized
  have hUpper := w.toInt_lt
  rw [BitVec.toInt_add, Int.bmod]
  have hHeadroom : (BitVec.ofNat 32 24).toInt = 24 := by decide
  rw [hHeadroom]
  omega

/- The members of a packet of its headers' size are kept. -/
theorem getInteger_cleared
    {f : Field}
    {x y : PacketBuffer}
    {eo : Int}
    (hCleared : x.cleared = .ok (y, eo))
    (hNe : f ≠ .checksum)
    (hSized : (38 : Int) ≤
      (x.getInteger .computedTotalLen).toInt) :
    y.getInteger f = x.getInteger f := by
  have hApart := Field.apart hNe
  have hEnd := f.start_add_bits_le
  have hPacket := packetEnd_of_sized hSized
  apply getInteger_congr
  intro k hFrom hTo
  rw [cleared_bits hCleared, if_neg]
  rintro (hIn | ⟨hOdd, hPad⟩)
  · omega
  · rcases (cleared_ok hCleared).2 with
      ⟨-, hEven, -⟩ | ⟨hNonneg, -⟩
    · exact hOdd hEven
    · omega

/- A second checksum starts from the same packet. -/
theorem cleared_again
    {x y : PacketBuffer}
    {eo : Int}
    (v : BitVec 64)
    (hCleared : x.cleared = .ok (y, eo))
    (hSized : (38 : Int) ≤
      (x.getInteger .computedTotalLen).toInt) :
    (y.setInteger .checksum v).cleared = .ok (y, eo) := by
  let z := y.setInteger .checksum v
  have hZero : z.setInteger .checksum 0 = y := by
    apply eq_of_bit_eq (by simp [z])
    intro k
    rw [setInteger_bits (fits_checksum 0),
      setInteger_bits (fits_checksum v)]
    by_cases hIn : Field.checksum.start ≤ k ∧
        k < Field.checksum.start + Field.checksum.bits
    · rw [if_pos hIn, cleared_bits hCleared,
        if_pos (Or.inl hIn)]
      simp
    · rw [if_neg hIn, if_neg hIn]
  have hEnd : y.packetEnd = x.packetEnd := by
    rw [packetEnd, getInteger_cleared hCleared (by decide)
      hSized, packetEnd]
  have hSize := (cleared_ok hCleared).1
  unfold cleared at hCleared ⊢
  simp only [z] at hZero
  rw [hZero]
  have hEnd' : (x.setInteger .checksum 0).packetEnd =
      x.packetEnd := by
    rw [packetEnd, getInteger_setInteger_ne
      (fits_checksum _) (by decide), packetEnd]
  simp only [hEnd, hEnd'] at hCleared ⊢
  split at hCleared
  · next hOdd =>
      rw [if_pos hOdd]
      unfold pad at hCleared ⊢
      split at hCleared
      · next hIn =>
          rw [setInteger_size, ← hSize] at hIn
          rw [if_pos hIn]
          cases hCleared
          simp [Except.map]
      · cases hCleared
  · next hEven =>
      rw [if_neg hEven]
      cases hCleared
      rfl

theorem readPayload_cleared
    {n : Nat}
    {x y : PacketBuffer}
    {eo : Int}
    (hCleared : x.cleared = .ok (y, eo))
    (hLength : ((38 + n : Nat) : Int) ≤
      (x.getInteger .computedTotalLen).toInt) :
    y.readPayload n = x.readPayload n := by
  have hPacket := packetEnd_of_sized (x := x) (by omega)
  apply readPayload_congr (cleared_ok hCleared).1
  intro a hFrom hTo
  unfold payloadStart at hFrom hTo
  apply byte_eq_of_bit_eq
  intro i hi
  rw [cleared_bits hCleared, if_neg]
  simp only [Field.start, Field.bits]
  rintro (hIn | ⟨hOdd, hPad⟩)
  · omega
  · rcases (cleared_ok hCleared).2 with
      ⟨-, hEven, -⟩ | ⟨hNonneg, -⟩
    · exact hOdd hEven
    · omega

end PacketBuffer

------------------------------------------------------------
-- The Format
------------------------------------------------------------

/-
  The packets of the NO_COMPAT stack. Their headers take
  `get_total_size() - 1 - get_headroom()` bytes on the wire.
-/
def netPacketFormat : PacketFormat PacketBuffer where
  headerLen := 38
  headerLen_lt := by decide
  getInteger f x := x.getInteger f
  setInteger f v x := x.setInteger f v
  writePayload bytes x := x.writePayload bytes
  readPayload n x := x.readPayload n
  computeChecksum x := x.computeChecksum
  get_canon f x := x.canon_getInteger f
  get_set_self _ _ x hFits :=
    x.getInteger_setInteger_self hFits
  get_set_ne _ _ _ x hFits hNe :=
    x.getInteger_setInteger_ne hFits hNe
  set_get f x := x.setInteger_getInteger f
  read_set _ _ n x hFits := x.readPayload_setInteger hFits n
  write_get f _ _ _ hWrite :=
    PacketBuffer.getInteger_writePayload hWrite f
  write_read _ _ _ hWrite :=
    PacketBuffer.readPayload_writePayload hWrite
  write_length bytes x y hWrite := by
    have hSize := x.size_lt
    unfold PacketBuffer.writePayload payloadStart at hWrite
    split at hWrite
    · omega
    · cases hWrite
  checksum_get_self _ _ _ hChecksum := by
    rcases PacketBuffer.computeChecksum_ok hChecksum with
      ⟨eo, hCleared, -⟩
    exact PacketBuffer.getInteger_checksum_cleared hCleared
  checksum_get_ne _ _ _ _ hChecksum hNe hSized := by
    rcases PacketBuffer.computeChecksum_ok hChecksum with
      ⟨eo, hCleared, -⟩
    exact PacketBuffer.getInteger_cleared hCleared hNe hSized
  checksum_again v _ _ _ hChecksum hSized := by
    rcases PacketBuffer.computeChecksum_ok hChecksum with
      ⟨eo, hCleared, hSum⟩
    rw [PacketBuffer.computeChecksum_eq,
      PacketBuffer.cleared_again v hCleared hSized, ok_bind,
      hSum]
  checksum_read _ _ _ _ hChecksum hLength := by
    rcases PacketBuffer.computeChecksum_ok hChecksum with
      ⟨eo, hCleared, -⟩
    exact PacketBuffer.readPayload_cleared hCleared hLength

end NetBlocks
