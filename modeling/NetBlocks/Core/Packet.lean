import NetBlocks.Lib.Runs
import Mathlib.Algebra.Group.Nat.Defs

/-
  What the protocol modules see of a packet: the registered
  header members, and the operations a packet layout offers
  on a packet buffer.

  A `PacketFormat` is a layout together with the facts its
  members satisfy when they keep to their own bits. The
  modules are written against it; the byte layout of the
  repository is one such format.

  Main declarations:
    * `Fault`, the ways in which the program can stop
    * `Field`, the header members of the NO_COMPAT stack
    * `PacketFormat` and `PacketFormat.SameWire`
-/

------------------------------------------------------------
-- Faults
------------------------------------------------------------

namespace NetBlocks

/-
  How an execution can end without returning: a failed
  `nb__assert`, an access that C leaves undefined, or a loop
  that never ends.
-/
inductive Fault where
| assertion (message : String)
| nullPointer
| danglingPointer
| outOfBounds
| undefinedShift
| diverges
deriving DecidableEq, Repr

/- A byte of a packet buffer. -/
abbrev Byte := BitVec 8

/- Address of a packet buffer; `NULL` is `none`. -/
abbrev PacketPtr := Nat

/- Address of a connection object; `NULL` is zero. -/
abbrev ConnPtr := BitVec 64

------------------------------------------------------------
-- Header Members
------------------------------------------------------------

/- The integer members the NO_COMPAT modules register. -/
inductive Field where
| computedTotalLen
| isSignaling
| flowIdentifier
| redeliveryTimer
| dstHostId
| srcHostId
| dstGlobalId
| srcGlobalId
| dstAppId
| srcAppId
| totalLen
| sequenceNumber
| ackSequenceNumber
| checksum
deriving DecidableEq, Repr

namespace Field

/- Width of a member in bits. -/
def bits : Field → Nat
| computedTotalLen => 32
| isSignaling => 32
| flowIdentifier => 64
| redeliveryTimer => 64
| dstHostId => 48
| srcHostId => 48
| dstGlobalId => 32
| srcGlobalId => 32
| dstAppId => 16
| srcAppId => 16
| totalLen => 32
| sequenceNumber => 32
| ackSequenceNumber => 32
| checksum => 16

/- The members declared with the signed type `int`. -/
def signed : Field → Bool
| computedTotalLen => true
| isSignaling => true
| totalLen => true
| _ => false

/- Group 0 holds the members that are never sent. -/
def onWire : Field → Bool
| computedTotalLen => false
| isSignaling => false
| flowIdentifier => false
| redeliveryTimer => false
| _ => true

/-
  A value as the member stores and returns it: truncated to
  the member's width, then converted back to 64 bits.
-/
def canon
    (f : Field)
    (value : BitVec 64) : BitVec 64 :=
  if f.signed then
    (value.setWidth f.bits).signExtend 64
  else
    (value.setWidth f.bits).setWidth 64

/-
  The host ids take 48 bits of a 64-bit type, and a larger
  value spills into the next member. Every other member
  fills its type, which truncates.
-/
def Fits
    (f : Field)
    (value : BitVec 64) : Prop :=
  f = dstHostId ∨ f = srcHostId → value.toNat < 2 ^ 48

instance (f : Field) (value : BitVec 64) :
    Decidable (f.Fits value) := by
  unfold Fits
  infer_instance

/- Only the host ids can be given too large a value. -/
theorem fits_of_bits_ne
    {f : Field}
    (hBits : f.bits ≠ 48)
    (value : BitVec 64) :
    f.Fits value := by
  rintro (rfl | rfl) <;> exact absurd rfl hBits

/- A 32-bit member keeps the low 32 bits of a value. -/
theorem setWidth_canon
    {f : Field}
    (hBits : f.bits = 32)
    (value : BitVec 64) :
    (f.canon value).setWidth 32 = value.setWidth 32 := by
  unfold canon
  rw [hBits]
  split
  · ext i hi
    have hWide : i < 64 := by omega
    simp [BitVec.getElem_signExtend, hi, hWide]
  · ext i hi
    simp

end Field

------------------------------------------------------------
-- Packet Formats
------------------------------------------------------------

/-
  A packet layout over buffers of type `P`.

  `headerLen` is the number of wire bytes before the
  payload, `get_total_size() - 1 - get_headroom()`.
  `writePayload` is the `memcpy` to the payload's address
  and `readPayload` reads from it. `computeChecksum` also
  returns the buffer, since it clears the checksum and pads.
  The padding of a packet shorter than its headers falls
  into them, so nothing is said of the members then.
-/
structure PacketFormat (P : Type) where
  headerLen : Nat
  headerLen_lt : headerLen + 1 < 2 ^ 31
  getInteger : Field → P → BitVec 64
  setInteger : Field → BitVec 64 → P → P
  writePayload : List Byte → P → Except Fault P
  readPayload : Nat → P → Except Fault (List Byte)
  computeChecksum : P → Except Fault (P × BitVec 16)
  get_canon : ∀ f x,
    f.canon (getInteger f x) = getInteger f x
  get_set_self : ∀ f v x,
    f.Fits v → getInteger f (setInteger f v x) = f.canon v
  get_set_ne : ∀ f g v x,
    f.Fits v → g ≠ f →
      getInteger g (setInteger f v x) = getInteger g x
  set_get : ∀ f x, setInteger f (getInteger f x) x = x
  read_set : ∀ f v n x,
    f.Fits v →
      readPayload n (setInteger f v x) = readPayload n x
  write_get : ∀ f bytes x y,
    writePayload bytes x = .ok y →
      getInteger f y = getInteger f x
  write_read : ∀ bytes x y,
    writePayload bytes x = .ok y →
      readPayload bytes.length y = .ok bytes
  write_length : ∀ bytes x y,
    writePayload bytes x = .ok y →
      headerLen + bytes.length < 2 ^ 31
  checksum_get_self : ∀ x y s,
    computeChecksum x = .ok (y, s) →
      getInteger .checksum y = 0
  checksum_get_ne : ∀ f x y s,
    computeChecksum x = .ok (y, s) → f ≠ .checksum →
      (headerLen : Int) ≤
        (getInteger .computedTotalLen x).toInt →
        getInteger f y = getInteger f x
  checksum_again : ∀ v x y s,
    computeChecksum x = .ok (y, s) →
      (headerLen : Int) ≤
        (getInteger .computedTotalLen x).toInt →
        computeChecksum (setInteger .checksum v y) =
          .ok (y, s)
  checksum_read : ∀ n x y s,
    computeChecksum x = .ok (y, s) →
      ((headerLen + n : Nat) : Int) ≤
        (getInteger .computedTotalLen x).toInt →
        readPayload n y = readPayload n x

namespace PacketFormat

variable {P : Type} (fmt : PacketFormat P)

/- A member read into a variable of a 32-bit type. -/
def getWord
    (f : Field)
    (x : P) : BitVec 32 :=
  (fmt.getInteger f x).setWidth 32

/- A member assigned from a variable of type `unsigned`. -/
def setWord
    (f : Field)
    (value : BitVec 32)
    (x : P) : P :=
  fmt.setInteger f (value.setWidth 64) x

/-
  The assignment three ingress hooks make: take the packet's
  length from the header it was sent with.
-/
def restoreTotalLen
    (x : P) : P :=
  fmt.setInteger .computedTotalLen
    (fmt.getInteger .totalLen x) x

/-
  The length of the payload as the ingress side computes it
  from the length of the whole packet.
-/
def payloadLen
    (x : P) : Int :=
  (fmt.getWord .computedTotalLen x -
    BitVec.ofNat 32 fmt.headerLen).toInt

/- A packet is at least as long as its headers. -/
def Sized
    (x : P) : Prop :=
  (fmt.headerLen : Int) ≤
    (fmt.getInteger .computedTotalLen x).toInt

/-
  `y` holds the wire bytes of `x`, a packet of `len` bytes:
  the sent members and the payload agree. Nothing is said
  about the members of group 0, nor about later bytes.
-/
structure SameWire
    (len : Int)
    (x y : P) : Prop where
  fields : ∀ f, f.onWire = true →
    fmt.getInteger f y = fmt.getInteger f x
  payload : ∀ n : Nat, ((fmt.headerLen + n : Nat) : Int) ≤ len →
    fmt.readPayload n y = fmt.readPayload n x

variable {fmt}

@[simp] theorem getWord_setInteger_ne
    {f g : Field}
    {v : BitVec 64}
    {x : P}
    (hFits : f.Fits v)
    (hNe : g ≠ f) :
    fmt.getWord g (fmt.setInteger f v x) =
      fmt.getWord g x := by
  rw [getWord, fmt.get_set_ne f g v x hFits hNe, getWord]

/- A 32-bit member returns the low 32 bits it was given. -/
theorem getWord_setInteger_self
    {f : Field}
    {v : BitVec 64}
    {x : P}
    (hBits : f.bits = 32) :
    fmt.getWord f (fmt.setInteger f v x) =
      v.setWidth 32 := by
  have hFits : f.Fits v :=
    f.fits_of_bits_ne (by simp [hBits]) v
  rw [getWord, fmt.get_set_self f v x hFits,
    Field.setWidth_canon hBits]

/- A 32-bit member returns the word it was given. -/
theorem getWord_setWord_self
    {f : Field}
    {v : BitVec 32}
    {x : P}
    (hBits : f.bits = 32) :
    fmt.getWord f (fmt.setWord f v x) = v := by
  rw [setWord, getWord_setInteger_self hBits]
  ext i hi
  simp

/- A member of type `int` is read as the word it holds. -/
theorem toInt_getInteger
    {f : Field}
    (hBits : f.bits = 32)
    (hSigned : f.signed = true)
    (x : P) :
    (fmt.getInteger f x).toInt = (fmt.getWord f x).toInt := by
  have hCanon := fmt.get_canon f x
  rw [Field.canon, if_pos hSigned, hBits] at hCanon
  rw [← hCanon, BitVec.toInt_signExtend_of_le (by decide),
    getWord, ← hCanon]

theorem sized_congr
    {x y : P}
    (hSame : fmt.getInteger .computedTotalLen y =
      fmt.getInteger .computedTotalLen x) :
    fmt.Sized y ↔ fmt.Sized x := by
  rw [Sized, Sized, hSame]

end PacketFormat

end NetBlocks
