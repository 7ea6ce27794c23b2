import NetBlocks.Lib.Runs
import NetBlocks.Runtime.Mlx5Transport
import NetBlocks.Stack.Ingress

/-
  Packets in the ring of receive buffers of the mlx5
  transport. The members that are not sent are at the end of
  the buffer before that of the packet, so that processing a
  packet spares the others if those before it are short.

  Main declarations:
    * `PacketStack.runIngress`
    * `ReceiveRing` and `RingSteps`
    * `ReceiveRing.KeepsApart`
    * `intact_of_run`
-/

namespace NetBlocks

open ByteMemory Except TransitionSystem

------------------------------------------------------------
-- Stores of the Ingress Hooks
------------------------------------------------------------

namespace PacketStack

variable {stack : PacketStack}

/- Bytes behind the buffer of a packet stay as they are. -/
def KeepsBehind
    (stack : PacketStack)
    (mem mem' : Memory) : Prop :=
  ∀ a, stack.headroom + ibvFrameSize ≤ a → mem' a = mem a

/- Bytes of the buffer stay as they are, too. -/
def KeepsBuffer
    (stack : PacketStack)
    (mem mem' : Memory) : Prop :=
  ∀ a, stack.headroom ≤ a → mem' a = mem a

theorem KeepsBuffer.keepsBehind
    {mem mem' : Memory}
    (hKeeps : stack.KeepsBuffer mem mem') :
    stack.KeepsBehind mem mem' :=
  fun a hLe => hKeeps a (Nat.le_trans (Nat.le_add_right _ _)
    hLe)

theorem KeepsBehind.trans
    {mem mem₁ mem₂ : Memory}
    (hFirst : stack.KeepsBehind mem mem₁)
    (hSecond : stack.KeepsBehind mem₁ mem₂) :
    stack.KeepsBehind mem mem₂ :=
  fun a hLe => (hSecond a hLe).trans (hFirst a hLe)

/- Members are near the start of the packet. -/
theorem setInteger_keepsBehind
    {name : StackMember}
    {v : BitVec 64}
    {mem mem' : Memory}
    (hSet : stack.netPacket.setInteger name v mem =
      .ok mem') :
    stack.KeepsBehind mem mem' := by
  intro a hLe
  have hFrame : ibvFrameSize = 1024 := rfl
  apply setInteger_changesOnly hSet
  intro w hMem hHas
  have hInside := (member_inside hMem).2
  have hTo := hHas.2
  omega

/- The length is restored in front of the buffer. -/
theorem restoreTotalLen_keepsBuffer
    {mem mem' : Memory}
    (hRestore : stack.restoreTotalLen mem = .ok mem') :
    stack.KeepsBuffer mem mem' := by
  rcases bind_eq_ok_iff.mp hRestore with ⟨x, -, hSet⟩
  rw [(stack.computedTotalLen_access mem).1] at hSet
  cases hSet
  intro a hLe
  have hHeadroom := stack.le_headroom
  exact store_of_outside _ _ (Or.inr (by
    change 0 + 4 ≤ a
    omega))

theorem inorderIngress_keepsBuffer
    {mem mem' : Memory}
    (hIngress : stack.inorderIngress mem = .ok mem') :
    stack.KeepsBuffer mem mem' := by
  unfold inorderIngress at hIngress
  split at hIngress
  · exact restoreTotalLen_keepsBuffer hIngress
  · cases hIngress
    exact fun _ _ => rfl

theorem payloadIngress_keepsBuffer
    {mem mem' : Memory}
    (hIngress : stack.payloadIngress mem = .ok mem') :
    stack.KeepsBuffer mem mem' := by
  unfold payloadIngress at hIngress
  split at hIngress
  · cases hIngress
    exact fun _ _ => rfl
  · exact restoreTotalLen_keepsBuffer hIngress

/- The member that the checksum takes the length from. -/
def lengthMember
    (stack : PacketStack) : StackMember :=
  if stack.isIPCompat then
    .header .computedTotalLen
  else
    .header .totalLen

/-
  A packet whose checksum is about all of it has an even
  length, or one that ends in its buffer.
-/
def PadsInBuffer
    (stack : PacketStack)
    (mem : Memory) : Prop :=
  stack.options.checksumEnabled = true →
    stack.options.checksumType = .fullPacket →
      ∀ x, stack.netPacket.getInteger stack.lengthMember mem =
        .ok x →
          (x.setWidth 32).toInt % 2 = 0 ∨
            0 ≤ (x.setWidth 32).toInt ∧
              (x.setWidth 32).toInt < ibvFrameSize

/- The headroom is even, as `so` in `compute_checksum` is. -/
theorem headroom_even
    (stack : PacketStack) :
    stack.headroom % 2 = 0 := by
  unfold headroom StackOptions.headroom
  split <;> rfl

/- The checksum's hook finds the length in the buffer. -/
theorem networkIngress_computed
    {mem mem' : Memory}
    (hNetwork : stack.networkIngress mem = .ok mem') :
    stack.KeepsBuffer mem mem' ∧
      ∃ x, stack.netPacket.getInteger stack.lengthMember mem =
          .ok x ∧
        stack.HoldsValue (.header .computedTotalLen)
          (x.setWidth 32) mem' := by
  unfold networkIngress at hNetwork
  unfold lengthMember
  split at hNetwork
  · next hIP =>
      cases hNetwork
      have hGet := (stack.computedTotalLen_access mem).2
      rw [if_pos hIP]
      exact ⟨fun _ _ => rfl, _, hGet, _, hGet, rfl⟩
  · next hIP =>
      rw [if_neg hIP]
      refine ⟨restoreTotalLen_keepsBuffer hNetwork, ?_⟩
      rcases bind_eq_ok_iff.mp hNetwork with ⟨x, hX, hSet⟩
      rw [(stack.computedTotalLen_access mem).1] at hSet
      cases hSet
      exact ⟨x, hX, _, (stack.computedTotalLen_access _).2,
        IntegerMember.readType_writeType .int mem 0 x⟩

/- The padding is in the buffer of the packet. -/
theorem pad_keepsBehind
    {mem mem' : Memory}
    {v : BitVec 32}
    {eo : Int}
    (hPads : stack.options.checksumType = .fullPacket →
      v.toInt % 2 = 0 ∨ 0 ≤ v.toInt ∧ v.toInt < ibvFrameSize)
    (hComputed : stack.HoldsValue (.header .computedTotalLen)
      v mem)
    (hEnd : stack.checksumEnd mem = .ok eo)
    (hOdd : (eo - stack.headroom) % 2 ≠ 0)
    (hPad : pad eo mem = .ok mem') :
    stack.KeepsBehind mem mem' := by
  have hFrame : ibvFrameSize = 1024 := rfl
  have hEven := stack.headroom_even
  have hSize := stack.headroom_add
  have hLt : eo < stack.headroom + ibvFrameSize := by
    unfold checksumEnd at hEnd
    cases hType : stack.options.checksumType with
    | headerOnly =>
        simp only [hType] at hEnd
        cases hEnd
        omega
    | fullPacket =>
        rcases hComputed with ⟨x, hX, hValue⟩
        simp only [hType, hX, ok_bind, hValue] at hEnd
        cases hEnd
        have hIn := hPads hType
        simp only [BitVec.toInt_eq_toNat_cond,
          BitVec.toNat_add, BitVec.toNat_ofNat] at hIn hOdd ⊢
        omega
  unfold pad at hPad
  split at hPad
  · cases hPad
    intro a hLe
    exact Function.update_of_ne (by omega) _ _
  · cases hPad

theorem checksumIngress_keepsBehind
    {mem : Memory}
    {v : BitVec 32}
    {r : HookStatus × Memory}
    (hPads : stack.options.checksumType = .fullPacket →
      v.toInt % 2 = 0 ∨ 0 ≤ v.toInt ∧ v.toInt < ibvFrameSize)
    (hComputed : stack.HoldsValue (.header .computedTotalLen)
      v mem)
    (hIngress : stack.checksumIngress mem = .ok r) :
    stack.KeepsBehind mem r.2 := by
  rcases bind_eq_ok_iff.mp hIngress with ⟨saved, -, hRest⟩
  rcases bind_eq_ok_iff.mp hRest with ⟨sum, hCompute, hRest⟩
  rcases bind_eq_ok_iff.mp hRest with ⟨mem₃, hSaved, hLast⟩
  rcases bind_eq_ok_iff.mp hCompute with
    ⟨mem₁, hClear, hCompute⟩
  rcases bind_eq_ok_iff.mp hCompute with ⟨eo, hEnd, hCompute⟩
  have hFirst := setInteger_keepsBehind hClear
  have hKept : stack.HoldsValue (.header .computedTotalLen)
      v mem₁ :=
    hComputed.congr (getInteger_computed (fun a hLt =>
      setInteger_changesOnly hClear a (fun w hMem =>
        sparesLen_member (by decide) w hMem a hLt)))
  have hPadded : stack.KeepsBehind mem₁ sum.1 := by
    split at hCompute
    · next hOdd =>
        rcases bind_eq_ok_iff.mp hCompute with
          ⟨mem₂, hPad, hSum⟩
        cases hSum
        exact pad_keepsBehind hPads hKept hEnd hOdd hPad
    · cases hCompute
      exact fun _ _ => rfl
  have hAll := hFirst.trans
    (hPadded.trans (setInteger_keepsBehind hSaved))
  split at hLast
  · cases hLast
    exact hAll
  · cases hLast
    exact hAll

/- The hooks of the other modules only set members. -/
theorem hookIngress_keepsBehind
    {flow : Option (BitVec 64)}
    {m : Module}
    {mem : Memory}
    {r : HookStatus × Memory}
    (hChecksum : m ≠ .checksum)
    (hHook : stack.hookIngress flow m mem = .ok r) :
    stack.KeepsBehind mem r.2 := by
  cases m with
  | checksum => exact absurd rfl hChecksum
  | network =>
      rcases map_eq_ok_iff.mp hHook with ⟨mem', hNetwork, rfl⟩
      exact (networkIngress_computed hNetwork).1.keepsBehind
  | routing =>
      rcases map_eq_ok_iff.mp hHook with ⟨mem', hRouting, rfl⟩
      unfold routingIngress at hRouting
      split at hRouting
      · rcases bind_eq_ok_iff.mp hRouting with ⟨len, -, hSet⟩
        exact setInteger_keepsBehind hSet
      · cases hRouting
        exact fun _ _ => rfl
  | identifier =>
      simp only [hookIngress, identifierIngress] at hHook
      split at hHook
      · rcases bind_eq_ok_iff.mp hHook with ⟨mem', hSet, hRest⟩
        cases hRest
        exact setInteger_keepsBehind hSet
      · cases hHook
        exact fun _ _ => rfl
  | reliable =>
      rcases bind_eq_ok_iff.mp hHook with ⟨ackSeq, -, hRest⟩
      split at hRest <;> cases hRest <;> exact fun _ _ => rfl
  | payload | signaling | inorder | signalingAfter =>
      cases hHook
      exact fun _ _ => rfl

theorem runIngressHooks_keepsBehind
    {flow : Option (BitVec 64)}
    {modules : List Module}
    {mem : Memory}
    {r : HookStatus × Memory}
    (hChecksum : .checksum ∉ modules)
    (hRun : stack.runIngressHooks flow modules mem = .ok r) :
    stack.KeepsBehind mem r.2 := by
  induction modules generalizing mem with
  | nil =>
      cases hRun
      exact fun _ _ => rfl
  | cons m modules ih =>
      rw [List.mem_cons, not_or] at hChecksum
      rcases bind_eq_ok_iff.mp hRun with
        ⟨⟨status, mem₁⟩, hHook, hRest⟩
      have hFirst := hookIngress_keepsBehind
        (Ne.symm hChecksum.1) hHook
      cases status with
      | hookDrop =>
          cases hRest
          exact hFirst
      | hookContinue =>
          exact hFirst.trans (ih hChecksum.2 hRest)

/- The modules behind the checksum's, before the inorder one. -/
theorem frontModules_eq
    (stack : PacketStack) :
    ∃ modules, stack.frontModules =
        .network :: ((if stack.options.checksumEnabled then
          [.checksum]
        else
          []) ++ modules) ∧
      .checksum ∉ modules := by
  refine ⟨(if stack.options.routingEnabled then
      [.routing]
    else
      []) ++ [.signalingAfter, .identifier] ++
    if stack.options.reliableEnabled then [.reliable] else [],
    ?_, ?_⟩
  · simp [frontModules, NetBlocks.frontModules]
  · split_ifs <;> decide

/- Up to the inorder module, hooks store near the packet. -/
theorem runFrontHooks_keepsBehind
    {flow : Option (BitVec 64)}
    {mem : Memory}
    {r : HookStatus × Memory}
    (hPads : stack.PadsInBuffer mem)
    (hRun : stack.runFrontHooks flow mem = .ok r) :
    stack.KeepsBehind mem r.2 := by
  rcases stack.frontModules_eq with
    ⟨modules, hModules, hChecksum⟩
  rw [runFrontHooks, hModules, runIngressHooks] at hRun
  rcases bind_eq_ok_iff.mp hRun with
    ⟨⟨status, mem₁⟩, hNetwork, hRest⟩
  rcases map_eq_ok_iff.mp hNetwork with ⟨_, hNetwork, hEq⟩
  cases hEq
  rcases networkIngress_computed hNetwork with
    ⟨hFirst, x, hX, hComputed⟩
  refine hFirst.keepsBehind.trans ?_
  dsimp only at hRest
  split at hRest
  · next hEnabled =>
      rw [List.singleton_append, runIngressHooks] at hRest
      rcases bind_eq_ok_iff.mp hRest with
        ⟨⟨status, mem₂⟩, hHook, hRest⟩
      have hSecond := checksumIngress_keepsBehind
        (fun hFull => hPads hEnabled hFull x hX) hComputed
        hHook
      cases status with
      | hookDrop =>
          cases hRest
          exact hSecond
      | hookContinue =>
          exact hSecond.trans
            (runIngressHooks_keepsBehind hChecksum hRest)
  · rw [List.nil_append] at hRest
    exact runIngressHooks_keepsBehind hChecksum hRest

end PacketStack

------------------------------------------------------------
-- The Ring
------------------------------------------------------------

/-
  The memory from `headroom` bytes before the receive buffers
  on, and the packets that are in the 4096 buffers: the bytes
  of each, as they were received or as the last ingress path
  that was run on the packet itself left them.
-/
structure ReceiveRing where
  memory : Memory
  held : Nat → Option (List Byte)

/- A packet's address, of which its members are counted. -/
def packetPtr
    (i : Nat) : Nat :=
  ibvFrameSize * i

/- The address of a buffer, and of the packet's first byte. -/
def PacketStack.bufferAddr
    (stack : PacketStack)
    (i : Nat) : Nat :=
  packetPtr i + stack.headroom

/- Polling returns the packets of the ring in rotation. -/
theorem pollPacket_packetPtr
    (stack : PacketStack)
    {p : Int}
    {size : Nat}
    {t t' : Mlx5Transport}
    (hPoll : t.pollPacket stack.headroom =
      (some p, size, t')) :
    p = t.recvBuffer - stack.headroom +
        packetPtr t.recvBufferIndex ∧
      t'.recvBufferIndex = (t.recvBufferIndex + 1) % 4096 := by
  rcases Mlx5Transport.pollPacket_addr hPoll with
    ⟨hAddr, hNext⟩
  refine ⟨hAddr.trans ?_, hNext⟩
  rw [packetPtr, Nat.cast_mul]

/-
  What happens to the ring. In `ingress`, `flow` is what the
  identifier module finds, `taken` are the packets that the
  inorder module takes, and `passes` is whether it goes on
  with the packet.
-/
inductive RingEvent where
| receives (i : Nat) (bytes : List Byte)
| ingress
    (i : Nat)
    (flow : Option (BitVec 64))
    (taken : List Nat)
    (passes : Bool)

namespace PacketStack

variable (stack : PacketStack)

/- Run a hook on a packet of the ring. -/
def onPacket
    (i : Nat)
    (hook : Memory → Except Fault Memory)
    (mem : Memory) : Except Fault Memory := do
  let w ← hook (window mem (packetPtr i))
  return patch mem (packetPtr i) w

/- `framework::run_ingress_path`, on a packet of the ring -/
def runIngress
    (i : Nat)
    (flow : Option (BitVec 64))
    (taken : List Nat)
    (passes : Bool)
    (mem : Memory) : Except Fault Memory := do
  let (status, w) ← stack.runFrontHooks flow
    (window mem (packetPtr i))
  let mem := patch mem (packetPtr i) w
  match status with
  | .hookDrop => return mem
  | .hookContinue => do
      let mem ← taken.foldlM
        (fun mem j => onPacket j stack.inorderIngress mem) mem
      if passes then
        onPacket i stack.payloadIngress mem
      else
        return mem

end PacketStack

/-
  Packets are received into their buffers, and processed when
  they are polled, or again when they are accepted.
-/
inductive RingSteps
    (stack : PacketStack) :
    ReceiveRing → RingEvent → ReceiveRing → Prop
| receives
    {r : ReceiveRing}
    {i : Nat}
    {bytes : List Byte}
    {mem : Memory} :
    i < 4096 →
    bytes.length ≤ mlx5Mtu →
    (∀ a, a < stack.bufferAddr i ∨
      stack.bufferAddr i + ibvFrameSize ≤ a →
        mem a = r.memory a) →
    bytesAt mem (stack.bufferAddr i) bytes.length = bytes →
    RingSteps stack r (.receives i bytes)
      ⟨mem, Function.update r.held i (some bytes)⟩
| ingress
    {r : ReceiveRing}
    {i : Nat}
    {flow : Option (BitVec 64)}
    {taken : List Nat}
    {passes : Bool}
    {bytes : List Byte}
    {mem : Memory} :
    r.held i = some bytes →
    (∀ j ∈ taken, (r.held j).isSome) →
    stack.runIngress i flow taken passes r.memory = .ok mem →
    RingSteps stack r (.ingress i flow taken passes)
      ⟨mem, Function.update r.held i
        (some (bytesAt mem (stack.bufferAddr i)
          bytes.length))⟩

namespace PacketStack

variable {stack : PacketStack}

------------------------------------------------------------
-- Stores in the Ring
------------------------------------------------------------

theorem onPacket_frame
    {i n : Nat}
    {hook : Memory → Except Fault Memory}
    {mem mem' : Memory}
    (hHook : ∀ w w', hook w = .ok w' →
      ∀ a, n ≤ a → w' a = w a)
    (hOn : onPacket i hook mem = .ok mem') :
    ∀ a, a < packetPtr i ∨ packetPtr i + n ≤ a →
      mem' a = mem a := by
  intro a hOutside
  rcases bind_eq_ok_iff.mp hOn with ⟨w, hRun, hPatch⟩
  cases hPatch
  exact patch_of_outside (hHook _ _ hRun) hOutside

/- Packets that are taken are stored to before their buffers. -/
theorem taken_frame
    {taken : List Nat}
    {mem mem' : Memory}
    (hTaken : taken.foldlM (fun mem j =>
      onPacket j stack.inorderIngress mem) mem = .ok mem') :
    ∀ a, (∀ j ∈ taken, a < packetPtr j ∨
      stack.bufferAddr j ≤ a) → mem' a = mem a := by
  induction taken generalizing mem with
  | nil =>
      cases hTaken
      exact fun _ _ => rfl
  | cons j taken ih =>
      intro a hOutside
      rw [List.foldlM_cons] at hTaken
      rcases bind_eq_ok_iff.mp hTaken with ⟨mem₁, hOn, hRest⟩
      rw [ih hRest a (fun k hMem =>
        hOutside k (List.mem_cons_of_mem _ hMem))]
      exact onPacket_frame
        (fun _ _ hHook => inorderIngress_keepsBuffer hHook) hOn
        a (hOutside j (List.mem_cons_self ..))

/-
  A run of the ingress path stores to the packet's buffer, and
  to the bytes before it and before those that are taken.
-/
theorem runIngress_frame
    {i : Nat}
    {flow : Option (BitVec 64)}
    {taken : List Nat}
    {passes : Bool}
    {mem mem' : Memory}
    (hPads : stack.PadsInBuffer (window mem (packetPtr i)))
    (hRun : stack.runIngress i flow taken passes mem =
      .ok mem') :
    ∀ a, (a < packetPtr i ∨
        stack.bufferAddr i + ibvFrameSize ≤ a) →
      (∀ j ∈ taken, a < packetPtr j ∨
        stack.bufferAddr j ≤ a) →
      mem' a = mem a := by
  intro a hOwn hOthers
  rcases bind_eq_ok_iff.mp hRun with
    ⟨⟨status, w⟩, hFront, hRest⟩
  have hFirst : patch mem (packetPtr i) w a = mem a := by
    refine patch_of_outside
      (runFrontHooks_keepsBehind hPads hFront) ?_
    unfold bufferAddr at hOwn
    omega
  cases status with
  | hookDrop =>
      cases hRest
      exact hFirst
  | hookContinue =>
      rcases bind_eq_ok_iff.mp hRest with
        ⟨mem₂, hTaken, hLast⟩
      have hSecond := taken_frame hTaken a hOthers
      split at hLast
      · have hThird := onPacket_frame
          (fun _ _ hHook => payloadIngress_keepsBuffer hHook)
          hLast a (by
            unfold bufferAddr at hOwn
            omega)
        rw [hThird, hSecond, hFirst]
      · cases hLast
        rw [hSecond, hFirst]

end PacketStack

namespace ReceiveRing

variable {stack : PacketStack}

------------------------------------------------------------
-- Intact Packets
------------------------------------------------------------

/-
  Each packet is in its buffer as it was received, or as its
  own ingress path left it.
-/
def Intact
    (stack : PacketStack)
    (r : ReceiveRing) : Prop :=
  ∀ i bytes, r.held i = some bytes →
    bytesAt r.memory (stack.bufferAddr i) bytes.length = bytes

/-
  Any other packet in the buffer before that of packet `j`
  ends before the bytes that belong to `j`.
-/
def ShortBefore
    (stack : PacketStack)
    (r : ReceiveRing)
    (i j : Nat) : Prop :=
  ∀ k bytes, k + 1 = j → k ≠ i → r.held k = some bytes →
    bytes.length + stack.headroom ≤ ibvFrameSize

/-
  Packets before those that are processed are short, and the
  processed packet is padded in its buffer.
-/
def KeepsApart
    (stack : PacketStack)
    (r : ReceiveRing) : RingEvent → Prop
| .receives _ _ => True
| .ingress i _ taken _ =>
    (∀ j ∈ i :: taken, r.ShortBefore stack i j) ∧
      stack.PadsInBuffer (window r.memory (packetPtr i))

/- What holds in a ring whose packets keep apart. -/
structure Kept
    (stack : PacketStack)
    (r : ReceiveRing) : Prop where
  intact : r.Intact stack
  fits : ∀ i bytes, r.held i = some bytes →
    bytes.length ≤ ibvFrameSize

end ReceiveRing

section Ring

variable
    {stack : PacketStack}
    {r r' : ReceiveRing}

/- One packet is replaced, and no other one is stored to. -/
theorem ReceiveRing.Kept.placed
    {i : Nat}
    {bytes : List Byte}
    {mem : Memory}
    (hKept : r.Kept stack)
    (hFits : bytes.length ≤ ibvFrameSize)
    (hBytes : bytesAt mem (stack.bufferAddr i) bytes.length =
      bytes)
    (hOthers : ∀ k other, k ≠ i → r.held k = some other →
      ∀ b, b < other.length →
        mem (stack.bufferAddr k + b) =
          r.memory (stack.bufferAddr k + b)) :
    ReceiveRing.Kept stack
      ⟨mem, Function.update r.held i (some bytes)⟩ := by
  constructor
  · intro k other hHeld
    change Function.update r.held i (some bytes) k = some other
      at hHeld
    by_cases hEq : k = i
    · subst hEq
      rw [Function.update_self] at hHeld
      cases hHeld
      exact hBytes
    · rw [Function.update_of_ne hEq] at hHeld
      have hSame := bytesAt_congr
        (hOthers k other hEq hHeld)
      exact hSame.trans (hKept.intact k other hHeld)
  · intro k other hHeld
    change Function.update r.held i (some bytes) k = some other
      at hHeld
    by_cases hEq : k = i
    · subst hEq
      rw [Function.update_self] at hHeld
      cases hHeld
      exact hFits
    · rw [Function.update_of_ne hEq] at hHeld
      exact hKept.fits k other hHeld

/- A packet is received into its own buffer. -/
theorem ReceiveRing.Kept.received
    {i : Nat}
    {bytes : List Byte}
    {mem : Memory}
    (hKept : r.Kept stack)
    (hFits : bytes.length ≤ mlx5Mtu)
    (hOutside : ∀ a, a < stack.bufferAddr i ∨
      stack.bufferAddr i + ibvFrameSize ≤ a →
        mem a = r.memory a)
    (hBytes : bytesAt mem (stack.bufferAddr i) bytes.length =
      bytes) :
    ReceiveRing.Kept stack
      ⟨mem, Function.update r.held i (some bytes)⟩ := by
  refine hKept.placed hFits hBytes ?_
  intro k other hNe hHeld b hLt
  have hLe := hKept.fits k other hHeld
  apply hOutside
  simp only [PacketStack.bufferAddr, packetPtr,
    ibvFrameSize] at hLe ⊢
  omega

/- Where packets keep apart, one that is processed is alone. -/
theorem ReceiveRing.Kept.processed
    {i : Nat}
    {flow : Option (BitVec 64)}
    {taken : List Nat}
    {passes : Bool}
    {bytes : List Byte}
    {mem : Memory}
    (hKept : r.Kept stack)
    (hApart : r.KeepsApart stack
      (.ingress i flow taken passes))
    (hHeld : r.held i = some bytes)
    (hRun : stack.runIngress i flow taken passes r.memory =
      .ok mem) :
    ReceiveRing.Kept stack
      ⟨mem, Function.update r.held i
        (some (bytesAt mem (stack.bufferAddr i)
          bytes.length))⟩ := by
  rcases hApart with ⟨hShort, hPads⟩
  refine hKept.placed ?_ (by rw [length_bytesAt]) ?_
  · rw [length_bytesAt]
    exact hKept.fits i bytes hHeld
  · intro k other hNe hOther b hLt
    have hLe := hKept.fits k other hOther
    -- a byte of the packet is before or behind what is stored
    have hClear : ∀ j ∈ i :: taken,
        stack.bufferAddr k + b < packetPtr j ∨
          stack.bufferAddr j ≤ stack.bufferAddr k + b := by
      intro j hMem
      have hSize := stack.headroom_add
      by_cases hNext : k + 1 = j
      · have hEnd := hShort j hMem k other hNext hNe hOther
        simp only [PacketStack.bufferAddr, packetPtr,
          ibvFrameSize] at hEnd ⊢
        omega
      · simp only [PacketStack.bufferAddr, packetPtr,
          ibvFrameSize] at hLe ⊢
        omega
    refine PacketStack.runIngress_frame hPads hRun _ ?_
      (fun j hMem => hClear j (List.mem_cons_of_mem _ hMem))
    have hSelf := hClear i (List.mem_cons_self ..)
    simp only [PacketStack.bufferAddr, packetPtr,
      ibvFrameSize] at hLe hSelf ⊢
    omega

theorem RingSteps.kept
    {event : RingEvent}
    (hKept : r.Kept stack)
    (hStep : Guarded (fun r => r.KeepsApart stack)
      (RingSteps stack) r event r') :
    r'.Kept stack := by
  rcases hStep with ⟨hApart, hStep⟩
  cases hStep with
  | receives _ hFits hOutside hBytes =>
      exact hKept.received hFits hOutside hBytes
  | ingress hHeld _ hRun =>
      exact hKept.processed hApart hHeld hRun

end Ring

------------------------------------------------------------
-- Runs
------------------------------------------------------------

/- A ring without packets. -/
def ReceiveRing.start
    (mem : Memory) : ReceiveRing where
  memory := mem
  held := fun _ => none

/-
  In every run in which packets keep apart, each one that is
  in the ring is as it was received, or as the last ingress
  path that was run on itself left it.
-/
theorem intact_of_run
    {stack : PacketStack}
    {mem : Memory}
    {events : List RingEvent}
    {r : ReceiveRing}
    (hRun : Run (Guarded (fun r => r.KeepsApart stack)
      (RingSteps stack)) (.start mem) events r) :
    r.Intact stack := by
  have hStart : ReceiveRing.Kept stack (.start mem) :=
    ⟨(fun _ _ hHeld => nomatch hHeld),
      (fun _ _ hHeld => nomatch hHeld)⟩
  have hStep : ∀ r event r', ReceiveRing.Kept stack r →
      Guarded (fun r => r.KeepsApart stack) (RingSteps stack)
        r event r' → r'.Kept stack :=
    fun _ _ _ hKept hGuarded =>
      RingSteps.kept hKept hGuarded
  exact (Run.invariant hStep hStart hRun).intact

------------------------------------------------------------
-- A Packet That Fills Its Buffer
------------------------------------------------------------

/- The first buffer is full of ones, and the rest is zero. -/
def fullBuffer : Memory :=
  fun a => if 24 ≤ a ∧ a < 1048 then 1 else 0

theorem fullBuffer_received
    {n : Nat}
    (hLe : n ≤ 1024) :
    bytesAt fullBuffer (simpleStack.bufferAddr 0)
        (List.replicate n (1 : Byte)).length =
      List.replicate n 1 := by
  have hAddr : simpleStack.bufferAddr 0 = 24 := rfl
  rw [List.length_replicate, hAddr, List.eq_replicate_iff]
  refine ⟨length_bytesAt _ _ _, ?_⟩
  intro byte hMem
  rcases List.mem_map.mp hMem with ⟨k, hK, rfl⟩
  rw [List.mem_range] at hK
  rw [fullBuffer, if_pos (by omega)]

/- A packet of ones, and a packet of zeros behind it. -/
def heldTwo
    (n : Nat) : Nat → Option (List Byte) :=
  Function.update (Function.update (fun _ => none) 0
    (some (List.replicate n 1))) 1 (some (List.replicate 38 0))

/- Both are received. -/
theorem run_heldTwo
    {n : Nat}
    (hLe : n ≤ 1024) :
    Run (Guarded (fun r => r.KeepsApart simpleStack)
        (RingSteps simpleStack)) (.start fullBuffer)
      [.receives 0 (List.replicate n 1),
        .receives 1 (List.replicate 38 0)]
      ⟨fullBuffer, heldTwo n⟩ := by
  have hLength : (List.replicate n (1 : Byte)).length ≤
      mlx5Mtu := by
    rw [List.length_replicate]
    exact hLe
  refine .cons ⟨trivial, .receives (by decide) hLength
    (fun _ _ => rfl) (fullBuffer_received hLe)⟩ ?_
  exact .cons ⟨trivial, .receives (by decide) (by decide)
    (fun _ _ => rfl) (by rfl)⟩ (.nil _)

/-
  Restoring the length of the second packet overwrites the
  first one.
-/
theorem not_forall_intact :
    ¬ ∀ (stack : PacketStack) mem events r,
      Run (RingSteps stack) (.start mem) events r →
        r.Intact stack := by
  intro hAll
  have hOk : (simpleStack.runIngress 1 none [] false
      fullBuffer).map (fun mem => mem 1024) = .ok 0 := by rfl
  rcases map_eq_ok_iff.mp hOk with ⟨mem, hIngress, hByte⟩
  have hReceived := (run_heldTwo (Nat.le_refl 1024)).mono
    (fun _ _ _ hStep => hStep.2)
  have hProcessed : RingSteps simpleStack
      ⟨fullBuffer, heldTwo 1024⟩ (.ingress 1 none [] false) _ :=
    .ingress rfl (fun _ hMem => nomatch hMem) hIngress
  have hIntact := hAll simpleStack fullBuffer _ _
    (hReceived.append (.cons hProcessed (.nil _)))
    0 (List.replicate 1024 1) rfl
  have hFull : bytesAt mem (simpleStack.bufferAddr 0) 1024 =
      List.replicate 1024 1 := by
    simpa only [List.length_replicate] using hIntact
  -- byte 1000 of the first packet is at address 1024
  have hLost := getElem?_bytesAt mem (simpleStack.bufferAddr 0)
    (by decide : 1000 < 1024)
  rw [hFull, List.getElem?_replicate_of_lt (by decide)]
    at hLost
  have hOne : mem 1024 = 1 := (Option.some.inj hLost).symm
  rw [hByte] at hOne
  exact absurd hOne (by decide)

/- A packet of 1000 bytes ends before those in between. -/
theorem intact_of_run_two :
    ∃ mem, simpleStack.runIngress 1 none [] false fullBuffer =
        .ok mem ∧
      ReceiveRing.Intact simpleStack
        ⟨mem, Function.update (heldTwo 1000) 1
          (some (bytesAt mem (simpleStack.bufferAddr 1)
            38))⟩ := by
  have hOk : (simpleStack.runIngress 1 none [] false
      fullBuffer).map (fun _ => ()) = .ok () := by rfl
  rcases map_eq_ok_iff.mp hOk with ⟨mem, hIngress, -⟩
  have hTotal : simpleStack.netPacket.getInteger
      simpleStack.lengthMember
      (window fullBuffer (packetPtr 1)) = .ok 0 := by rfl
  have hApart : ReceiveRing.KeepsApart simpleStack
      ⟨fullBuffer, heldTwo 1000⟩
      (.ingress 1 none [] false) := by
    refine ⟨?_, ?_⟩
    · rintro j hMem k bytes hNext hNe hHeld
      rw [List.mem_singleton.mp hMem] at hNext
      cases (Nat.succ.inj hNext : k = 0)
      cases hHeld
      rw [List.length_replicate]
      decide
    · intro _ _ x hX
      cases hTotal.symm.trans hX
      exact Or.inl (by decide)
  have hProcessed : RingSteps simpleStack
      ⟨fullBuffer, heldTwo 1000⟩ (.ingress 1 none [] false) _ :=
    .ingress rfl (fun _ hMem => nomatch hMem) hIngress
  exact ⟨mem, hIngress, intact_of_run
    ((run_heldTwo (by decide)).append
      (.cons ⟨hApart, hProcessed⟩ (.nil _)))⟩

end NetBlocks
