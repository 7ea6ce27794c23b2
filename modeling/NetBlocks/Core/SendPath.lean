import NetBlocks.Modules.Reliable

/-
  The modules of the NO_COMPAT stack in the order they are
  registered, and the send path through them.

  Main declarations:
    * `Module` and `registeredModules`
    * `runHooks`
    * `hookSend`, `runSendPath`, and `runSendAfter`
-/

namespace NetBlocks

variable {P : Type}

------------------------------------------------------------
-- Registered Modules
------------------------------------------------------------

inductive Module where
| payload
| signaling
| inorder
| reliable
| identifier
| signalingAfter
| routing
| checksum
| network
deriving DecidableEq, Repr

/-
  `m_registered_modules`: an optional module registers only
  when it is enabled.
-/
def registeredModules
    (cfg : Config) : List Module :=
  [.payload, .signaling, .inorder] ++
    (if cfg.reliableEnabled then [.reliable] else []) ++
    [.identifier, .signalingAfter] ++
    (if cfg.routingEnabled then [.routing] else []) ++
    (if cfg.checksumEnabled then [.checksum] else []) ++
    [.network]

/- The modules with a larger `m_sequence` than `m`. -/
def modulesAfter
    (cfg : Config)
    (m : Module) : List Module :=
  (registeredModules cfg).drop
    ((registeredModules cfg).idxOf m + 1)

theorem modulesAfter_signaling
    (cfg : Config) :
    modulesAfter cfg .signaling =
      .inorder ::
        (if cfg.reliableEnabled then [.reliable] else []) ++
        [.identifier, .signalingAfter] ++
        (if cfg.routingEnabled then [.routing] else []) ++
        (if cfg.checksumEnabled then [.checksum] else []) ++
        [.network] := by
  rfl

theorem modulesAfter_reliable
    {cfg : Config}
    (hReliable : cfg.reliableEnabled = true) :
    modulesAfter cfg .reliable =
      [.identifier, .signalingAfter] ++
        (if cfg.routingEnabled then [.routing] else []) ++
        (if cfg.checksumEnabled then [.checksum] else []) ++
        [.network] := by
  rw [modulesAfter, registeredModules, hReliable]
  rfl

------------------------------------------------------------
-- Running Hooks
------------------------------------------------------------

/-
  Run the hooks of a list of modules in order, up to the
  first that drops.
-/
def runHooks
    (hook : Module → Endpoint P →
      Except Fault (HookStatus × Endpoint P)) :
    List Module → Endpoint P →
      Except Fault (HookStatus × Endpoint P)
| [], e => .ok (.hookContinue, e)
| m :: modules, e => do
    let (status, e) ← hook m e
    match status with
    | .hookDrop => return (.hookDrop, e)
    | .hookContinue => runHooks hook modules e

/- Hooks run over two lists, one after the other. -/
theorem runHooks_append
    (hook : Module → Endpoint P →
      Except Fault (HookStatus × Endpoint P))
    (first second : List Module)
    (e : Endpoint P) :
    runHooks hook (first ++ second) e = (do
      let (status, e) ← runHooks hook first e
      match status with
      | .hookDrop => return (.hookDrop, e)
      | .hookContinue => runHooks hook second e) := by
  induction first generalizing e with
  | nil => rfl
  | cons m first ih =>
      simp only [List.cons_append, runHooks]
      cases hook m e with
      | error fault => rfl
      | ok result =>
          rcases result with ⟨status, e'⟩
          cases status
          · exact ih e'
          · rfl

/- Hooks that continue hand over to the ones after them. -/
theorem runHooks_append_of_continue
    {hook : Module → Endpoint P →
      Except Fault (HookStatus × Endpoint P)}
    {first : List Module}
    {e e' : Endpoint P}
    (hFirst : runHooks hook first e =
      .ok (.hookContinue, e'))
    (second : List Module) :
    runHooks hook (first ++ second) e =
      runHooks hook second e' := by
  rw [runHooks_append, hFirst]
  rfl

@[simp] theorem runHooks_singleton
    (hook : Module → Endpoint P →
      Except Fault (HookStatus × Endpoint P))
    (m : Module)
    (e : Endpoint P) :
    runHooks hook [m] e = hook m e := by
  rw [runHooks]
  cases hook m e with
  | error fault => rfl
  | ok result =>
      rcases result with ⟨status, e'⟩
      cases status <;> rfl

------------------------------------------------------------
-- Send Path
------------------------------------------------------------

/- `hook_send` of each module. -/
def hookSend
    (fmt : PacketFormat P)
    (cfg : Config)
    (c : ConnPtr)
    (p : PacketPtr)
    (buff : List Byte) :
    Module → Endpoint P →
      Except Fault (HookStatus × Endpoint P)
| .payload => PayloadModule.hookSend fmt p buff
| .signaling => fun e => .ok (.hookContinue, e)
| .inorder => InorderModule.hookSend fmt cfg c p
| .reliable => ReliableModule.hookSend fmt c p
| .identifier => IdentifierModule.hookSend fmt c p
| .signalingAfter => fun e => .ok (.hookContinue, e)
| .routing => RoutingModule.hookSend fmt c p
| .checksum => ChecksumModule.hookSend fmt p
| .network => NetworkModule.hookSend fmt p

/-
  `framework::run_send_path`. It returns the length the
  payload module stored, which is that of `buff`.
-/
def runSendPath
    (fmt : PacketFormat P)
    (cfg : Config)
    (c : ConnPtr)
    (buff : List Byte)
    (e : Endpoint P) :
    Except Fault (Nat × Endpoint P) := do
  let (p, e) := e.requestSendBuffer
  let (_, e) ← runHooks (hookSend fmt cfg c p buff)
    (registeredModules cfg) e
  return (buff.length, e)

/-
  The loop with which a module sends a packet of its own:
  the send hooks of the modules after `m`. The buffer it
  passes is of no use to them.
-/
def runSendAfter
    (fmt : PacketFormat P)
    (cfg : Config)
    (m : Module)
    (c : ConnPtr)
    (p : PacketPtr)
    (e : Endpoint P) : Except Fault (Endpoint P) := do
  let (_, e) ← runHooks (hookSend fmt cfg c p [])
    (modulesAfter cfg m) e
  return e

end NetBlocks
