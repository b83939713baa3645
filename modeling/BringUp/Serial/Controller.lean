import BringUp.Console.Sink
import BringUp.Serial.Line
import BringUp.Serial.Registers
import BringUp.Wait

/-!
# Serial controllers

A serial controller: its line, how far it was brought up, and how bytes are sent.

Bringing a controller up goes through stages. Each ends in a phase, and the phase of a controller is
that of the last stage that was completed, so an attempt that stops on the way can be made again:

* `disabled`: clock and reset handled, transmitter and receiver off, FIFOs held in reset;
* `configuring`: stale flags cleared, framing set;
* `enabled`: rate programmed and settled, FIFOs running, pins routed, transmitter and receiver on.

Clock, reset and pins belong to other blocks and are reached through `Power` and the routing
action.

Sending waits until the transmitter is ready for the next byte, writes it, and then clears exactly
the two flags that made up readiness; any other flag raised in the meantime survives. Nothing on
this path logs, so log records may be sent through the controller.
-/

namespace BringUp.Serial

/-! ### Controllers -/

/-- How far a controller was brought up. -/
inductive Phase
  /-- Nothing was programmed. -/
  | uninitialized
  /-- Transmitter and receiver are off and the FIFOs held in reset. -/
  | disabled
  /-- Framing is set, the rate is next. -/
  | configuring
  /-- Bytes can be sent. -/
  | enabled
  deriving Repr, DecidableEq, Inhabited

/-- How a phase is written. -/
def Phase.name : Phase → String
  | uninitialized => "Uninitialized"
  | disabled => "Disabled"
  | configuring => "Configuring"
  | enabled => "Enabled"

/-- A serial controller. -/
structure Controller where
  /-- Where the controller lies and how fast it runs. -/
  line : Line
  /-- How far it was brought up. -/
  phase : Phase := .uninitialized

/-- Clock gate and reset line of a controller. -/
structure Power where
  /-- Turns the clock on and waits until it runs. -/
  startClock : Firmware Unit
  /-- Releases the reset and waits until it is released. -/
  releaseReset : Firmware Unit

namespace Controller

/-- The registers of the controller. -/
def block (ctrl : Controller) : Block :=
  ⟨ctrl.line.base, layout⟩

/-! ### Bringing up -/

/-- A step on the way up: what is done, and the phase reached by it. -/
structure Stage where
  /-- The phase once it is done. -/
  reached : Phase
  /-- What is done. -/
  action : Firmware Unit

/-- Does stages in order until one stops. Gives how they ended and the phase of the last one that
was completed. -/
def runStages (phase : Phase) : List Stage → Firmware (Except Stop Unit × Phase)
  | [] => return (.ok (), phase)
  | stage :: rest => do
    match ← Firmware.observe stage.action with
    | .ok _ => runStages stage.reached rest
    | .error stop => return (.error stop, phase)

/-- Power, then everything off. -/
def quiesce (ctrl : Controller) (power : Power) : Firmware Unit := do
  power.startClock
  power.releaseReset
  ctrl.block.write Offset.scr 0
  ctrl.block.write Offset.fcr Fcr.bothReset

/-- Stale flags are cleared by a read and a write; then the internal clock and the framing. -/
def frame (ctrl : Controller) : Firmware Unit := do
  let _ ← ctrl.block.read Offset.fsr
  ctrl.block.write Offset.fsr 0
  let _ ← ctrl.block.read Offset.lsr
  ctrl.block.write Offset.lsr 0
  ctrl.block.write Offset.scr 0
  ctrl.block.write Offset.smr asyncEightBits

/-- Programs the divisor with modulation off, so that it reaches the rate register whatever state
the controller was left in; then the duty with modulation on, if the line wants it. -/
def setRate (ctrl : Controller) : Firmware Unit := do
  let old ← ctrl.block.read Offset.semr
  let plain := old &&& ~~~Semr.modulation
  ctrl.block.write Offset.semr plain
  ctrl.block.write Offset.brr ctrl.line.divisor.toUInt32
  let mode := if ctrl.line.modulated then plain ||| Semr.modulation else plain
  if ctrl.line.modulated then
    ctrl.block.write Offset.semr mode
    ctrl.block.write Offset.brr ctrl.line.duty.toUInt32
  let base := hex ctrl.line.base.toNat
  let divisor := hex ctrl.line.divisor.toNat
  Firmware.log .debug s!"scif@{base}: BRR={divisor} SEMR={hex mode.toNat}"

/-- Rate, settling, pins, and transmitter and receiver on. -/
def enable (ctrl : Controller) (routePins : Firmware Unit) : Firmware Unit := do
  ctrl.setRate
  Firmware.delay ctrl.line.settleMicros
  ctrl.block.write Offset.fcr 0
  routePins
  ctrl.block.write Offset.scr Scr.bothOn

/-- Reports the line of an enabled controller. -/
def announce (ctrl : Controller) : Firmware Unit := do
  let line := ctrl.line
  let base := hex line.base.toNat
  let divisor := hex line.divisor.toNat
  Firmware.log .info
    s!"scif@{base}: enabled at {line.baud} baud (divisor {divisor}, modulation {line.modulated})"

/-- The way up. -/
def stages (ctrl : Controller) (power : Power) (routePins : Firmware Unit) : List Stage :=
  [⟨.disabled, ctrl.quiesce power⟩,
   ⟨.configuring, ctrl.frame⟩,
   ⟨.enabled, ctrl.enable routePins⟩,
   ⟨.enabled, ctrl.announce⟩]

/-- Brings the controller up. Gives how that ended and the controller afterwards. One that is up
refuses; an attempt that stopped may be made again. -/
def bringUp (ctrl : Controller) (power : Power) (routePins : Firmware Unit) :
    Firmware (Except Stop Unit × Controller) := do
  if ctrl.phase = .enabled then
    return (.error (.failure .alreadyUp), ctrl)
  else
    let (outcome, phase) ← runStages ctrl.phase (ctrl.stages power routePins)
    return (outcome, { ctrl with phase })

/-! ### Sending -/

/-- Whether the transmitter can take a byte. -/
def ready (ctrl : Controller) : Firmware Bool := do
  return Fsr.txReady (← ctrl.block.read Offset.fsr)

/-- Sends one byte once the transmitter is ready. Fails on a controller that is not enabled, and
when the wait runs out. -/
def trySend (ctrl : Controller) (deadline : Deadline) (b : UInt8) : Firmware Unit := do
  if ctrl.phase = .enabled then
    Firmware.waitUntil deadline "scif transmit ready" ctrl.ready
    ctrl.block.write Offset.ftdr b.toUInt32
    let status ← ctrl.block.read Offset.fsr
    ctrl.block.write Offset.fsr (status &&& ~~~Fsr.txReadyMask)
  else
    Firmware.fail (.badOperand "transmit on a controller that is not enabled")

/-- Sends one byte, waiting as long as the transmitter needs. On a controller that is not enabled
the byte is dropped. -/
def send (ctrl : Controller) (b : UInt8) : Firmware Unit := do
  let _ ← Firmware.attempt (ctrl.trySend .never b)

instance : Sink Firmware Controller where
  name _ := "scif"
  put ctrl b := do
    ctrl.send b
    return ctrl

end Controller

end BringUp.Serial
