import BringUp.Board.ClockGate
import BringUp.Board.Pins
import BringUp.Board.SecondLevelCache
import BringUp.Board.Settings
import BringUp.Console.Basic
import BringUp.Vendor.Call

/-!
# The platform

The board as boot firmware sees it: hooks that are called one after the other on the way up, and
the vendor calls that are served from then on.

1. `beginBoot`: misaligned accesses trap;
2. `openConsole`: the serial controller is brought up and becomes the active console;
3. `finishBoot`: caches on, memory attribute table cleared on a cold boot.

The platform is a value. A hook gives the platform afterwards; one that stops leaves the platform
as it was, so a console that could not be brought up is not active.
-/

namespace BringUp.Board

/-! ### Identity -/

/-- What the platform reports about itself. -/
structure Descriptor where
  /-- Name of the platform. -/
  name : String
  /-- Version, major number in the upper half. -/
  version : UInt32
  /-- Number of cores. -/
  harts : UInt32
  deriving Repr, DecidableEq, Inhabited

/-- A version as one number, the major number in the upper half. -/
def packVersion (major minor : UInt16) : UInt32 :=
  (major.toUInt32 <<< 16) ||| minor.toUInt32

/-! ### The platform -/

/-- The state of the platform. -/
structure Platform where
  /-- The board. -/
  settings : Settings
  /-- The console. -/
  console : Console Serial.Controller := .empty
  /-- The regions that vendor calls have set up. -/
  regions : Pma.Table := .empty

namespace Platform

/-- What the platform reports about itself. -/
def descriptor (p : Platform) : Descriptor :=
  ⟨"Renesas RZ/Five", packVersion 0 1, p.settings.harts⟩

/-- Clock and reset of the console's channel. -/
def clockGate (p : Platform) : ClockGate :=
  ⟨p.settings.clockBase, p.settings.channel, p.settings.handshake⟩

/-- Pins of the console. -/
def pins (p : Platform) : Pins :=
  ⟨p.settings.pinBase, p.settings.fuseBase⟩

/-! ### Hooks -/

/-- Makes misaligned accesses trap, where the hardware would split them. -/
def beginBoot (_ : Platform) (cold : Bool) : Firmware Unit := do
  Firmware.csrClear .mmiscCtl MiscControl.misaligned
  Firmware.log .debug s!"platform: early init (cold boot: {cold})"

/-- Brings up the serial controller at `base` with a clock and a rate, and makes it the active
console. Refused while a console is active. -/
def openConsoleAt (p : Platform) (base clock : UInt64) (baud : UInt32) : Firmware Platform := do
  if p.console.isActive then
    Firmware.fail .alreadyUp
  else
    match Serial.Line.of? base clock baud with
    | .error cause => Firmware.fail cause
    | .ok line =>
      let ctrl : Serial.Controller := ⟨line.modulate p.settings.modulated, .uninitialized⟩
      let (outcome, ctrl) ← ctrl.bringUp p.clockGate.power p.pins.route
      liftExcept outcome
      let console := (p.console.set ctrl).2
      let name := Sink.name ctrl
      Firmware.log .info s!"platform: console on {name}"
      return { p with console }

/-- Brings up the console that the settings describe. -/
def openConsole (p : Platform) : Firmware Platform :=
  p.openConsoleAt p.settings.serialBase p.settings.serialClock p.settings.baud

/-- Turns the caches on; on a cold boot also clears the memory attribute table. -/
def finishBoot (p : Platform) (cold : Bool) : Firmware Platform := do
  Vendor.enableCaches
  SecondLevelCache.enable p.settings.cacheBase
  let regions ← if cold then Pma.Table.clear else pure p.regions
  Firmware.log .info s!"platform: {p.descriptor.name} ready"
  return { p with regions }

/-- Status code of a hook, and the platform afterwards. -/
def status (p : Platform) (hook : Firmware Platform) : Firmware (Int × Platform) := do
  match ← Firmware.attempt hook with
  | .ok p => return (Status.success, p)
  | .error cause => return (cause.status, p)

/-! ### Vendor calls -/

/-- Answers a call to a vendor extension. -/
def call (p : Platform) (extension function : UInt64) (args : Vendor.Arguments) :
    Firmware (Vendor.Reply × Platform) := do
  let (reply, regions) ← Vendor.answer p.regions extension function args
  return (reply, { p with regions })

end Platform

end BringUp.Board
