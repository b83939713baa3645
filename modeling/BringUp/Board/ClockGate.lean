import BringUp.Register.Block
import BringUp.Serial.Controller
import BringUp.Wait

/-!
# Clock gate and reset

The part of the clock generator that belongs to the serial controller. Each channel has a control
bit, and a guard bit sixteen places above it without which a write to the control bit is dropped.
After a write, a monitor register shows when the hardware has followed.
-/

namespace BringUp.Board

/-- Clock gate and reset line of one channel. -/
structure ClockGate where
  /-- Address of the clock generator. -/
  base : UInt64
  /-- The channel. -/
  channel : UInt8
  /-- How long to wait for the hardware to follow. -/
  deadline : Deadline
  deriving Repr, DecidableEq, Inhabited

namespace ClockGate

/-! ### Registers -/

/-- Clock control; a set bit turns the clock on. -/
def clockControl : UInt64 := 0x584
/-- Clock monitor; a set bit shows a running clock. -/
def clockMonitor : UInt64 := 0x704
/-- Reset control; a set bit releases the reset. -/
def resetControl : UInt64 := 0x884
/-- Reset monitor; a clear bit shows a released reset. -/
def resetMonitor : UInt64 := 0xA04

/-- All registers are four bytes wide. -/
def layout : Layout := ⟨[], .word⟩

/-- The registers of the clock generator. -/
def block (gate : ClockGate) : Block :=
  ⟨gate.base, layout⟩

/-- Control bit of a channel. -/
def controlBit (channel : UInt8) : Except Stop UInt32 :=
  exactShiftLeft 1 channel

/-- Guard bit of a channel. -/
def guardBit (channel : UInt8) : Except Stop UInt32 :=
  exactShiftLeft 0x10000 channel

/-! ### Handshakes -/

/-- Sets the channel's bit of a control register, then waits until its bit of a monitor register is
set or clear. A wait that runs out is logged. -/
def handshake (gate : ClockGate) (control monitor : UInt64) (want : Bool) (what : String) :
    Firmware Unit := do
  let bit ← liftExcept (controlBit gate.channel)
  let guard ← liftExcept (guardBit gate.channel)
  gate.block.writeWithGuard control bit guard
  let followed : Firmware Bool := do
    return ((← gate.block.read monitor) &&& bit != 0) == want
  match ← Firmware.attempt (Firmware.waitUntil gate.deadline what followed) with
  | .ok _ => pure ()
  | .error cause =>
    Firmware.log .warn s!"cpg: scif{gate.channel}: {cause.message}"
    Firmware.fail cause

/-- Turns the clock on and waits until it runs. -/
def startClock (gate : ClockGate) : Firmware Unit := do
  gate.handshake clockControl clockMonitor true "scif clock monitor"
  Firmware.log .info s!"cpg: scif{gate.channel} clock on"

/-- Releases the reset and waits until it is released. -/
def releaseReset (gate : ClockGate) : Firmware Unit := do
  gate.handshake resetControl resetMonitor false "scif reset monitor"
  Firmware.log .info s!"cpg: scif{gate.channel} reset released"

/-- Clock and reset as the serial controller of the channel reaches them. -/
def power (gate : ClockGate) : Serial.Power :=
  ⟨gate.startClock, gate.releaseReset⟩

end ClockGate

end BringUp.Board
