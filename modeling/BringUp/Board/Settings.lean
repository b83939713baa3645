import BringUp.Serial.Rate
import BringUp.Wait

/-!
# Board settings

Where the blocks of the board lie, how fast they run, and how long to wait for them.
-/

namespace BringUp.Board

/-- Settings of a board. The defaults are those of the evaluation board. -/
structure Settings where
  /-- Serial controller. -/
  serialBase : UInt64 := 0x1004B800
  /-- Input clock of the serial controller in hertz. -/
  serialClock : UInt64 := 100000000
  /-- Rate of the console. -/
  baud : UInt32 := Serial.defaultBaud
  /-- Channel of the serial controller, which selects its clock and reset bits. -/
  channel : UInt8 := 0
  /-- Whether the rate of the console is modulated. -/
  modulated : Bool := true
  /-- Clock generator. -/
  clockBase : UInt64 := 0x11010000
  /-- Pin controller. -/
  pinBase : UInt64 := 0x11030000
  /-- Fuses. -/
  fuseBase : UInt64 := 0x11860000
  /-- Second-level cache. -/
  cacheBase : UInt64 := 0x13400000
  /-- Frequency of the time counter. -/
  timebase : UInt64 := 12000000
  /-- Number of cores. -/
  harts : UInt32 := 1
  /-- How long to wait for the clock generator. -/
  handshake : Deadline := .after 10000
  deriving Repr, DecidableEq, Inhabited

end BringUp.Board
