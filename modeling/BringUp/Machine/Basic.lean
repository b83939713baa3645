import BringUp.Bus.Device
import BringUp.Clock
import BringUp.Stop

/-!
# The machine

Everything firmware can reach or leave behind: memory and the device that changes it, the clock,
the control and status registers, and the trace of what was done. A watchdog counts the accesses
that a wait can repeat, so that every wait ends: when `limit` of a kind were made since the
watchdog was last rearmed, the next one is not made.
-/

namespace BringUp

/-- Counts of repeatable accesses since the last rearming. -/
structure Watchdog where
  /-- How many accesses of each kind are allowed. -/
  limit : Nat
  /-- Bus reads made. -/
  busReads : Nat := 0
  /-- Clock readings made. -/
  clockReads : Nat := 0
  /-- Tests of a scripted condition made. -/
  checks : Nat := 0
  deriving Repr, DecidableEq, Inhabited

/-- The same limit with nothing counted. -/
def Watchdog.rearm (w : Watchdog) : Watchdog :=
  ⟨w.limit, 0, 0, 0⟩

/-- A simulated machine. -/
structure Machine where
  /-- The bytes on the bus. -/
  memory : Memory := .empty
  /-- What reacts to bus accesses. -/
  device : Device := .plain
  /-- Bus reads of each address since the log was last cleared. -/
  reads : Std.HashMap UInt64 Nat := ∅
  /-- The clock. -/
  clock : Clock := .simulated
  /-- The control and status registers. -/
  csrs : CsrFile := .zero
  /-- Ends waits that do not end by themselves. -/
  watchdog : Watchdog
  /-- Everything done so far. -/
  trace : Trace := #[]
  /-- Length of the trace when the log was last cleared. -/
  logStart : Nat := 0

namespace Machine

instance : Inhabited Machine := ⟨{ watchdog := default }⟩

/-- Adds an event to the trace. -/
def record (m : Machine) (e : Event) : Machine :=
  { m with trace := m.trace.push e }

/-- Starts counting for the watchdog afresh. -/
def rearm (m : Machine) : Machine :=
  { m with watchdog := m.watchdog.rearm }

/-! ### The log of bus accesses -/

/-- Bus reads of an address since the log was last cleared. -/
def readsOf (m : Machine) (address : UInt64) : Nat :=
  m.reads.getD address 0

/-- Width, address and value of the bus writes since the log was last cleared. -/
def busWrites (m : Machine) : List (Width × UInt64 × UInt32) :=
  (m.trace.toList.drop m.logStart).filterMap Event.busWrite?

/-- Values written to one address since the log was last cleared. -/
def valuesWrittenTo (m : Machine) (address : UInt64) : List UInt32 :=
  (m.busWrites.filter fun w ↦ w.2.1 == address).map fun w ↦ w.2.2

/-- Forgets reads and writes, but not what they did. -/
def forgetAccesses (m : Machine) : Machine :=
  { m with reads := ∅, logStart := m.trace.size }

/-! ### The log of register accesses -/

/-- Registers written and their values, since the start. -/
def csrWrites (m : Machine) : List (Csr × UInt64) :=
  m.trace.toList.filterMap Event.csrWrite?

/-- Fences executed since the start. -/
def fences (m : Machine) : Nat :=
  m.trace.toList.count .fence

end Machine

end BringUp
