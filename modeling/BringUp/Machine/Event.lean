import BringUp.Bus.Width
import BringUp.Csr.Basic

/-!
# Events

What a run of firmware leaves behind: completed bus accesses, register accesses, fences, readings
of the clock, delays and log records, in order. Devices and clocks may react to all of it.
-/

namespace BringUp

/-- Severity of a log record. -/
inductive Level
  | error
  | warn
  | info
  | debug
  deriving Repr, DecidableEq, Inhabited

/-- How a severity is written. -/
def Level.name : Level → String
  | error => "ERROR"
  | warn => "WARN"
  | info => "INFO"
  | debug => "DEBUG"

/-- One thing that firmware did. -/
inductive Event
  /-- A bus read gave `value`. -/
  | busRead (width : Width) (address : UInt64) (value : UInt32)
  /-- A bus write carried `value`. -/
  | busWrite (width : Width) (address : UInt64) (value : UInt32)
  /-- A register was read. -/
  | csrRead (csr : Csr) (value : UInt64)
  /-- A register was written. -/
  | csrWrite (csr : Csr) (value : UInt64)
  /-- Instruction fetch was synchronised with earlier stores. -/
  | fence
  /-- The clock was read. -/
  | clockRead (time : UInt64)
  /-- A delay was asked for. -/
  | delay (micros : UInt64)
  /-- A record was logged. -/
  | log (level : Level) (text : String)
  deriving Repr, DecidableEq, Inhabited

/-- Events in order, the latest last. -/
abbrev Trace := Array Event

namespace Event

/-- Whether the event is a bus access. -/
def isBus : Event → Bool
  | busRead .. | busWrite .. => true
  | _ => false

/-- Width, address and value of a bus write. -/
def busWrite? : Event → Option (Width × UInt64 × UInt32)
  | busWrite w a v => some (w, a, v)
  | _ => none

/-- Register and value of a register write. -/
def csrWrite? : Event → Option (Csr × UInt64)
  | csrWrite c v => some (c, v)
  | _ => none

end Event

end BringUp
