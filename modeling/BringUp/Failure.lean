import BringUp.Text.Hex

/-!
# Failures

Why an operation was refused or given up. Each cause has a message and a fixed status code, so it
can be handed to the caller of a supervisor call as it is.
-/

namespace BringUp

/-! ### Status codes

The codes that a supervisor call returns.
-/

namespace Status

/-- Completed. -/
def success : Int := 0
/-- Given up. -/
def failed : Int := -1
/-- Not offered. -/
def notSupported : Int := -2
/-- An operand is malformed. -/
def invalidParameter : Int := -3
/-- Not allowed. -/
def denied : Int := -4
/-- An address is malformed. -/
def invalidAddress : Int := -5
/-- Already in place. -/
def alreadyAvailable : Int := -6

end Status

/-! ### Causes -/

/-- Why an operation was refused or given up. -/
inductive Failure
  /-- A bounded wait for the handshake `what` ran out after `waited` microseconds. -/
  | timeout (what : String) (waited : UInt64)
  /-- No operation is bound to this function or extension number. -/
  | unsupported (id : UInt64)
  /-- No divisor in range gives this line rate from this clock. -/
  | badRate (clock : UInt64) (baud : UInt32)
  /-- The device is up already. -/
  | alreadyUp
  /-- An operand is malformed in the named way. -/
  | badOperand (what : String)
  deriving Repr, DecidableEq, Inhabited

namespace Failure

/-- Status code of the cause. -/
def status : Failure → Int
  | timeout .. => Status.failed
  | unsupported _ => Status.notSupported
  | badRate .. => Status.invalidParameter
  | alreadyUp => Status.alreadyAvailable
  | badOperand _ => Status.invalidParameter

/-- Whether a wait ran out. -/
def isTimeout : Failure → Bool
  | timeout .. => true
  | _ => false

theorem eq_timeout_of_isTimeout {f : Failure} (h : f.isTimeout = true) :
    ∃ what waited, f = timeout what waited := by
  cases f with
  | timeout what waited => exact ⟨what, waited, rfl⟩
  | _ => cases h

/-- Message of the cause. -/
def message : Failure → String
  | timeout what waited => s!"Hardware timeout waiting for {what} after {waited} us"
  | unsupported id => s!"Unsupported vendor capability: {hex id.toNat}"
  | badRate clock baud => s!"Invalid baud rate {baud} for input clock {clock} Hz"
  | alreadyUp => "Controller already initialized"
  | badOperand what => s!"Invalid parameter: {what}"

/-- No cause has the code of success. -/
theorem status_ne_success (f : Failure) : f.status ≠ Status.success := by
  cases f <;> simp [status, Status.success, Status.failed, Status.notSupported,
    Status.invalidParameter, Status.alreadyAvailable]

end Failure

/-- Status code of an outcome without a value. -/
def statusOf : Except Failure Unit → Int
  | .ok _ => Status.success
  | .error f => f.status

end BringUp
