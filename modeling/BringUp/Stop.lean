import BringUp.Failure

/-!
# Ways an action ends early

An action on the machine may end before its last step in three ways: it fails, which its caller
can answer; an address or operand computation leaves the word, which nobody handles; or a wait
outlasts the watchdog. Computations that can leave the word are spelled `exactAdd`,
`exactSub` and `exactShiftLeft`; all other word arithmetic in this library wraps on purpose or
cannot leave the word.
-/

namespace BringUp

/-- Operations whose result can leave the word. -/
inductive WordOp
  | add
  | subtract
  | shiftLeft
  deriving Repr, DecidableEq, Inhabited

/-- What an operation is called in messages. -/
def WordOp.name : WordOp → String
  | add => "add"
  | subtract => "subtract"
  | shiftLeft => "shift left"

/-- Why an action ended early. -/
inductive Stop
  /-- The operation failed, and its caller is told why. -/
  | failure (cause : Failure)
  /-- A computation left the word. -/
  | overflow (op : WordOp)
  /-- A wait outlasted the watchdog. -/
  | hang
  deriving Repr, DecidableEq, Inhabited

/-- Message of a stop. -/
def Stop.message : Stop → String
  | failure cause => cause.message
  | overflow op => s!"attempt to {op.name} with overflow"
  | hang => "busy-wait budget exhausted"

/-! ### Checked word arithmetic -/

/-- The sum, which has to fit in the word. -/
def exactAdd (a b : UInt64) : Except Stop UInt64 :=
  if a.toNat + b.toNat < UInt64.size then .ok (a + b) else .error (.overflow .add)

/-- The difference, which must not be negative. -/
def exactSub (a b : UInt64) : Except Stop UInt64 :=
  if b ≤ a then .ok (a - b) else .error (.overflow .subtract)

/-- Shift to the left by fewer bits than the word has; bits shifted out are lost. -/
def exactShiftLeft (a : UInt32) (n : UInt8) : Except Stop UInt32 :=
  if n < 32 then .ok (a <<< n.toUInt32) else .error (.overflow .shiftLeft)

theorem exactAdd_of_lt {a b : UInt64} (h : a.toNat + b.toNat < UInt64.size) :
    exactAdd a b = .ok (a + b) :=
  if_pos h

theorem exactSub_of_le {a b : UInt64} (h : b ≤ a) : exactSub a b = .ok (a - b) :=
  if_pos h

end BringUp
