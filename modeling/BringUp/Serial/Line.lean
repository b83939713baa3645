import BringUp.Failure
import BringUp.Serial.Rate

/-!
# Line configuration

Where a serial controller lies, the clock it gets and the rate it is to run at. A `Line` exists
only for rates that the controller can divide down to; `Line.of?` refuses the others.
-/

namespace BringUp.Serial

/-- A controller's place, clock and rate, with the divisor that gives the rate. -/
structure Line where
  /-- Address of the register block. -/
  base : UInt64
  /-- Input clock in hertz. -/
  clock : UInt64
  /-- Bits per second. -/
  baud : UInt32
  /-- Value of the rate register. -/
  divisor : UInt8
  /-- Whether the rate is modulated. -/
  modulated : Bool
  /-- The divisor gives the rate. -/
  divisor_eq : divisor? clock baud = some divisor

namespace Line

/-- The modulated line with a place, a clock and a rate, unless no divisor gives the rate. -/
def of? (base clock : UInt64) (baud : UInt32) : Except Failure Line :=
  match h : divisor? clock baud with
  | some divisor => .ok ⟨base, clock, baud, divisor, true, h⟩
  | none => .error (.badRate clock baud)

/-- A line has the place, the clock and the rate that it was made for. -/
theorem of?_eq_ok {base clock : UInt64} {baud : UInt32} {line : Line}
    (h : of? base clock baud = .ok line) :
    line.base = base ∧ line.clock = clock ∧ line.baud = baud := by
  unfold of? at h
  split at h
  · cases h
    exact ⟨rfl, rfl, rfl⟩
  · cases h

/-- A line is refused for its rate only. -/
theorem of?_eq_error {base clock : UInt64} {baud : UInt32} {cause : Failure}
    (h : of? base clock baud = .error cause) : cause = .badRate clock baud := by
  unfold of? at h
  split at h
  · cases h
  · cases h
    rfl

/-- No line has the rate zero. -/
theorem baud_pos (line : Line) : 0 < line.baud.toNat := by
  refine Nat.pos_of_ne_zero fun h ↦ ?_
  have hzero : line.baud = 0 := UInt32.toNat.inj h
  have hdivisor := line.divisor_eq
  rw [divisor?, if_pos hzero] at hdivisor
  cases hdivisor

/-- Turns modulation on or off. -/
def modulate (line : Line) (modulated : Bool) : Line :=
  { line with modulated }

/-- A line that is there can be made again from its place, its clock and its rate. -/
theorem of?_of_line (line : Line) :
    of? line.base line.clock line.baud = .ok (line.modulate true) := by
  unfold of?
  split
  · next divisor h =>
    obtain rfl : divisor = line.divisor := Option.some.inj (h.symm.trans line.divisor_eq)
    rfl
  · next h => exact nomatch h.symm.trans line.divisor_eq

/-- Value of the modulation duty register. -/
def duty (line : Line) : UInt8 :=
  dutyOf line.clock line.baud line.divisor

/-- Microseconds to wait after the rate was programmed, at least one bit period. -/
def settleMicros (line : Line) : UInt64 :=
  1000000 / line.baud.toUInt64 + 1

end Line

end BringUp.Serial
