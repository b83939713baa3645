import BringUp.Machine.Event

/-!
# Clocks

A microsecond clock: a counter, and what a reading makes of it. A reading may depend on everything
that happened before, so a clock can run along any schedule; the three clocks built here are
`simulated`, which moves by one at each reading, `stepping`, which moves by a fixed step, and
`ticking`, a stepping counter whose ticks are converted to microseconds.

Counters wrap. The conversions between ticks and microseconds are exact quotients, cut to the word.
-/

namespace BringUp

/-- Microseconds in a second. -/
def microsPerSecond : Nat := 1000000

/-! ### Ticks and microseconds -/

/-- Microseconds that `ticks` take at `freq` ticks a second, rounded down; zero for a counter that
stands still. -/
def ticksToMicros (ticks freq : UInt64) : UInt64 :=
  UInt64.ofNat (ticks.toNat * microsPerSecond / freq.toNat)

/-- Ticks at `freq` ticks a second in a number of microseconds, rounded down. -/
def microsToTicks (micros freq : UInt64) : UInt64 :=
  UInt64.ofNat (micros.toNat * freq.toNat / microsPerSecond)

theorem ticksToMicros_zero (ticks : UInt64) : ticksToMicros ticks 0 = 0 := by
  simp [ticksToMicros]

/-! ### Clocks -/

/-- How a clock lets a delay pass. -/
inductive Passing
  /-- The clock is wound forward. -/
  | winds
  /-- The clock is read until the time has passed. -/
  | watched
  deriving Repr, DecidableEq, Inhabited

/-- A counter and how it is read. -/
structure Clock where
  /-- Where the clock stands. -/
  counter : UInt64
  /-- The reading that a trace and a counter give, unless it does not fit in the word, and where
  reading leaves the counter. -/
  sample : Trace → UInt64 → Option UInt64 × UInt64
  /-- How delays pass. -/
  passing : Passing := .watched

namespace Clock

/-- Starts at zero and moves by one at each reading, which gives the new time; delays wind it. At
the last time of the word a reading wraps the counter and gives nothing. -/
def simulated : Clock where
  counter := 0
  sample _ t := (if t = 0xFFFFFFFFFFFFFFFF then none else some (t + 1), t + 1)
  passing := .winds

instance : Inhabited Clock := ⟨simulated⟩

/-- A reading gives the counter, and then moves it by a step. -/
def stepping (start step : UInt64) : Clock where
  counter := start
  sample _ t := (some t, t + step)

/-- A reading gives the microseconds that the counter stands for, and then moves it by a step. -/
def ticking (start step freq : UInt64) : Clock where
  counter := start
  sample _ t := (some (ticksToMicros t freq), t + step)

/-- Moves the counter without a reading. -/
def wind (c : Clock) (micros : UInt64) : Clock :=
  { c with counter := c.counter + micros }

end Clock

end BringUp
