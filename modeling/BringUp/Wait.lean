import BringUp.Machine.Firmware

/-!
# Waits

Busy waits of two kinds. `waitUntil` repeats a test until it succeeds, without bound or until the
clock shows that a number of microseconds passed; `delay` lets a number of microseconds pass. Time
differences wrap, so where a counter starts does not matter.

Each round of a wait makes an access that the watchdog counts. The rounds are bounded by the
watchdog's limit, and a wait that uses them up ends as one that the watchdog stops.
-/

namespace BringUp

/-- When a wait is given up. -/
inductive Deadline
  /-- Not before the condition holds. -/
  | never
  /-- Once the clock shows that so many microseconds passed. -/
  | after (limit : UInt64)
  deriving Repr, DecidableEq, Inhabited

namespace Firmware

/-- Rounds that suffice for the watchdog to stop a wait. -/
def rounds : Firmware Nat := fun m ↦
  .ok (m.watchdog.limit + 1) m

/-- Repeats the test until it succeeds. -/
def spin (ready : Firmware Bool) : Nat → Firmware Unit
  | 0 => throw .hang
  | n + 1 => do
    if ← ready then
      pure ()
    else
      spin ready n

/-- Repeats the test until it succeeds or a reading of the clock is `limit` or more past `start`. -/
def spinFor (limit start : UInt64) (what : String) (ready : Firmware Bool) : Nat → Firmware Unit
  | 0 => throw .hang
  | n + 1 => do
    if ← ready then
      pure ()
    else
      let waited := (← now) - start
      if limit ≤ waited then
        fail (.timeout what waited)
      else
        spinFor limit start what ready n

/-- Waits until the test succeeds; `what` names the handshake when the time runs out. A wait
without bound does not read the clock. -/
def waitUntil (deadline : Deadline) (what : String) (ready : Firmware Bool) : Firmware Unit :=
  match deadline with
  | .never => do spin ready (← rounds)
  | .after limit => do
    let start ← now
    spinFor limit start what ready (← rounds)

/-- Reads the clock until `micros` have passed since `start`. -/
def watchFor (micros start : UInt64) : Nat → Firmware Unit
  | 0 => throw .hang
  | n + 1 => do
    if (← now) - start < micros then
      watchFor micros start n
    else
      pure ()

/-- Lets a number of microseconds pass in the way of the clock. -/
def delay (micros : UInt64) : Firmware Unit := do
  modify fun m ↦ m.record (.delay micros)
  match (← get).clock.passing with
  | .winds => modify fun m ↦ { m with clock := m.clock.wind micros }
  | .watched => do
    let start ← now
    watchFor micros start (← rounds)

end Firmware

end BringUp
