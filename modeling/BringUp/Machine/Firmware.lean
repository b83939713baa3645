import BringUp.Machine.Basic

/-!
# Firmware actions

`Firmware α` is an action on the machine that gives an `α` or stops early. A stop keeps what was
done before it. The actions here are the only ones that reach the machine: one bus access, one
register access, one reading of the clock, a delay, a log record.

An access is recorded once it is complete; one that the watchdog or an overflow prevents is not.
-/

namespace BringUp

/-- An action on the machine. -/
abbrev Firmware := EStateM Stop Machine

namespace Firmware

/-! ### Bus -/

/-- One bus read: the device reacts, then the value is taken. -/
def busRead (w : Width) (address : UInt64) : Firmware UInt32 := fun m ↦
  if m.watchdog.busReads < m.watchdog.limit then
    if w.fits address then
      match m.device.onRead m.trace address (m.readsOf address) m.memory with
      | some memory =>
        .ok (memory.load address w)
          { m with
            memory
            reads := m.reads.insert address (m.readsOf address + 1)
            watchdog.busReads := m.watchdog.busReads + 1
            trace := m.trace.push (.busRead w address (memory.load address w)) }
      | none => .error (.overflow .add) m
    else .error (.overflow .add) m
  else .error .hang m

/-- One bus write: the device makes of memory what it makes of the low bits of the value. -/
def busWrite (w : Width) (address : UInt64) (value : UInt32) : Firmware Unit := fun m ↦
  if w.fits address then
    match m.device.onWrite m.trace w address (w.truncate value) m.memory with
    | some memory =>
      .ok ()
        { m with
          memory
          trace := m.trace.push (.busWrite w address (w.truncate value)) }
    | none => .error (.overflow .add) m
  else .error (.overflow .add) m

/-! ### Control and status registers -/

/-- Reads a register. -/
def csrRead (csr : Csr) : Firmware UInt64 := fun m ↦
  .ok (m.csrs.get csr) (m.record (.csrRead csr (m.csrs.get csr)))

/-- Writes a register. -/
def csrWrite (csr : Csr) (value : UInt64) : Firmware Unit := fun m ↦
  .ok () { m with csrs := m.csrs.set csr value, trace := m.trace.push (.csrWrite csr value) }

/-- Sets bits of a register. -/
def csrSet (csr : Csr) (bits : UInt64) : Firmware Unit := do
  let value ← csrRead csr
  csrWrite csr (value ||| bits)

/-- Clears bits of a register. -/
def csrClear (csr : Csr) (bits : UInt64) : Firmware Unit := do
  let value ← csrRead csr
  csrWrite csr (value &&& ~~~bits)

/-- Synchronises instruction fetch with earlier stores. -/
def fence : Firmware Unit := fun m ↦
  .ok () (m.record .fence)

/-! ### Clock and conditions -/

/-- Reads the clock. -/
def now : Firmware UInt64 := fun m ↦
  if m.watchdog.clockReads < m.watchdog.limit then
    match m.clock.sample m.trace m.clock.counter with
    | (some time, counter) =>
      .ok time
        { m with
          clock.counter := counter
          watchdog.clockReads := m.watchdog.clockReads + 1
          trace := m.trace.push (.clockRead time) }
    | (none, counter) => .error (.overflow .add) { m with clock.counter := counter }
  else .error .hang m

/-- Tests a condition that has its answers laid down, one for each number of tests made since the
watchdog was rearmed. -/
def check (answers : Nat → Bool) : Firmware Bool := fun m ↦
  if m.watchdog.checks < m.watchdog.limit then
    .ok (answers m.watchdog.checks) { m with watchdog.checks := m.watchdog.checks + 1 }
  else .error .hang m

/-! ### Log -/

/-- Logs a record. -/
def log (level : Level) (text : String) : Firmware Unit := fun m ↦
  .ok () (m.record (.log level text))

/-! ### Outcomes -/

/-- Gives the cause of a failure as a value; overflows and hangs pass. -/
def attempt {α : Type} (action : Firmware α) : Firmware (Except Failure α) := fun m ↦
  match action m with
  | .ok a m => .ok (.ok a) m
  | .error (.failure cause) m => .ok (.error cause) m
  | .error stop m => .error stop m

/-- Gives any stop as a value. -/
def observe {α : Type} (action : Firmware α) : Firmware (Except Stop α) := fun m ↦
  match action m with
  | .ok a m => .ok (.ok a) m
  | .error stop m => .ok (.error stop) m

/-- Fails. -/
def fail {α : Type} (cause : Failure) : Firmware α :=
  throw (.failure cause)

end Firmware

end BringUp
