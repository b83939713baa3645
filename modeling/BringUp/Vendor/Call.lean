import BringUp.Pma.Table
import BringUp.Vendor.Command

/-!
# Vendor calls

A supervisor call into the vendor extension: an extension number, a function number and four
argument words go in, a status code and a value come out. The only state behind the calls is the
table of memory attribute entries.
-/

namespace BringUp.Vendor

/-! ### Extension numbers -/

/-- First extension number left to vendors. -/
def extensionStart : UInt64 := 0x09000000

/-- Number of the core's vendor. -/
def vendorId : UInt64 := 0x31E

/-- The extension number that is served. -/
def extensionId : UInt64 := extensionStart + vendorId

/-! ### Replies -/

/-- What a call hands back. -/
structure Reply where
  /-- Status code. -/
  status : Int
  /-- Value, zero if the call failed. -/
  value : UInt64
  deriving Repr, DecidableEq, Inhabited

namespace Reply

/-- The reply for an outcome. -/
def of : Except Failure UInt64 → Reply
  | .ok value => ⟨Status.success, value⟩
  | .error cause => ⟨cause.status, 0⟩

/-- Whether the call succeeded. -/
def isSuccess (r : Reply) : Bool :=
  r.status == Status.success

end Reply

/-! ### Calls -/

/-- The argument words of a call. -/
structure Arguments where
  /-- First word. -/
  first : UInt64 := 0
  /-- Second word. -/
  second : UInt64 := 0
  /-- Third word. -/
  third : UInt64 := 0
  /-- Fourth word. -/
  fourth : UInt64 := 0
  deriving Repr, DecidableEq, Inhabited

/-- The words in order. -/
def Arguments.toList (args : Arguments) : List UInt64 :=
  [args.first, args.second, args.third, args.fourth]

/-- Carries out a command. Gives its value and the table afterwards. -/
def Command.run (table : Pma.Table) (args : Arguments) :
    Command → Firmware (UInt64 × Pma.Table)
  | readCsr csr => return (← Firmware.csrRead csr, table)
  | writeCsr csr => do
    Firmware.csrWrite csr args.first
    return (0, table)
  | switch control => do
    control.switch (args.first != 0)
    return (0, table)
  | flushDataCache => do
    Vendor.flushDataCache
    return (0, table)
  | assignEntry => do
    let table ← table.assign args.first args.second args.third args.fourth
    return (args.first, table)
  | releaseEntry => return (0, ← table.release args.first)
  | probeEntries => return ((← Pma.programmable).toUInt64, table)

/-- Carries out the command with a function number. -/
def perform (table : Pma.Table) (function : UInt64) (args : Arguments) :
    Firmware (UInt64 × Pma.Table) := do
  match Command.ofId? function with
  | some command => command.run table args
  | none =>
    Firmware.log .error s!"vendor: unsupported function id {function}"
    Firmware.fail (.unsupported function)

/-- Carries out a call to an extension. -/
def serve (table : Pma.Table) (extension function : UInt64) (args : Arguments) :
    Firmware (UInt64 × Pma.Table) := do
  if extension = extensionId then
    perform table function args
  else
    Firmware.log .error s!"vendor: unsupported extension {hex extension.toNat}"
    Firmware.fail (.unsupported extension)

/-- Answers a call to an extension. A call that fails leaves the table as it was. -/
def answer (table : Pma.Table) (extension function : UInt64) (args : Arguments) :
    Firmware (Reply × Pma.Table) := do
  match ← Firmware.attempt (serve table extension function args) with
  | .ok (value, table) => return (.of (.ok value), table)
  | .error cause => return (.of (.error cause), table)

/-- The function number that the table of entries knows itself by is that of its command. -/
theorem ofId?_assignFunction : Command.ofId? Pma.assignFunction = some .assignEntry := rfl

end BringUp.Vendor
