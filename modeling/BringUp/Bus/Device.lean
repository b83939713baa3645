import BringUp.Bus.Memory
import BringUp.Machine.Event

/-!
# Devices

What answers on the bus. A device may change memory before a read takes its value, and it decides
what a write makes of memory. It may look at everything that happened before, so any deterministic
behaviour is a `Device`; `plain` memory is one. A reaction whose own access runs over the end of the
address space is `none`.
-/

namespace BringUp

/-- Reactions to bus accesses. -/
structure Device where
  /-- Memory from which a read takes its value: after a trace, for a read of an address that was
  read a number of times before, from the memory before. -/
  onRead : Trace → UInt64 → Nat → Memory → Option Memory
  /-- Memory after a write: after a trace, for a width, an address and a value, from the memory
  before. -/
  onWrite : Trace → Width → UInt64 → UInt32 → Memory → Option Memory

namespace Device

/-- Plain memory: reads change nothing, and writes store what they carry. -/
def plain : Device where
  onRead _ _ _ mem := some mem
  onWrite _ w address value mem := mem.put? address w value

instance : Inhabited Device := ⟨plain⟩

/-- Replaces the reaction to reads of one address. -/
def reactToRead (d : Device) (address : UInt64) (react : Nat → Memory → Option Memory) : Device :=
  { d with
    onRead := fun trace a earlier mem ↦
      if a = address then react earlier mem else d.onRead trace a earlier mem }

/-- Replaces the reaction to writes to one address by storing and then reacting to the value. -/
def reactToWrite (d : Device) (address : UInt64) (react : UInt32 → Memory → Option Memory) :
    Device :=
  { d with
    onWrite := fun trace w a value mem ↦
      if a = address then (mem.put? a w value).bind (react value)
      else d.onWrite trace w a value mem }

end Device

end BringUp
