import BringUp.Bus.Device

/-!
# Scripted devices

Devices described by rules: on a read of an address, while it was read a number of times inside a
window, or on a write whose value matches a pattern, a list of changes is made to memory. At each
address the latest rule of its kind counts.
-/

namespace BringUp

/-- What a rule does to the bits of a place in memory. -/
inductive Change
  /-- Store the bits. -/
  | put
  /-- Set the bits. -/
  | raise
  /-- Clear the bits. -/
  | lower
  /-- Set those of the bits that the access carried. -/
  | raiseCarried
  /-- Clear those of the bits that the access carried. -/
  | lowerCarried
  deriving Repr, DecidableEq, Inhabited

/-- One change that a rule makes. -/
structure Act where
  /-- What is done. -/
  change : Change
  /-- Where it is done. -/
  address : UInt64
  /-- How wide the place is. -/
  width : Width
  /-- The bits it is done to. -/
  bits : UInt32
  deriving Repr, DecidableEq, Inhabited

/-- Makes the change, on an access that carried `carried`. -/
def Act.apply (act : Act) (carried : UInt32) (mem : Memory) : Option Memory :=
  match act.change with
  | .put => mem.put? act.address act.width act.bits
  | .raise => mem.raise? act.address act.width act.bits
  | .lower => mem.lower? act.address act.width act.bits
  | .raiseCarried => mem.raise? act.address act.width (carried &&& act.bits)
  | .lowerCarried => mem.lower? act.address act.width (carried &&& act.bits)

/-- Makes changes in order. -/
def Act.applyAll (acts : List Act) (carried : UInt32) (mem : Memory) : Option Memory :=
  acts.foldlM (fun mem act ↦ act.apply carried mem) mem

/-- A reaction to the accesses of one address. -/
inductive Rule
  /-- To reads, while the number of earlier reads is at least `start` and below `stop`. -/
  | read (address start stop : UInt64) (acts : List Act)
  /-- To writes whose value agrees with `want` under `mask`. -/
  | write (address : UInt64) (mask want : UInt32) (acts : List Act)
  deriving Repr, DecidableEq, Inhabited

/-- Gives a device the reaction of a rule, in place of its reaction to such accesses before. A read
carries nothing. -/
def Device.install (d : Device) : Rule → Device
  | .read address start stop acts =>
    d.reactToRead address fun earlier mem ↦
      if start.toNat ≤ earlier ∧ earlier < stop.toNat then Act.applyAll acts 0 mem else some mem
  | .write address mask want acts =>
    d.reactToWrite address fun value mem ↦
      if value &&& mask = want then Act.applyAll acts value mem else some mem

end BringUp
