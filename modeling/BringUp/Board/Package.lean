import BringUp.Register.Block

/-!
# Packages

The chip comes in packages that bring the console out on different pins. Which one it is stands in
the low bits of a fuse word.
-/

namespace BringUp.Board

/-! ### Fuses -/

namespace Fuse

/-- Fuse word with the device number. -/
def device : UInt64 := 0x1178
/-- The device number inside its word. -/
def deviceMask : UInt32 := 0xF
/-- Device number of the second package. -/
def secondPackage : UInt32 := 0x1

/-- All fuse words are four bytes wide. -/
def layout : Layout := ⟨[], .word⟩

end Fuse

/-! ### Packages and their pins -/

/-- A package. -/
inductive Package
  /-- The second package. -/
  | second
  /-- Any other device number. -/
  | other (id : UInt32)
  deriving Repr, DecidableEq, Inhabited

/-- Registers and values that route the console to its pins. -/
structure PinRoute where
  /-- Mode register of the group. -/
  mode : UInt64
  /-- Pins given to the peripheral. -/
  modeMask : UInt32
  /-- Function register of the group. -/
  function : UInt64
  /-- Function numbers of the pins. -/
  functionValue : UInt32
  deriving Repr, DecidableEq, Inhabited

namespace Package

/-- The package that a fuse word tells. -/
def ofFuses (word : UInt32) : Package :=
  let id := word &&& Fuse.deviceMask
  if id = Fuse.secondPackage then second else other id

/-- Device number of a package. -/
def deviceId : Package → UInt32
  | second => Fuse.secondPackage
  | other id => id

/-- How a package is written. -/
def name : Package → String
  | second => "RzFive2"
  | other id => s!"Other({id})"

end Package

namespace PinRoute

/-- Mode register of group 6. -/
def mode6 : UInt64 := 0x216
/-- Mode register of group 38. -/
def mode38 : UInt64 := 0x236
/-- Function register of group 6. -/
def function6 : UInt64 := 0x458
/-- Function register of group 38. -/
def function38 : UInt64 := 0x4D8

/-- Third and fourth pin of group 6. -/
def group6 : PinRoute := ⟨mode6, 0x18, function6, 0x00066000⟩

/-- First and second pin of group 38. -/
def group38 : PinRoute := ⟨mode38, 0x03, function38, 0x00000011⟩

end PinRoute

/-- Pins that bring the console out on a package. -/
def Package.pins : Package → PinRoute
  | second => .group6
  | other _ => .group38

end BringUp.Board
