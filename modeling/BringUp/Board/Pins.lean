import BringUp.Board.Package
import BringUp.Flags
import BringUp.Text.Hex

/-!
# Pin routing

Brings the console out on the pins of the package. The function registers are write-protected:
clearing `Protection.blocked` and then setting `Protection.writable` opens them, and they are
closed again the other way round.
-/

namespace BringUp.Board

/-! ### Write protection -/

namespace Protection

/-- The protection register. -/
def offset : UInt64 := 0x3014
/-- `writable` cannot be changed. -/
def blocked : UInt32 := 0x80
/-- Function registers can be written. -/
def writable : UInt32 := 0x40

/-- Names of the bits. -/
def table : FlagTable :=
  ⟨[("B0WI", blocked.toUInt64), ("PFCWE", writable.toUInt64)]⟩

end Protection

/-! ### Routing -/

/-- The pin controller, and the fuses that tell which pins to use. -/
structure Pins where
  /-- Address of the pin controller. -/
  base : UInt64
  /-- Address of the fuses. -/
  fuses : UInt64
  deriving Repr, DecidableEq, Inhabited

namespace Pins

/-- The mode registers are one byte wide, all others four. -/
def layout : Layout := ⟨[PinRoute.mode6, PinRoute.mode38], .word⟩

/-- The registers of the pin controller. -/
def block (pins : Pins) : Block :=
  ⟨pins.base, layout⟩

/-- The fuse words. -/
def fuseBlock (pins : Pins) : Block :=
  ⟨pins.fuses, Fuse.layout⟩

/-- The package, from the fuses. -/
def package (pins : Pins) : Firmware Package := do
  return .ofFuses (← pins.fuseBlock.read Fuse.device)

/-- Opens the function registers, routes the console to the pins of the package, and closes them
again. -/
def route (pins : Pins) : Firmware Unit := do
  pins.block.writeInTurn Protection.offset 0 Protection.writable
  let package ← pins.package
  let group := package.pins
  let mode := hex group.mode.toNat
  let function := hex group.function.toNat
  Firmware.log .debug s!"pfc: {package.name} -> PMC {mode}, PFC {function}"
  pins.block.write group.function group.functionValue
  pins.block.update group.mode 0 group.modeMask
  pins.block.writeInTurn Protection.offset 0 Protection.blocked
  Firmware.log .info "pfc: console pins routed"

end Pins

end BringUp.Board
