import BringUp.Bus.Ram
import BringUp.Machine.Firmware

/-!
# Register blocks

A register block is a base address with a table that fixes the width of each register, so that no
access chooses its own width. Blocks lie over anything that loads and stores by width: the bus of
the machine, or plain memory.

Two orders of writes recur. A guarded write carries a guard bit beside the value bits, because the
hardware drops the value without it; a two-step write unlocks first and enables second.
-/

namespace BringUp

/-- Actions that can load and store by width at absolute addresses. -/
class Bus (m : Type → Type) where
  /-- Loads the value at an address. -/
  load : Width → UInt64 → m UInt32
  /-- Stores the low bits of a value at an address. -/
  store : Width → UInt64 → UInt32 → m Unit

/-- The bus of the machine. -/
instance : Bus Firmware where
  load := Firmware.busRead
  store := Firmware.busWrite

/-- Actions on plain memory. -/
abbrev RamAction := EStateM Stop Ram

/-- Plain memory. -/
instance : Bus RamAction where
  load w address := fun ram ↦ .ok (ram.load address w) ram
  store w address value := fun ram ↦ .ok () (ram.store address w value)

/-- Widths of the registers of a block. -/
structure Layout where
  /-- Offsets of the registers of one byte. -/
  narrow : List UInt64
  /-- Width of all other registers. -/
  wide : Width
  deriving Repr, DecidableEq, Inhabited

/-- Width of the register at an offset. -/
def Layout.width (layout : Layout) (offset : UInt64) : Width :=
  if offset ∈ layout.narrow then .byte else layout.wide

theorem Layout.width_of_mem {layout : Layout} {offset : UInt64} (h : offset ∈ layout.narrow) :
    layout.width offset = .byte :=
  if_pos h

theorem Layout.width_of_not_mem {layout : Layout} {offset : UInt64} (h : offset ∉ layout.narrow) :
    layout.width offset = layout.wide :=
  if_neg h

/-- A block of registers. -/
structure Block where
  /-- Address of offset zero. -/
  base : UInt64
  /-- Widths of the registers. -/
  layout : Layout
  deriving Repr, DecidableEq, Inhabited

namespace Block

variable {m : Type → Type} [Monad m] [MonadExceptOf Stop m] [Bus m]

/-- Address of the register at an offset, which has to fit in the word. -/
def address (b : Block) (offset : UInt64) : m UInt64 :=
  liftExcept (exactAdd b.base offset)

/-- Reads the register at an offset. -/
def read (b : Block) (offset : UInt64) : m UInt32 := do
  Bus.load (b.layout.width offset) (← b.address offset)

/-- Writes the low bits of a value to the register at an offset. -/
def write (b : Block) (offset : UInt64) (value : UInt32) : m Unit := do
  Bus.store (b.layout.width offset) (← b.address offset) value

/-- Reads a register and writes it back with some bits cleared and then some set. -/
def update (b : Block) (offset : UInt64) (clear set : UInt32) : m Unit := do
  let value ← b.read offset
  b.write offset ((value &&& ~~~clear) ||| set)

/-- Writes value bits and their guard bit in one access. -/
def writeWithGuard (b : Block) (offset : UInt64) (bits guard : UInt32) : m Unit :=
  b.write offset (bits ||| guard)

/-- Writes a register twice, to unlock it and to enable it. -/
def writeInTurn (b : Block) (offset : UInt64) (first second : UInt32) : m Unit := do
  b.write offset first
  b.write offset second

end Block

end BringUp
