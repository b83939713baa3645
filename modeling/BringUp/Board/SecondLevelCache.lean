import BringUp.Register.Block
import BringUp.Text.Hex

/-!
# Second-level cache

The controller of the second-level cache has one control register with one bit of interest.
-/

namespace BringUp.Board.SecondLevelCache

/-- The control register. -/
def control : UInt64 := 0x8

/-- Cache on. -/
def enabled : UInt32 := 0x1

/-- All registers are four bytes wide. -/
def layout : Layout := ⟨[], .word⟩

/-- Turns the cache of the controller at `base` on; one that is on is left alone. -/
def enable (base : UInt64) : Firmware Unit := do
  let block : Block := ⟨base, layout⟩
  if (← block.read control) &&& enabled = 0 then
    block.update control 0 enabled
    Firmware.log .info s!"l2c@{hex base.toNat}: enabled"

end BringUp.Board.SecondLevelCache
