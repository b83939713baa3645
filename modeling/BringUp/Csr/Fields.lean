import BringUp.Csr.Basic
import BringUp.Flags

/-!
# Fields of the control and status registers

Masks of the fields that the firmware changes or tests, with the tables of their names, and the
one cache command it issues.
-/

namespace BringUp

/-! ### Cache control -/

namespace CacheControl

/-- Instruction cache on. -/
def icache : UInt64 := 0x1
/-- Data cache on. -/
def dcache : UInt64 := 0x2
/-- Cache commands allowed below machine level. -/
def userCommands : UInt64 := 0x100
/-- Instruction prefetch. -/
def iprefetch : UInt64 := 0x200
/-- Data prefetch. -/
def dprefetch : UInt64 := 0x400
/-- Write-around threshold, low bit. -/
def writeAroundLow : UInt64 := 0x2000
/-- Write-around threshold, high bit. -/
def writeAroundHigh : UInt64 := 0x4000
/-- Both bits of the write-around threshold. -/
def writeAround : UInt64 := writeAroundLow ||| writeAroundHigh

/-- Names of the fields. -/
def table : FlagTable :=
  ⟨[("IC_EN", icache), ("DC_EN", dcache), ("CCTL_SUEN", userCommands),
    ("L1I_PREFETCH", iprefetch), ("L1D_PREFETCH", dprefetch),
    ("DC_WAROUND_1", writeAroundLow), ("DC_WAROUND_2", writeAroundHigh)]⟩

end CacheControl

/-! ### Miscellaneous control -/

namespace MiscControl

/-- Misaligned accesses are split in hardware. -/
def misaligned : UInt64 := 0x40
/-- Loads do not block. -/
def nonBlocking : UInt64 := 0x100

/-- Names of the fields. -/
def table : FlagTable :=
  ⟨[("MSA_OR_UNA_EN", misaligned), ("NON_BLOCKING_EN", nonBlocking)]⟩

end MiscControl

/-! ### Miscellaneous configuration -/

namespace MiscConfig

/-- Memory attributes are programmable. -/
def programmablePma : UInt64 := 0x40000000

/-- Names of the fields. -/
def table : FlagTable :=
  ⟨[("PPMA", programmablePma)]⟩

end MiscConfig

/-! ### Cache command -/

namespace CacheCommand

/-- Write back and invalidate the whole data cache. -/
def flushAll : UInt64 := 6

end CacheCommand

end BringUp
