import BringUp.Csr.Fields
import BringUp.Machine.Firmware
import BringUp.Text.Hex

/-!
# Cache and memory controls

The six controls that supervisor software may switch, and the setup of the caches at boot. Turning
a cache off also makes its contents consistent: a fence for instructions, a full write-back for
data.
-/

namespace BringUp.Vendor

/-- A control that can be switched on and off. -/
inductive Control
  /-- Instruction cache. -/
  | icache
  /-- Data cache. -/
  | dcache
  /-- Instruction prefetch. -/
  | iprefetch
  /-- Data prefetch. -/
  | dprefetch
  /-- Loads and stores that do not block. -/
  | nonBlocking
  /-- Writes that go around the data cache, at the first threshold. -/
  | writeAround
  deriving Repr, DecidableEq, Inhabited

/-- Writes the data cache back and invalidates it. -/
def flushDataCache : Firmware Unit :=
  Firmware.csrWrite .mcctlCommand CacheCommand.flushAll

/-- Sets or clears bits of a register. -/
def switchBits (csr : Csr) (bits : UInt64) (on : Bool) : Firmware Unit :=
  if on then Firmware.csrSet csr bits else Firmware.csrClear csr bits

/-- A cache control word with the write-around threshold at one, or off. -/
def withWriteAround (word : UInt64) (on : Bool) : UInt64 :=
  let off := word &&& ~~~CacheControl.writeAround
  if on then off ||| CacheControl.writeAroundLow else off

/-- A cache control word as it is set at boot: caches, commands below machine level and prefetch
on, writes going around at the first threshold. -/
def bootCacheControl (word : UInt64) : UInt64 :=
  withWriteAround
    (word ||| (CacheControl.icache ||| CacheControl.dcache ||| CacheControl.userCommands
      ||| CacheControl.iprefetch ||| CacheControl.dprefetch)) true

namespace Control

/-- Name of the control. -/
def name : Control → String
  | icache => "ICache"
  | dcache => "DCache"
  | iprefetch => "L1IPrefetch"
  | dprefetch => "L1DPrefetch"
  | nonBlocking => "NonBlocking"
  | writeAround => "WriteAround"

/-- The writes that switch the control. -/
def drive : Control → Bool → Firmware Unit
  | icache, on => do
    switchBits .mcacheCtl CacheControl.icache on
    if !on then Firmware.fence
  | dcache, on => do
    switchBits .mcacheCtl CacheControl.dcache on
    if !on then flushDataCache
  | iprefetch, on => switchBits .mcacheCtl CacheControl.iprefetch on
  | dprefetch, on => switchBits .mcacheCtl CacheControl.dprefetch on
  | nonBlocking, on => switchBits .mmiscCtl MiscControl.nonBlocking on
  | writeAround, on => do
    let word ← Firmware.csrRead .mcacheCtl
    Firmware.csrWrite .mcacheCtl (withWriteAround word on)

/-- Switches the control on or off, and logs it. -/
def switch (control : Control) (on : Bool) : Firmware Unit := do
  control.drive on
  let state := if on then "on" else "off"
  Firmware.log .debug s!"vendor: {control.name} {state}"

end Control

/-- Sets the caches up at boot. -/
def enableCaches : Firmware Unit := do
  let word := bootCacheControl (← Firmware.csrRead .mcacheCtl)
  Firmware.csrWrite .mcacheCtl word
  Firmware.csrSet .mmiscCtl MiscControl.nonBlocking
  Firmware.log .info s!"vendor: L1 caches on, mcache_ctl={hex word.toNat}"

end BringUp.Vendor
