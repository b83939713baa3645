import BringUp.Csr.Basic
import BringUp.Vendor.Control

/-!
# Vendor commands

The operations that supervisor software can ask for, one for each function number from zero on.
-/

namespace BringUp.Vendor

/-- An operation that supervisor software can ask for. -/
inductive Command
  /-- Give the value of a register. -/
  | readCsr (csr : Csr)
  /-- Overwrite a register. -/
  | writeCsr (csr : Csr)
  /-- Switch a control. -/
  | switch (control : Control)
  /-- Write the data cache back and invalidate it. -/
  | flushDataCache
  /-- Give a memory attribute entry a region. -/
  | assignEntry
  /-- Release the memory attribute entry of an owner. -/
  | releaseEntry
  /-- Tell whether memory attributes are programmable. -/
  | probeEntries
  deriving Repr, DecidableEq, Inhabited

namespace Command

/-- The commands in the order of their function numbers. -/
def all : List Command :=
  [readCsr .mcacheCtl, readCsr .mmiscCtl, writeCsr .mcacheCtl, writeCsr .mmiscCtl,
   switch .icache, switch .dcache, switch .iprefetch, switch .dprefetch, switch .nonBlocking,
   switch .writeAround, assignEntry, releaseEntry, probeEntries, flushDataCache,
   readCsr .micmCfg, readCsr .mdcmCfg, readCsr .mmscCfg, readCsr .misa]

/-- The command with a function number. -/
def ofId? (id : UInt64) : Option Command :=
  all[id.toNat]?

/-- Number of argument words that the command looks at. -/
def arity : Command → Nat
  | readCsr _ | flushDataCache | probeEntries => 0
  | writeCsr _ | switch _ | releaseEntry => 1
  | assignEntry => 4

/-- How the command is written. -/
def name : Command → String
  | readCsr csr => s!"ReadCsr({csr.name})"
  | writeCsr csr => s!"WriteCsr({csr.name})"
  | switch control => s!"Toggle({control.name})"
  | flushDataCache => "DCacheWbInvalAll"
  | assignEntry => "PmaSet"
  | releaseEntry => "PmaFree"
  | probeEntries => "PmaProbe"

/-- No command overwrites a register that only reports the configuration. -/
theorem not_readOnly_of_mem {csr : Csr} (h : writeCsr csr ∈ all) : csr.readOnly = false := by
  simp only [all, List.mem_cons, reduceCtorEq, writeCsr.injEq, List.not_mem_nil, or_false,
    false_or] at h
  obtain rfl | rfl := h <;> rfl

end Command

end BringUp.Vendor
