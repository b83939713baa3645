import BringUp.Csr.Fields
import BringUp.Machine.Firmware
import BringUp.Pma.Region

/-!
# The table of memory attribute entries

Which region each of the sixteen hardware entries holds. A request names the entry it wants; a
release names the owner's address, and the lowest entry with that owner is given up.

The table and the hardware change together. The address register is written before the
configuration byte when an entry is assigned, and after it when the entry is released, so that an
enabled entry never has a wrong address.
-/

namespace BringUp.Pma

/-- Number of hardware entries. -/
abbrev entries : Nat := Csr.pmaEntries

/-- The regions held by the entries. -/
structure Table where
  /-- What each entry holds. -/
  slots : Vector (Option Region) entries
  deriving Repr, DecidableEq, Inhabited

/-! ### The hardware -/

/-- Whether the core has programmable memory attributes. -/
def programmable : Firmware Bool := do
  return hasBits (← Firmware.csrRead .mmscCfg) MiscConfig.programmablePma

/-- A configuration word with the byte of an entry replaced. -/
def replaceConfig (word entry : UInt64) (config : UInt8) : UInt64 :=
  let shift := Csr.pmaShift entry
  (word &&& ~~~(0xFF <<< shift)) ||| (config.toUInt64 <<< shift)

/-- Writes the configuration byte of an entry and keeps those that share its register. -/
def writeConfig (entry : UInt64) (config : UInt8) : Firmware Unit := do
  let word ← Firmware.csrRead (Csr.pmaCfgOf entry)
  Firmware.csrWrite (Csr.pmaCfgOf entry) (replaceConfig word entry config)

/-- The first entry of each configuration register. -/
def configStarts : List UInt64 := [0, 8]

/-! ### The table -/

/-- Number of the vendor function that assigns an entry. -/
def assignFunction : UInt64 := 10

namespace Table

/-- No entry holds a region. -/
def empty : Table :=
  ⟨Vector.replicate entries none⟩

/-- Region held by an entry; none beyond the last entry. -/
def get? (t : Table) (entry : UInt64) : Option Region :=
  t.slots[entry.toNat]?.join

/-- Number of entries that hold a region. -/
def inUse (t : Table) : Nat :=
  t.slots.toList.countP Option.isSome

/-- The lowest entry whose region belongs to an owner. -/
def entryOf? (t : Table) (va : UInt64) : Option (Fin entries) :=
  t.slots.findFinIdx? fun slot ↦ slot.any fun r ↦ r.va == va

/-- Gives an entry a region that is not cached. Refused, in this order: on a core without
programmable attributes; for an entry that does not exist; for a size that no region has; for a
place that is not aligned to the size; for an entry in use. -/
def assign (t : Table) (pa va size entry : UInt64) : Firmware Table := do
  if !(← programmable) then
    Firmware.fail (.unsupported assignFunction)
  else if h : entry.toNat < entries then
    if !validSize size then
      Firmware.fail (.badOperand "pma size must be a power of two of at least 4 KiB")
    else if !aligned pa size then
      Firmware.fail (.badOperand "pma base not aligned to its size")
    else if t.slots[entry.toNat].isSome then
      Firmware.fail (.badOperand "pma entry in use")
    else
      let region : Region := ⟨pa, va, size⟩
      let encoding ← liftExcept region.encoding
      Firmware.csrWrite (.pmaAddr entry.toUInt8) encoding
      writeConfig entry regionConfig
      Firmware.log .debug
        s!"pma[{entry}]: {hex pa.toNat}+{hex size.toNat} non-cacheable for va {hex va.toNat}"
      return ⟨t.slots.set entry.toNat (some region)⟩
  else
    Firmware.fail (.badOperand "pma entry out of range")

/-- Releases the lowest entry that belongs to an owner. -/
def release (t : Table) (va : UInt64) : Firmware Table := do
  match t.entryOf? va with
  | none => Firmware.fail (.badOperand "no pma region for this address")
  | some i =>
    let entry := i.val.toUInt64
    writeConfig entry 0
    Firmware.csrWrite (.pmaAddr entry.toUInt8) 0
    Firmware.log .debug s!"pma[{entry}]: freed (va {hex va.toNat})"
    return ⟨t.slots.set i none⟩

/-- Frees every entry, and clears the configuration registers if the core has them. -/
def clear : Firmware Table := do
  if ← programmable then
    configStarts.forM fun entry ↦ Firmware.csrWrite (Csr.pmaCfgOf entry) 0
  return empty

@[simp] theorem get?_empty (entry : UInt64) : empty.get? entry = none := by
  simp only [get?, empty, Vector.getElem?_replicate]
  split <;> rfl

end Table

end BringUp.Pma
