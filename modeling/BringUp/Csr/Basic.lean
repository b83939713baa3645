/-!
# Control and status registers

The machine-level registers that this firmware reads or writes. Their numbers are part of the
instructions that reach them, so no other register can be named. Besides the first they belong to
the core's own extensions: cache control, memory attributes and configuration words.
-/

namespace BringUp

/-- A control and status register. -/
inductive Csr
  /-- Instruction set. -/
  | misa
  /-- Cache control. -/
  | mcacheCtl
  /-- Cache command. -/
  | mcctlCommand
  /-- Miscellaneous control. -/
  | mmiscCtl
  /-- Instruction cache configuration. -/
  | micmCfg
  /-- Data cache configuration. -/
  | mdcmCfg
  /-- Miscellaneous configuration. -/
  | mmscCfg
  /-- Configuration bytes of memory attribute entries; only even `n` exist. -/
  | pmaCfg (n : UInt8)
  /-- Address of a memory attribute entry. -/
  | pmaAddr (n : UInt8)
  deriving Repr, DecidableEq, Inhabited

namespace Csr

/-! ### Numbers and names -/

/-- Number of the first memory attribute configuration register. -/
def pmaCfgBase : UInt16 := 0xBC0

/-- Number of the first memory attribute address register. -/
def pmaAddrBase : UInt16 := 0xBD0

/-- Number of the register. -/
def number : Csr → UInt16
  | misa => 0x301
  | mcacheCtl => 0x7CA
  | mcctlCommand => 0x7CC
  | mmiscCtl => 0x7D0
  | micmCfg => 0xFC0
  | mdcmCfg => 0xFC1
  | mmscCfg => 0xFC2
  | pmaCfg n => pmaCfgBase + n.toUInt16
  | pmaAddr n => pmaAddrBase + n.toUInt16

/-- Name of the register. -/
def name : Csr → String
  | misa => "Misa"
  | mcacheCtl => "MCacheCtl"
  | mcctlCommand => "MCctlCommand"
  | mmiscCtl => "MMiscCtl"
  | micmCfg => "MicmCfg"
  | mdcmCfg => "MdcmCfg"
  | mmscCfg => "MmscCfg"
  | pmaCfg n => s!"PmaCfg{n.toNat}"
  | pmaAddr n => s!"PmaAddr{n.toNat}"

/-- Whether the register only reports the configuration of the core. -/
def readOnly : Csr → Bool
  | micmCfg | mdcmCfg | mmscCfg => true
  | _ => false

/-! ### Memory attribute entries

Eight entries share a configuration register, one byte each. On a 64-bit core the odd-numbered
configuration registers do not exist.
-/

/-- Number of memory attribute entries. -/
def pmaEntries : Nat := 16

/-- Entries that share a configuration register. -/
def pmaEntriesPerCfg : Nat := 8

/-- Configuration register that holds the byte of an entry. -/
def pmaCfgOf (entry : UInt64) : Csr :=
  pmaCfg (entry / 8 * 2).toUInt8

/-- Position of the byte of an entry inside its configuration register, in bits. -/
def pmaShift (entry : UInt64) : UInt64 :=
  entry % 8 * 8

end Csr

/-! ### Bank -/

/-- A value for every register. -/
def CsrFile := Csr → UInt64

namespace CsrFile

/-- All registers zero. -/
def zero : CsrFile := fun _ ↦ 0

instance : Inhabited CsrFile := ⟨zero⟩

/-- The value of a register. -/
def get (bank : CsrFile) (csr : Csr) : UInt64 :=
  bank csr

/-- Gives one register a value. -/
def set (bank : CsrFile) (csr : Csr) (value : UInt64) : CsrFile :=
  fun c ↦ if c = csr then value else bank c

theorem get_set (bank : CsrFile) (csr c : Csr) (value : UInt64) :
    (bank.set csr value).get c = if c = csr then value else bank.get c := rfl

@[simp] theorem get_set_self (bank : CsrFile) (csr : Csr) (value : UInt64) :
    (bank.set csr value).get csr = value :=
  if_pos rfl

theorem get_set_of_ne {csr c : Csr} (h : c ≠ csr) (bank : CsrFile) (value : UInt64) :
    (bank.set csr value).get c = bank.get c :=
  if_neg h

@[simp] theorem get_zero (csr : Csr) : zero.get csr = 0 := rfl

end CsrFile

end BringUp
