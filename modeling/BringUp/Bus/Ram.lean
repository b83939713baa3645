import BringUp.Bus.Width

/-!
# Plain memory

A block of ordinary memory, the other thing a register block can lie over: bytes in a row from an
origin, loads and stores of little-endian numbers, no device. Outside the block loads give zero and
stores are lost.
-/

namespace BringUp

/-- Bytes in a row from an origin. -/
structure Ram where
  /-- Address of the first byte. -/
  origin : UInt64
  /-- The bytes. -/
  bytes : Array UInt8
  deriving Repr, DecidableEq, Inhabited

namespace Ram

/-- A block of zeros. -/
def zeroed (origin : UInt64) (size : Nat) : Ram :=
  ⟨origin, Array.replicate size 0⟩

/-- Place of an address in the block. -/
def index (ram : Ram) (address : UInt64) : Nat :=
  (address - ram.origin).toNat

/-- The number that the `n` bytes from place `i` on spell, least significant first. -/
def numberAt (ram : Ram) (i : Nat) : Nat → Nat
  | 0 => 0
  | n + 1 => (ram.bytes.getD i 0).toNat + 256 * ram.numberAt (i + 1) n

/-- Spells a number with the `n` bytes from place `i` on. -/
def spellAt (ram : Ram) (i : Nat) : Nat → Nat → Ram
  | 0, _ => ram
  | n + 1, number =>
    { ram with bytes := ram.bytes.setIfInBounds i (UInt8.ofNat (number % 256)) }.spellAt
      (i + 1) n (number / 256)

/-- Loads the number at an address. -/
def load (ram : Ram) (address : UInt64) (w : Width) : UInt32 :=
  UInt32.ofNat (ram.numberAt (ram.index address) w.bytes)

/-- Stores the low bits of a number at an address. -/
def store (ram : Ram) (address : UInt64) (w : Width) (value : UInt32) : Ram :=
  ram.spellAt (ram.index address) w.bytes value.toNat

end Ram

end BringUp
