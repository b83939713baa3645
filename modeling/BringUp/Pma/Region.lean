import BringUp.Stop

/-!
# Memory attribute regions

A region of memory whose attributes are overridden: a power of two of bytes, aligned to its size.
The hardware takes place and size as one number, in which the run of ones at the low end tells the
size.
-/

namespace BringUp.Pma

/-- A region and the virtual address of whoever asked for it. -/
structure Region where
  /-- Physical address of the first byte. -/
  pa : UInt64
  /-- Virtual address of the owner, by which the region is released. -/
  va : UInt64
  /-- Number of bytes. -/
  size : UInt64
  deriving Repr, DecidableEq, Inhabited

/-! ### Sizes and places -/

/-- Size of the smallest region. -/
def minSize : UInt64 := 4096

/-- Whether a number is a power of two. -/
def isPowerOfTwo (n : UInt64) : Bool :=
  (List.range 64).any fun k ↦ n.toNat == 1 <<< k

/-- Whether a region may have a size. -/
def validSize (size : UInt64) : Bool :=
  isPowerOfTwo size && minSize ≤ size

/-- Whether a place is aligned to a size. -/
def aligned (pa size : UInt64) : Bool :=
  pa % size == 0

theorem isPowerOfTwo_iff {n : UInt64} : isPowerOfTwo n = true ↔ ∃ k < 64, n.toNat = 1 <<< k := by
  simp [isPowerOfTwo]

/-! ### Encoding -/

/-- Place and size as the address register takes them: the address in units of four bytes, with all
bits below half the size set. A region under eight bytes has no encoding. -/
def Region.encoding (r : Region) : Except Stop UInt64 := do
  let ones ← exactSub (r.size >>> 3) 1
  return (r.pa >>> 2) ||| ones

/-! ### Attributes -/

/-- Matching mode: a naturally aligned power of two. -/
def modeNapot : UInt8 := 0x3

/-- Attribute: not cached, writes may be buffered. -/
def typeNoncacheable : UInt8 := 0xC

/-- Configuration byte of every region handed out. -/
def regionConfig : UInt8 := modeNapot ||| typeNoncacheable

end BringUp.Pma
