import BringUp.Bus.Width
import Std.Data.HashMap

/-!
# Sparse memory

The bytes behind the simulated bus. Every address holds a byte, zero until something is stored.
The view of a memory is `byte`; `byte_store` says what storing does to it.

`load` and `store` wrap at the end of the address space. `get?`, `put?`, `raise?` and `lower?`
answer `none` for an access that runs over it.
-/

namespace BringUp

/-- A byte for every address, zero where nothing was stored. -/
structure Memory where
  /-- The bytes stored so far. -/
  cells : Std.HashMap UInt64 UInt8 := ∅

namespace Memory

/-- Nothing was stored. -/
def empty : Memory := ⟨∅⟩

instance : Inhabited Memory := ⟨empty⟩

/-- The byte at an address. -/
def byte (mem : Memory) (address : UInt64) : UInt8 :=
  mem.cells.getD address 0

/-- Stores one byte. -/
def storeByte (mem : Memory) (address : UInt64) (b : UInt8) : Memory :=
  ⟨mem.cells.insert address b⟩

/-- Stores bytes at consecutive addresses. -/
def store (mem : Memory) (address : UInt64) : List UInt8 → Memory
  | [] => mem
  | b :: bs => (mem.storeByte address b).store (address + 1) bs

/-- The `n` bytes at consecutive addresses. -/
def bytesAt (mem : Memory) (address : UInt64) : Nat → List UInt8
  | 0 => []
  | n + 1 => mem.byte address :: mem.bytesAt (address + 1) n

/-- The value at an address. -/
def load (mem : Memory) (address : UInt64) (w : Width) : UInt32 :=
  ofBytes (mem.bytesAt address w.bytes)

/-! ### Accesses that stay inside the address space -/

/-- The value at an address. -/
def get? (mem : Memory) (address : UInt64) (w : Width) : Option UInt32 :=
  if w.fits address then some (mem.load address w) else none

/-- Stores the low bits of a value. -/
def put? (mem : Memory) (address : UInt64) (w : Width) (value : UInt32) : Option Memory :=
  if w.fits address then some (mem.store address (bytesOf w.bytes value)) else none

/-- Sets bits and keeps the others. -/
def raise? (mem : Memory) (address : UInt64) (w : Width) (bits : UInt32) : Option Memory := do
  mem.put? address w ((← mem.get? address w) ||| bits)

/-- Clears bits and keeps the others. -/
def lower? (mem : Memory) (address : UInt64) (w : Width) (bits : UInt32) : Option Memory := do
  mem.put? address w ((← mem.get? address w) &&& ~~~bits)

/-! ### The view -/

@[simp] theorem byte_empty (address : UInt64) : empty.byte address = 0 := by
  simp [byte, empty]

theorem byte_storeByte (mem : Memory) (address a : UInt64) (b : UInt8) :
    (mem.storeByte address b).byte a = if address = a then b else mem.byte a := by
  simp [byte, storeByte, Std.HashMap.getD_insert]

/-- Storing changes the bytes from the address on, as many as are stored, and no others. -/
theorem byte_store (mem : Memory) (address a : UInt64) (bs : List UInt8)
    (h : bs.length ≤ UInt64.size) :
    (mem.store address bs).byte a = (bs[(a - address).toNat]?).getD (mem.byte a) := by
  induction bs generalizing mem address with
  | nil => simp [store]
  | cons b bs ih =>
    rw [List.length_cons, UInt64.size] at h
    rw [store, ih _ _ (by rw [UInt64.size]; omega), byte_storeByte]
    by_cases ha : address = a
    · subst ha
      have hlast : (address - (address + 1)).toNat = UInt64.size - 1 := by
        rw [show address - (address + 1) = -1 by grind]
        rfl
      rw [UInt64.size] at hlast
      rw [List.getElem?_eq_none (by omega), UInt64.sub_self]
      simp
    · have hstep : (a - address).toNat = (a - (address + 1)).toNat + 1 := by
        have hone : (1 : UInt64).toNat = 1 := rfl
        have hpos : (a - address).toNat ≠ 0 := fun h0 ↦ ha <| by
          have := UInt64.toNat.inj (a := a - address) (b := 0) h0
          grind
        have hle : (1 : UInt64) ≤ a - address :=
          UInt64.le_iff_toNat_le.2 (by omega)
        rw [show a - (address + 1) = a - address - 1 by grind, UInt64.toNat_sub_of_le _ _ hle]
        omega
      rw [hstep, List.getElem?_cons_succ, if_neg ha]

@[simp] theorem length_bytesAt (mem : Memory) (address : UInt64) (n : Nat) :
    (mem.bytesAt address n).length = n := by
  induction n generalizing address with
  | zero => rfl
  | succ n ih => simp [bytesAt, ih]

end Memory

end BringUp
