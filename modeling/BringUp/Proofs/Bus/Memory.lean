import BringUp.Bus.Memory

/-!
# Values in memory

What is stored is loaded again, cut to the width of the access (`Memory.load_store`), and a value
keeps within the width that it was loaded with.
-/

namespace BringUp

/-! ### Setting bits -/

/-- Setting bits after they were cleared is setting them. -/
theorem bitVec_and_not_or_self {n : Nat} (a b : BitVec n) : (a &&& ~~~b) ||| b = a ||| b := by
  refine BitVec.eq_of_getElem_eq fun i hi ↦ ?_
  rw [BitVec.getElem_or, BitVec.getElem_and, BitVec.getElem_not, BitVec.getElem_or]
  rcases b[i] with - | -
  · rw [Bool.not_false, Bool.and_true]
  · rw [Bool.or_true, Bool.or_true]

theorem and_not_or_self (a b : UInt32) : (a &&& ~~~b) ||| b = a ||| b :=
  UInt32.toBitVec_inj.1 (bitVec_and_not_or_self a.toBitVec b.toBitVec)

theorem byte_and_not_or_self (a b : UInt8) : (a &&& ~~~b) ||| b = a ||| b :=
  UInt8.toBitVec_inj.1 (bitVec_and_not_or_self a.toBitVec b.toBitVec)

/-- Clearing bits after they were set is clearing them. -/
theorem bitVec_or_and_not_self {n : Nat} (a b : BitVec n) : (a ||| b) &&& ~~~b = a &&& ~~~b := by
  refine BitVec.eq_of_getElem_eq fun i hi ↦ ?_
  rw [BitVec.getElem_and, BitVec.getElem_or, BitVec.getElem_and, BitVec.getElem_not]
  rcases b[i] with - | -
  · rw [Bool.or_false]
  · rw [Bool.not_true, Bool.and_false, Bool.and_false]

theorem byte_or_and_not_self (a b : UInt8) : (a ||| b) &&& ~~~b = a &&& ~~~b :=
  UInt8.toBitVec_inj.1 (bitVec_or_and_not_self a.toBitVec b.toBitVec)

/-! ### Widths -/

namespace Width

/-- A sixteen-bit write carries all of a value that was read sixteen bits wide and then masked. -/
theorem truncate_half_and {seen : UInt32} (h : seen.toNat < 0x10000) (mask : UInt32) :
    Width.half.truncate (seen &&& mask) = seen &&& mask := by
  have hle : (seen &&& mask).toNat ≤ seen.toNat := by
    rw [UInt32.toNat_and]
    exact Nat.and_le_left
  refine UInt32.toNat.inj ?_
  rw [Width.truncate, UInt32.toNat_mod]
  exact Nat.mod_eq_of_lt (Nat.lt_of_le_of_lt hle h)

/-- A byte is carried whole by a write of its width. -/
theorem truncate_byte (b : UInt8) : Width.byte.truncate b.toUInt32 = b.toUInt32 := by
  refine UInt32.toNat.inj ?_
  rw [Width.truncate, UInt32.toNat_mod, UInt8.toNat_toUInt32]
  exact Nat.mod_eq_of_lt b.toNat_lt

/-- The lowest byte is carried by every write. -/
theorem toUInt8_truncate (w : Width) (value : UInt32) :
    (w.truncate value).toUInt8 = value.toUInt8 := by
  refine UInt8.toNat.inj ?_
  cases w
  · rw [truncate, UInt32.toNat_toUInt8, UInt32.toNat_toUInt8, UInt32.toNat_mod]
    exact Nat.mod_mod _ _
  · rw [truncate, UInt32.toNat_toUInt8, UInt32.toNat_toUInt8, UInt32.toNat_mod]
    exact Nat.mod_mod_of_dvd _ (by decide)
  · rfl

end Width

/-! ### Addresses -/

section Addresses

variable {a b : UInt64} {n i : Nat}

/-- Places of an access inside the address space do not wrap. -/
theorem toNat_add_ofNat (hend : a.toNat + n ≤ UInt64.size) (hi : i < n) :
    (a + UInt64.ofNat i).toNat = a.toNat + i := by
  rw [UInt64.size] at hend
  rw [UInt64.toNat_add, UInt64.toNat_ofNat', Nat.add_mod_mod]
  exact Nat.mod_eq_of_lt (by omega)

/-- The distance from the first of `n` bytes inside the address space is less than `n` only for
these bytes. -/
theorem toNat_sub_lt_iff (hend : b.toNat + n ≤ UInt64.size) :
    (a - b).toNat < n ↔ b.toNat ≤ a.toNat ∧ a.toNat < b.toNat + n := by
  have ha := a.toNat_lt
  rw [UInt64.size] at hend
  rw [UInt64.toNat_sub]
  omega

end Addresses

/-! ### Memory -/

namespace Memory

theorem load_byte (mem : Memory) (address : UInt64) :
    mem.load address .byte = (mem.byte address).toUInt32 := by
  simp [load, Width.bytes, bytesAt, ofBytes]

theorem load_half_lt (memory : Memory) (address : UInt64) :
    (memory.load address .half).toNat < 0x10000 := by
  have h₀ := (memory.byte address).toNat_lt
  have h₁ := (memory.byte (address + 1)).toNat_lt
  simp only [Memory.load, Width.bytes, Memory.bytesAt, ofBytes, UInt32.toNat_add, UInt32.toNat_mul,
    UInt8.toNat_toUInt32, UInt32.reduceToNat]
  omega

/-- A value that was loaded is carried whole by a write of the same width. -/
theorem truncate_load (memory : Memory) (address : UInt64) (w : Width) :
    w.truncate (memory.load address w) = memory.load address w := by
  rcases w with - | - | -
  · rw [load_byte, Width.truncate_byte]
  · refine UInt32.toNat.inj ?_
    rw [Width.truncate, UInt32.toNat_mod]
    exact Nat.mod_eq_of_lt (load_half_lt memory address)
  · rfl

theorem getElem_bytesAt (mem : Memory) (address : UInt64) {n i : Nat}
    (h : i < (mem.bytesAt address n).length) :
    (mem.bytesAt address n)[i] = mem.byte (address + UInt64.ofNat i) := by
  induction n generalizing address i with
  | zero => cases h
  | succ n ih =>
    cases i with
    | zero => simp [bytesAt]
    | succ i =>
      simp only [bytesAt, List.getElem_cons_succ]
      rw [ih]
      congr 1
      rw [UInt64.ofNat_add, UInt64.add_comm (UInt64.ofNat i), ← UInt64.add_assoc]
      rfl

theorem bytesAt_store (mem : Memory) (address : UInt64) (bs : List UInt8)
    (h : bs.length ≤ UInt64.size) : (mem.store address bs).bytesAt address bs.length = bs := by
  refine List.ext_getElem (length_bytesAt _ _ _) fun i hi hi' ↦ ?_
  -- addresses may wrap, but the distance from the first one does not
  have hnat : (address + UInt64.ofNat i - address).toNat = i := by
    rw [UInt64.add_comm, UInt64.add_sub_cancel, UInt64.toNat_ofNat']
    exact Nat.mod_eq_of_lt (Nat.lt_of_lt_of_le hi' h)
  rw [getElem_bytesAt, byte_store _ _ _ _ h, hnat, List.getElem?_eq_getElem hi', Option.getD_some]

/-- What was stored is loaded again, cut to the width. -/
theorem load_store (mem : Memory) (address : UInt64) (w : Width) (value : UInt32) :
    (mem.store address (bytesOf w.bytes value)).load address w = w.truncate value := by
  have hlen : (bytesOf w.bytes value).length = w.bytes := length_bytesOf _ _
  have hle : (bytesOf w.bytes value).length ≤ UInt64.size := by
    rw [hlen]
    exact Nat.le_trans w.bytes_le_four (by decide)
  have hbytes := bytesAt_store mem address _ hle
  rw [hlen] at hbytes
  rw [load, hbytes, ofBytes_bytesOf]

/-- Bytes stored elsewhere do not change what is loaded. -/
theorem load_store_of_apart (mem : Memory) {start address : UInt64} {bs : List UInt8} {w : Width}
    (hsize : bs.length ≤ UInt64.size)
    (h : ∀ i < w.bytes, bs.length ≤ (address + UInt64.ofNat i - start).toNat) :
    (mem.store start bs).load address w = mem.load address w := by
  refine congrArg ofBytes (List.ext_getElem (by simp) fun i hi hi' ↦ ?_)
  rw [length_bytesAt] at hi
  rw [getElem_bytesAt, getElem_bytesAt, byte_store _ _ _ _ hsize, List.getElem?_eq_none (h i hi),
    Option.getD_none]

end Memory

end BringUp
