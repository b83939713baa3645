import BringUp.Bus.Memory
import BringUp.Bus.Ram

/-!
# Plain memory and sparse memory

The block of bytes in `Ram` and the cells in `Memory` are two spellings of one function from
addresses to bytes. A memory that `Mirrors` a block agrees with it at every address: outside the
block both are zero.

Agreement carries over from bytes to values. A load that lies in the block gives the same value in
both (`Memory.Mirrors.load_eq`), and after the same store inside the block the two agree again
(`Memory.Mirrors.store`), whatever the widths of earlier stores and wherever these overlapped: the
induction is on the bytes of one access, and its invariant says nothing of earlier ones.
-/

namespace BringUp

namespace Ram

variable (ram : Ram)

/-- The byte at an address, zero outside the block. -/
def byte (address : UInt64) : UInt8 :=
  ram.bytes.getD (ram.index address) 0

/-- The block ends inside the address space. -/
def Fits : Prop :=
  ram.origin.toNat + ram.bytes.size ≤ UInt64.size

instance : Decidable ram.Fits :=
  inferInstanceAs (Decidable (ram.origin.toNat + ram.bytes.size ≤ UInt64.size))

/-- The `n` bytes from an address on lie in the block. -/
def Holds (address : UInt64) (n : Nat) : Prop :=
  ram.origin.toNat ≤ address.toNat ∧ address.toNat + n ≤ ram.origin.toNat + ram.bytes.size

/-- One byte of the block changed. -/
def setByte (i : Nat) (b : UInt8) : Ram :=
  { ram with bytes := ram.bytes.setIfInBounds i b }

theorem spellAt_succ (i n number : Nat) : ram.spellAt i (n + 1) number =
    (ram.setByte i (UInt8.ofNat (number % 256))).spellAt (i + 1) n (number / 256) := rfl

/-! ### Shape -/

theorem size_setByte (i : Nat) (b : UInt8) : (ram.setByte i b).bytes.size = ram.bytes.size :=
  Array.size_setIfInBounds

theorem origin_spellAt (i n number : Nat) : (ram.spellAt i n number).origin = ram.origin := by
  induction n generalizing ram i number with
  | zero => rfl
  | succ n ih => exact ih _ _ _

theorem size_spellAt (i n number : Nat) :
    (ram.spellAt i n number).bytes.size = ram.bytes.size := by
  induction n generalizing ram i number with
  | zero => rfl
  | succ n ih => exact (ih _ _ _).trans (ram.size_setByte _ _)

@[simp] theorem origin_store (address : UInt64) (w : Width) (value : UInt32) :
    (ram.store address w value).origin = ram.origin :=
  ram.origin_spellAt _ _ _

@[simp] theorem size_store (address : UInt64) (w : Width) (value : UInt32) :
    (ram.store address w value).bytes.size = ram.bytes.size :=
  ram.size_spellAt _ _ _

/-- The bits of a value that the access does not carry are lost. -/
theorem store_truncate (address : UInt64) (w : Width) (value : UInt32) :
    ram.store address w (w.truncate value) = ram.store address w value := by
  rcases w with - | - | -
  · show ram.spellAt _ 1 (value % 0x100).toNat = ram.spellAt _ 1 value.toNat
    simp [spellAt]
  · show ram.spellAt _ 2 (value % 0x10000).toNat = ram.spellAt _ 2 value.toNat
    have hlow : value.toNat % 65536 % 256 = value.toNat % 256 := by omega
    have hhigh : value.toNat % 65536 / 256 % 256 = value.toNat / 256 % 256 := by omega
    simp [spellAt, hlow, hhigh]
  · rfl

/-! ### Places -/

theorem byte_zeroed (origin : UInt64) (size : Nat) (address : UInt64) :
    (zeroed origin size).byte address = 0 := by
  rw [byte, zeroed, Array.getD_eq_getD_getElem?, Array.getElem?_replicate]
  split <;> rfl

variable {ram} {address : UInt64} {i n : Nat}

theorem index_of_holds (h : ram.Holds address n) :
    ram.index address = address.toNat - ram.origin.toNat := by
  rw [index, UInt64.toNat_sub_of_le _ _ (UInt64.le_iff_toNat_le.2 h.1)]

/-- Two addresses have the same place only if they are the same. -/
theorem index_inj {a a' : UInt64} : ram.index a = ram.index a' ↔ a = a' := by
  rw [index, index, UInt64.toNat_inj, UInt64.sub_left_inj]

/-- The place of the next address, as long as places do not wrap. -/
theorem index_succ (h : ram.index address = i) (hlt : i + 1 < UInt64.size) :
    ram.index (address + 1) = i + 1 := by
  have hnext : address + 1 - ram.origin = address - ram.origin + 1 := by grind
  rw [index] at h
  rw [index, hnext, UInt64.toNat_add, h, UInt64.toNat_one, Nat.mod_eq_of_lt hlt]

/-- Changing a byte changes it at one address. -/
theorem byte_setByte (h : ram.index address < ram.bytes.size) (b : UInt8) (a : UInt64) :
    (ram.setByte (ram.index address) b).byte a = if address = a then b else ram.byte a := by
  show (ram.bytes.setIfInBounds (ram.index address) b).getD (ram.index a) 0 = _
  rw [Array.getD_eq_getD_getElem?, Array.getElem?_setIfInBounds]
  simp only [index_inj, h, if_true]
  split
  · rfl
  · rw [byte, Array.getD_eq_getD_getElem?]

end Ram

namespace Memory

variable {mem : Memory} {ram : Ram}

/-- Memory and block agree at every address. -/
def Mirrors (mem : Memory) (ram : Ram) : Prop :=
  ∀ a, mem.byte a = ram.byte a

namespace Mirrors

theorem empty_zeroed (origin : UInt64) (size : Nat) : empty.Mirrors (.zeroed origin size) :=
  fun a ↦ by rw [byte_empty, Ram.byte_zeroed]

variable (h : mem.Mirrors ram)
include h

/-- The bytes from an address on spell the same number. -/
theorem ofBytes_bytesAt {address : UInt64} {i n : Nat} (hend : i + n ≤ UInt64.size)
    (hi : 0 < n → ram.index address = i) :
    ofBytes (mem.bytesAt address n) = UInt32.ofNat (ram.numberAt i n) := by
  induction n generalizing address i with
  | zero => rfl
  | succ n ih =>
    have hindex := hi (Nat.succ_pos n)
    have hrest := ih (by omega : i + 1 + n ≤ UInt64.size) fun hn ↦
      Ram.index_succ hindex (by omega)
    rw [bytesAt, ofBytes, hrest, Ram.numberAt, UInt32.ofNat_add, UInt32.ofNat_mul, h address,
      Ram.byte, hindex, UInt32.ofNat_uInt8ToNat]
    rfl

/-- **A load that lies in the block gives the value that the block holds there.** -/
theorem load_eq (hfits : ram.Fits) {address : UInt64} {w : Width}
    (hin : ram.Holds address w.bytes) :
    mem.load address w = ram.load address w := by
  refine h.ofBytes_bytesAt ?_ fun _ ↦ rfl
  rw [Ram.index_of_holds hin]
  unfold Ram.Fits at hfits
  unfold Ram.Holds at hin
  omega

/-- Bytes stored in the memory and a number spelled in the block keep the two in agreement. -/
theorem store_spellAt {address : UInt64} {i n : Nat} {value : UInt32}
    (hend : i + n ≤ ram.bytes.size) (hsize : ram.bytes.size ≤ UInt64.size)
    (hi : 0 < n → ram.index address = i) :
    (mem.store address (bytesOf n value)).Mirrors (ram.spellAt i n value.toNat) := by
  induction n generalizing mem ram address i value with
  | zero => exact h
  | succ n ih =>
    have hindex := hi (Nat.succ_pos n)
    have hlt : ram.index address < ram.bytes.size := by omega
    -- the lowest byte goes to the same address in both, so they agree after it as before
    have hbyte : UInt8.ofNat (value.toNat % 256) = value.toUInt8 := by
      refine UInt8.toNat.inj ?_
      simp
    have hfirst : (mem.storeByte address value.toUInt8).Mirrors (ram.setByte i value.toUInt8) := by
      intro a
      rw [byte_storeByte, ← hindex, Ram.byte_setByte hlt, h a]
    have hsame := ram.size_setByte i value.toUInt8
    have hrest : value.toNat / 256 = (value / 256).toNat := by simp
    rw [bytesOf, Memory.store, Ram.spellAt_succ, hbyte, hrest]
    exact ih hfirst (by omega) (by omega) fun hn ↦ Ram.index_succ hindex (by omega)

/-- **After the same store inside the block memory and block agree again.** -/
theorem store (hfits : ram.Fits) {address : UInt64} {w : Width} (hin : ram.Holds address w.bytes)
    (value : UInt32) :
    (mem.store address (bytesOf w.bytes value)).Mirrors (ram.store address w value) := by
  unfold Ram.Fits at hfits
  have hindex := Ram.index_of_holds hin
  unfold Ram.Holds at hin
  exact h.store_spellAt (by omega) (by omega) fun _ ↦ rfl

end Mirrors

end Memory

end BringUp
