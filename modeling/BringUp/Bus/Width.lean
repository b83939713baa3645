/-!
# Access widths

A bus access carries one, two or four bytes, least significant byte first. `bytesOf` spells the low
bytes of a value and `ofBytes` reads them back; what comes back is the value cut to the width
(`ofBytes_bytesOf`).
-/

namespace BringUp

/-- Width of a bus access. -/
inductive Width
  /-- One byte. -/
  | byte
  /-- Two bytes. -/
  | half
  /-- Four bytes. -/
  | word
  deriving Repr, DecidableEq, Inhabited

namespace Width

/-- Number of bytes carried. -/
def bytes : Width → Nat
  | byte => 1
  | half => 2
  | word => 4

/-- Number of bits carried. -/
def bits (w : Width) : Nat :=
  8 * w.bytes

/-- The low bits of a value, as many as the access carries. -/
def truncate : Width → UInt32 → UInt32
  | byte, value => value % 0x100
  | half, value => value % 0x10000
  | word, value => value

/-- Whether an access at `address` ends inside the address space. -/
def fits (w : Width) (address : UInt64) : Bool :=
  address.toNat + w.bytes ≤ UInt64.size

theorem bytes_pos (w : Width) : 0 < w.bytes := by
  cases w <;> decide

theorem bytes_le_four (w : Width) : w.bytes ≤ 4 := by
  cases w <;> decide

theorem fits_iff {w : Width} {address : UInt64} :
    w.fits address = true ↔ address.toNat + w.bytes ≤ UInt64.size :=
  decide_eq_true_iff

end Width

/-! ### Values as bytes -/

/-- The `n` low bytes of a value, least significant first. -/
def bytesOf : Nat → UInt32 → List UInt8
  | 0, _ => []
  | n + 1, value => value.toUInt8 :: bytesOf n (value / 256)

/-- The value of at most four bytes, least significant first. -/
def ofBytes : List UInt8 → UInt32
  | [] => 0
  | b :: bs => b.toUInt32 + 256 * ofBytes bs

@[simp] theorem length_bytesOf (n : Nat) (value : UInt32) : (bytesOf n value).length = n := by
  induction n generalizing value with
  | zero => rfl
  | succ n ih => simp [bytesOf, ih]

/-- Reading back the bytes of a value gives its low bits. -/
theorem ofBytes_bytesOf (w : Width) (value : UInt32) :
    ofBytes (bytesOf w.bytes value) = w.truncate value := by
  have h := value.toNat_lt
  cases w <;> apply UInt32.toNat.inj <;>
    simp [Width.bytes, Width.truncate, bytesOf, ofBytes] <;> omega

end BringUp
