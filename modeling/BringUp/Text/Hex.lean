/-!
# Hexadecimal text

The one way in which numbers are written in base sixteen: `0x` and lower-case digits without
leading zeros, so that zero is `0x0`.
-/

namespace BringUp

/-- `0x` and the lower-case digits of `n`, without leading zeros. -/
def hex (n : Nat) : String :=
  "0x" ++ String.ofList (Nat.toDigits 16 n)

/-- Characters after the `0x` mark are exactly the base-sixteen digits. -/
theorem toList_hex (n : Nat) : (hex n).toList = '0' :: 'x' :: Nat.toDigits 16 n := by
  simp [hex]

end BringUp
