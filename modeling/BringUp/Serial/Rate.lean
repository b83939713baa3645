/-!
# Line rate arithmetic

The serial controller divides its input clock by `32 * (divisor + 1)` to get the line rate, and can
then thin the result out by `duty / 256`. `divisor?` picks the divisor from a clock and a rate,
`dutyOf` the duty nearest to what the division leaves over.

Everything is computed in 64-bit words. `toNat_rateQuotient` and `toNat_dutyNumerator` say that the
intermediate values fit.
-/

namespace BringUp.Serial

/-- Rate of the console unless the board says otherwise. -/
def defaultBaud : UInt32 := 115200

/-- Clock cycles over the cycles of one bit at the smallest divisor, rounded down. -/
def rateQuotient (clock : UInt64) (baud : UInt32) : UInt64 :=
  clock / (32 * baud.toUInt64)

/-- The divisor that gives a line rate from a clock: one less than the quotient, if it is not
negative and fits the 8-bit rate register. -/
def divisor? (clock : UInt64) (baud : UInt32) : Option UInt8 :=
  if baud = 0 then none
  else
    let quotient := rateQuotient clock baud
    if quotient = 0 ∨ 255 < quotient - 1 then none else some (quotient - 1).toUInt8

/-- 256 times the clock that the rate would need with a divisor. -/
def dutyNumerator (baud : UInt32) (divisor : UInt8) : UInt64 :=
  256 * 32 * baud.toUInt64 * (divisor.toUInt64 + 1)

/-- The modulation duty, in 256ths: what the divided clock has to be multiplied by to give the
rate, rounded to nearest and held to the range from 128 to 255 that the hardware takes. -/
def dutyOf (clock : UInt64) (baud : UInt32) (divisor : UInt8) : UInt8 :=
  if clock = 0 then 255
  else
    let duty := (dutyNumerator baud divisor + clock / 2) / clock
    if duty < 128 then 128 else if 255 < duty then 255 else duty.toUInt8

/-- The quotient is the exact one. -/
theorem toNat_rateQuotient (clock : UInt64) (baud : UInt32) :
    (rateQuotient clock baud).toNat = clock.toNat / (32 * baud.toNat) := by
  have hb := baud.toNat_lt
  have h : (32 * baud.toUInt64).toNat = 32 * baud.toNat := by
    rw [UInt64.toNat_mul, UInt32.toNat_toUInt64]
    exact Nat.mod_eq_of_lt (by simp only [UInt64.reduceToNat]; omega)
  rw [rateQuotient, UInt64.toNat_div, h]

theorem toNat_baudScale (baud : UInt32) : (256 * 32 * baud.toUInt64).toNat = 8192 * baud.toNat := by
  have hb := baud.toNat_lt
  rw [UInt64.toNat_mul, UInt32.toNat_toUInt64]
  exact Nat.mod_eq_of_lt (by simp only [UInt64.reduceMul, UInt64.reduceToNat]; omega)

theorem toNat_divisorSteps (divisor : UInt8) :
    (divisor.toUInt64 + 1).toNat = divisor.toNat + 1 := by
  have hd := divisor.toNat_lt
  rw [UInt64.toNat_add, UInt8.toNat_toUInt64]
  exact Nat.mod_eq_of_lt (by simp only [UInt64.reduceToNat]; omega)

/-- The numerator leaves room in the word. -/
theorem dutyNumerator_lt (baud : UInt32) (divisor : UInt8) :
    8192 * baud.toNat * (divisor.toNat + 1) < 0x20000000000000 := by
  have hb := baud.toNat_lt
  have hd := divisor.toNat_lt
  have hle : 8192 * baud.toNat * (divisor.toNat + 1) ≤ 8192 * baud.toNat * 256 :=
    Nat.mul_le_mul_left _ (by omega)
  omega

/-- The numerator is the exact one. -/
theorem toNat_dutyNumerator (baud : UInt32) (divisor : UInt8) :
    (dutyNumerator baud divisor).toNat = 8192 * baud.toNat * (divisor.toNat + 1) := by
  rw [dutyNumerator, UInt64.toNat_mul, toNat_baudScale, toNat_divisorSteps]
  exact Nat.mod_eq_of_lt (Nat.lt_trans (dutyNumerator_lt baud divisor) (by decide))

end BringUp.Serial
