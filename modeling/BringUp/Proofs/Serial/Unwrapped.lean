import BringUp.Serial.Line
import BringUp.Stop

/-!
# Rate arithmetic that does not wrap

Word arithmetic wraps, narrowing drops bits, and a quotient by zero is zero. The arithmetic of a
line's rate relies on none of this: done again with operations that give nothing instead, in the
same order, each of its functions still gives its value (`divisorUnwrapped_eq`, `dutyUnwrapped_eq`,
`settleUnwrapped_eq`). Divisor and duty do so for every clock, rate and divisor, and the settle
wait for every rate but zero, which no line has.
-/

namespace BringUp

/-! ### Operations that do not wrap -/

/-- The product, if it fits in the word. -/
def product? (a b : UInt64) : Option UInt64 :=
  if a.toNat * b.toNat < UInt64.size then some (a * b) else none

/-- The rounded quotient, if there is one. -/
def quotient? (a b : UInt64) : Option UInt64 :=
  if b = 0 then none else some (a / b)

/-- The number as a byte, if it fits in one. -/
def byte? (a : UInt64) : Option UInt8 :=
  if a ≤ 255 then some a.toUInt8 else none

variable {a b : UInt64}

theorem product?_of_lt (h : a.toNat * b.toNat < UInt64.size) : product? a b = some (a * b) :=
  if_pos h

theorem quotient?_of_ne (h : b ≠ 0) : quotient? a b = some (a / b) :=
  if_neg h

theorem byte?_of_le (h : a ≤ 255) : byte? a = some a.toUInt8 :=
  if_pos h

theorem toOption_exactAdd_of_lt (h : a.toNat + b.toNat < UInt64.size) :
    (exactAdd a b).toOption = some (a + b) := by
  rw [exactAdd_of_lt h]
  rfl

theorem toOption_exactSub_of_le (h : b ≤ a) : (exactSub a b).toOption = some (a - b) := by
  rw [exactSub_of_le h]
  rfl

namespace Serial

/-! ### The arithmetic of a rate -/

/-- The divisor, from operations that do not wrap. -/
def divisorUnwrapped (clock : UInt64) (baud : UInt32) : Option (Option UInt8) :=
  if baud = 0 then some none
  else do
    let cycles ← product? 32 baud.toUInt64
    let quotient ← quotient? clock cycles
    if quotient = 0 then some none
    else do
      let divisor ← (exactSub quotient 1).toOption
      if 255 < divisor then some none else (byte? divisor).map some

/-- The duty, from operations that do not wrap. -/
def dutyUnwrapped (clock : UInt64) (baud : UInt32) (divisor : UInt8) : Option UInt8 :=
  if clock = 0 then some 255
  else do
    let scale ← product? 256 32
    let scaled ← product? scale baud.toUInt64
    let steps ← (exactAdd divisor.toUInt64 1).toOption
    let numerator ← product? scaled steps
    let half ← quotient? clock 2
    let sum ← (exactAdd numerator half).toOption
    let duty ← quotient? sum clock
    if duty < 128 then some 128 else if 255 < duty then some 255 else byte? duty

/-- The settle wait, from operations that do not wrap. -/
def settleUnwrapped (baud : UInt32) : Option UInt64 := do
  let period ← quotient? 1000000 baud.toUInt64
  (exactAdd period 1).toOption

/-- The cycles of a bit fit in the word. -/
theorem product?_cycles (baud : UInt32) :
    product? 32 baud.toUInt64 = some (32 * baud.toUInt64) := by
  have hbaud := baud.toNat_lt
  refine product?_of_lt ?_
  rw [UInt32.toNat_toUInt64, UInt64.size, show (32 : UInt64).toNat = 32 from rfl]
  omega

/-- There are some, unless the rate is zero. -/
theorem quotient?_cycles {baud : UInt32} (h : baud ≠ 0) (clock : UInt64) :
    quotient? clock (32 * baud.toUInt64) = some (rateQuotient clock baud) := by
  have hbaud := baud.toNat_lt
  have hpos : 0 < baud.toNat := Nat.pos_of_ne_zero fun h0 ↦ h (UInt32.toNat.inj h0)
  refine quotient?_of_ne fun h0 ↦ ?_
  have hcycles := congrArg UInt64.toNat h0
  rw [UInt64.toNat_mul, UInt32.toNat_toUInt64, show (32 : UInt64).toNat = 32 from rfl,
    show (0 : UInt64).toNat = 0 from rfl] at hcycles
  omega

/-- **Choosing a divisor does not wrap.** -/
theorem divisorUnwrapped_eq (clock : UInt64) (baud : UInt32) :
    divisorUnwrapped clock baud = some (divisor? clock baud) := by
  unfold divisorUnwrapped divisor?
  split
  · rfl
  · next hbaud =>
    simp only [product?_cycles, quotient?_cycles hbaud, Option.bind_eq_bind, Option.bind_some]
    by_cases hzero : rateQuotient clock baud = 0
    · rw [if_pos hzero, if_pos (.inl hzero)]
    · have hone : 1 ≤ rateQuotient clock baud :=
        UInt64.le_iff_toNat_le.2 (Nat.pos_of_ne_zero fun h0 ↦ hzero (UInt64.toNat.inj h0))
      rw [if_neg hzero, toOption_exactSub_of_le hone, Option.bind_some]
      by_cases hbyte : 255 < rateQuotient clock baud - 1
      · rw [if_pos hbyte, if_pos (.inr hbyte)]
      · rw [if_neg hbyte, if_neg (not_or.2 ⟨hzero, hbyte⟩), byte?_of_le (UInt64.not_lt.1 hbyte)]
        rfl

/-- The numerator of the duty fits in the word, and so does what is computed on the way. -/
theorem product?_numerator (baud : UInt32) (divisor : UInt8) :
    product? 256 32 = some (256 * 32) ∧
      product? (256 * 32) baud.toUInt64 = some (256 * 32 * baud.toUInt64) ∧
      (exactAdd divisor.toUInt64 1).toOption = some (divisor.toUInt64 + 1) ∧
      product? (256 * 32 * baud.toUInt64) (divisor.toUInt64 + 1) =
        some (dutyNumerator baud divisor) := by
  have hbaud := baud.toNat_lt
  have hdivisor := divisor.toNat_lt
  refine ⟨rfl, product?_of_lt ?_, toOption_exactAdd_of_lt ?_, product?_of_lt ?_⟩
  · rw [UInt32.toNat_toUInt64, UInt64.size, show (256 * 32 : UInt64).toNat = 8192 from rfl]
    omega
  · rw [UInt8.toNat_toUInt64, UInt64.size, show (1 : UInt64).toNat = 1 from rfl]
    omega
  · rw [toNat_baudScale, toNat_divisorSteps]
    exact Nat.lt_trans (dutyNumerator_lt baud divisor) (by decide)

/-- **Computing a duty does not wrap.** -/
theorem dutyUnwrapped_eq (clock : UInt64) (baud : UInt32) (divisor : UInt8) :
    dutyUnwrapped clock baud divisor = some (dutyOf clock baud divisor) := by
  unfold dutyUnwrapped dutyOf
  split
  · rfl
  · next hclock =>
    obtain ⟨hscale, hscaled, hsteps, hnumerator⟩ := product?_numerator baud divisor
    -- rounding adds half a clock, which is less than what the numerator leaves free
    have hsum : (dutyNumerator baud divisor).toNat + (clock / 2).toNat < UInt64.size := by
      have hlt := dutyNumerator_lt baud divisor
      have hhalf := clock.toNat_lt
      rw [toNat_dutyNumerator, UInt64.toNat_div, UInt64.size, show (2 : UInt64).toNat = 2 from rfl]
      omega
    simp only [hscale, hscaled, hsteps, hnumerator, toOption_exactAdd_of_lt hsum,
      quotient?_of_ne (show (2 : UInt64) ≠ 0 by decide), quotient?_of_ne hclock,
      Option.bind_eq_bind, Option.bind_some]
    -- only a number that is in range is narrowed
    split
    · rfl
    · split
      · rfl
      · next hbyte => exact byte?_of_le (UInt64.not_lt.1 hbyte)

/-- **Computing the settle wait of a line does not wrap.** -/
theorem Line.settleUnwrapped_eq (line : Line) :
    settleUnwrapped line.baud = some line.settleMicros := by
  have hbaud : line.baud.toUInt64 ≠ 0 := by
    intro h0
    have hzero : line.baud.toNat = 0 := by
      rw [← UInt32.toNat_toUInt64, h0]
      rfl
    exact Nat.ne_of_gt line.baud_pos hzero
  have hperiod : (1000000 / line.baud.toUInt64).toNat ≤ 1000000 := by
    rw [UInt64.toNat_div]
    exact Nat.div_le_self _ _
  have hsum : (1000000 / line.baud.toUInt64).toNat + (1 : UInt64).toNat < UInt64.size :=
    Nat.lt_of_le_of_lt (Nat.add_le_add_right hperiod _) (by decide)
  rw [settleUnwrapped, quotient?_of_ne hbaud, Option.bind_eq_bind, Option.bind_some,
    toOption_exactAdd_of_lt hsum, settleMicros]

end Serial

end BringUp
