import Mathlib.Algebra.Order.Field.Basic
import Mathlib.Data.Rat.Cast.Order
import Mathlib.Tactic.FieldSimp
import Mathlib.Tactic.Linarith
import Mathlib.Tactic.NormNum
import Mathlib.Tactic.Ring
import BringUp.Serial.Line

/-!
# Rates with and without modulation

How close the two ways to program a line come to its rate, in exact arithmetic. The divisor is
rounded down, so the divided clock is never slower than the rate (`Line.scaledRate_le`), and less
than twice as fast (`Line.lt_scaledRate`). Modulation slows it down by the duty, which is the
nearest number of 256ths as long as the hardware takes that number (`Line.toNat_duty`).

It takes none above 255. So modulation brings a line closer to its rate, or leaves it as close,
exactly as long as the duty that would give the rate is no more than half a step above 255
(`Line.modulated_as_close_iff`). A clock that is divided down to the rate without a remainder is
beyond that: see `Line.modulation_misses_rate`.
-/

namespace BringUp.Serial

/-- An accepted divisor is one less than the rounded quotient. -/
theorem divisor?_eq_some {clock : UInt64} {baud : UInt32} {divisor : UInt8}
    (h : divisor? clock baud = some divisor) :
    0 < baud.toNat ∧ clock.toNat / (32 * baud.toNat) = divisor.toNat + 1 := by
  unfold divisor? at h
  split at h
  · cases h
  · next hbaud =>
    obtain ⟨hrange, hdivisor⟩ := Option.ite_none_left_eq_some.1 h
    obtain ⟨hzero, hbyte⟩ := not_or.1 hrange
    have hpos : 0 < baud.toNat := Nat.pos_of_ne_zero fun h0 ↦ hbaud (UInt32.toNat.inj h0)
    have hquot : (rateQuotient clock baud).toNat ≠ 0 := fun h0 ↦ hzero (UInt64.toNat.inj h0)
    have hone : (1 : UInt64) ≤ rateQuotient clock baud :=
      UInt64.le_iff_toNat_le.2 (Nat.pos_of_ne_zero hquot)
    have hsub : (rateQuotient clock baud - 1).toNat = (rateQuotient clock baud).toNat - 1 :=
      UInt64.toNat_sub_of_le _ _ hone
    have hle : (rateQuotient clock baud - 1).toNat ≤ 255 :=
      UInt64.le_iff_toNat_le.1 (UInt64.not_lt.1 hbyte)
    refine ⟨hpos, ?_⟩
    rw [← Option.some.inj hdivisor, UInt64.toNat_toUInt8, ← toNat_rateQuotient]
    omega

namespace Line

variable (line : Line)

/-! ### What is programmed -/

/-- The rate without modulation: the divided clock. -/
def plainRate : ℚ :=
  line.clock.toNat / (32 * (line.divisor.toNat + 1))

/-- The rate with modulation: as many 256ths of it as the duty tells. -/
def modulatedRate : ℚ :=
  line.clock.toNat * line.duty.toNat / (256 * 32 * (line.divisor.toNat + 1))

/-- The duty, in 256ths, that would give the rate. -/
def exactDuty : ℚ :=
  256 * 32 * line.baud.toNat * (line.divisor.toNat + 1) / line.clock.toNat

/-! ### The divided clock -/

/-- The clock has the cycles of a bit at the divisor. -/
theorem mul_divisor_le : 32 * line.baud.toNat * (line.divisor.toNat + 1) ≤ line.clock.toNat := by
  obtain ⟨-, hquot⟩ := divisor?_eq_some line.divisor_eq
  rw [← hquot]
  exact Nat.mul_div_le _ _

/-- It has not those of a bit at the next one. -/
theorem lt_mul_divisor : line.clock.toNat < 32 * line.baud.toNat * (line.divisor.toNat + 2) := by
  obtain ⟨hbaud, hquot⟩ := divisor?_eq_some line.divisor_eq
  have hlt := Nat.lt_mul_div_succ line.clock.toNat (Nat.mul_pos (show 0 < 32 by decide) hbaud)
  rwa [hquot] at hlt

/-- The clock that gives the rate without modulation, scaled by 256. -/
def scaledRate : ℕ :=
  8192 * line.baud.toNat * (line.divisor.toNat + 1)

/-- The divided clock is not slower than the rate. -/
theorem scaledRate_le : line.scaledRate ≤ 256 * line.clock.toNat := by
  rw [scaledRate, show 8192 = 256 * 32 from rfl, Nat.mul_assoc 256, Nat.mul_assoc 256]
  exact Nat.mul_le_mul_left 256 line.mul_divisor_le

/-- It is less than twice as fast. -/
theorem lt_scaledRate : 128 * line.clock.toNat < line.scaledRate := by
  have hlt := line.lt_mul_divisor
  -- the next divisor is at most twice as large
  have hnext : 32 * line.baud.toNat * (line.divisor.toNat + 2) ≤
      32 * line.baud.toNat * (2 * (line.divisor.toNat + 1)) := Nat.mul_le_mul_left _ (by omega)
  rw [scaledRate]
  calc 128 * line.clock.toNat
      < 128 * (32 * line.baud.toNat * (2 * (line.divisor.toNat + 1))) := by omega
    _ = 8192 * line.baud.toNat * (line.divisor.toNat + 1) := by ring

theorem clock_pos : 0 < line.clock.toNat := by
  have := line.lt_scaledRate
  have := line.scaledRate_le
  omega

/-- The duty before it is held to what the hardware takes. -/
def roundedDuty : UInt64 :=
  (dutyNumerator line.baud line.divisor + line.clock / 2) / line.clock

theorem toNat_roundedDuty : line.roundedDuty.toNat =
    (line.scaledRate + line.clock.toNat / 2) / line.clock.toNat := by
  have hnum : (dutyNumerator line.baud line.divisor).toNat = line.scaledRate :=
    toNat_dutyNumerator line.baud line.divisor
  have hclock := line.clock.toNat_lt
  have hscaled : line.scaledRate < 0x20000000000000 := dutyNumerator_lt line.baud line.divisor
  have hsum : (dutyNumerator line.baud line.divisor + line.clock / 2).toNat =
      line.scaledRate + line.clock.toNat / 2 := by
    rw [UInt64.toNat_add, hnum, UInt64.toNat_div, show (2 : UInt64).toNat = 2 from rfl]
    exact Nat.mod_eq_of_lt (by omega)
  rw [roundedDuty, UInt64.toNat_div, hsum]

/-- The lower bound of what the hardware takes is never needed. -/
theorem le_toNat_roundedDuty : 128 ≤ line.roundedDuty.toNat := by
  have hlt := line.lt_scaledRate
  rw [toNat_roundedDuty]
  exact (Nat.le_div_iff_mul_le line.clock_pos).2 (by omega)

/-- The duty is the rounded one, held to the upper bound. -/
theorem toNat_duty_eq_min : line.duty.toNat = min 255 line.roundedDuty.toNat := by
  have hpos := line.clock_pos
  have hzero : line.clock ≠ 0 := fun h0 ↦ by simp [h0] at hpos
  have hduty : line.duty = if line.roundedDuty < 128 then 128
      else if 255 < line.roundedDuty then 255 else line.roundedDuty.toUInt8 := by
    rw [duty, dutyOf, if_neg hzero]
    rfl
  have hlow : (128 : UInt64) ≤ line.roundedDuty :=
    UInt64.le_iff_toNat_le.2 line.le_toNat_roundedDuty
  rw [hduty, if_neg (UInt64.not_lt.2 hlow)]
  split
  · next hhigh =>
    exact (Nat.min_eq_left (Nat.le_of_lt (UInt64.lt_iff_toNat_lt.1 hhigh))).symm
  · next hbyte =>
    have hle : line.roundedDuty.toNat ≤ 255 := UInt64.le_iff_toNat_le.1 (UInt64.not_lt.1 hbyte)
    rw [UInt64.toNat_toUInt8, Nat.min_eq_right hle]
    exact Nat.mod_eq_of_lt (Nat.lt_succ_of_le hle)

/-- The duty is the nearest one, unless that is beyond what the hardware takes. -/
theorem toNat_duty : line.duty.toNat =
    min 255 ((line.scaledRate + line.clock.toNat / 2) / line.clock.toNat) := by
  rw [toNat_duty_eq_min, toNat_roundedDuty]

/-! ### Distances to the rate -/

/-- The distances to the rate with and without modulation, over a common denominator. -/
theorem modulated_le_plain_iff :
    |line.modulatedRate - line.baud.toNat| ≤ |line.plainRate - line.baud.toNat| ↔
      |(line.clock.toNat * line.duty.toNat - line.scaledRate : ℤ)| ≤
        256 * line.clock.toNat - line.scaledRate := by
  have hden : (0 : ℚ) < 8192 * (line.divisor.toNat + 1) := by positivity
  have hmodulated : line.modulatedRate - line.baud.toNat =
      ((line.clock.toNat * line.duty.toNat - line.scaledRate : ℤ) : ℚ) /
        (8192 * (line.divisor.toNat + 1)) := by
    rw [modulatedRate, scaledRate]
    push_cast
    field_simp
    ring
  have hplain : line.plainRate - line.baud.toNat =
      ((256 * line.clock.toNat - line.scaledRate : ℤ) : ℚ) /
        (8192 * (line.divisor.toNat + 1)) := by
    rw [plainRate, scaledRate]
    push_cast
    field_simp
    ring
  have hnonneg : (0 : ℤ) ≤ 256 * line.clock.toNat - line.scaledRate := by
    have := line.scaledRate_le
    omega
  rw [hmodulated, hplain, abs_div, abs_div, div_le_div_iff_of_pos_right (abs_pos.2 hden.ne'),
    ← Int.cast_abs, ← Int.cast_abs, Int.cast_le, abs_of_nonneg hnonneg]

/-- The nearest number of 256ths, held to 255, is as near as all 256 of them unless more than half
a step is cut off. -/
theorem held_as_close_iff {clock scaled : ℕ} (hpos : 0 < clock) :
    |(clock * (min 255 ((scaled + clock / 2) / clock) : ℕ) - scaled : ℤ)| ≤ 256 * clock - scaled ↔
      2 * scaled ≤ 511 * clock := by
  have hdiv := Nat.div_add_mod (scaled + clock / 2) clock
  have hmod := Nat.mod_lt (scaled + clock / 2) hpos
  generalize (scaled + clock / 2) / clock = q at *
  rw [abs_le]
  rcases Nat.lt_or_ge 255 q with hhigh | hbyte
  · have hq : clock * 256 ≤ clock * q := Nat.mul_le_mul_left clock hhigh
    rw [Nat.min_eq_left (Nat.le_of_lt hhigh)]
    omega
  · have hq : clock * q ≤ clock * 255 := Nat.mul_le_mul_left clock hbyte
    rw [Nat.min_eq_right hbyte, ← Int.natCast_mul]
    omega

/-- Modulation leaves a line at least as close to its rate exactly as long as the duty that would
give the rate is at most half a step above 255, the largest that the hardware takes. -/
theorem modulated_as_close_iff :
    |line.modulatedRate - line.baud.toNat| ≤ |line.plainRate - line.baud.toNat| ↔
      line.exactDuty ≤ 255 + 1 / 2 := by
  have hclock : (0 : ℚ) < line.clock.toNat := Nat.cast_pos.2 line.clock_pos
  have hexact : line.exactDuty ≤ 255 + 1 / 2 ↔ 2 * line.scaledRate ≤ 511 * line.clock.toNat := by
    rw [exactDuty, div_le_iff₀ hclock, ← Nat.cast_le (α := ℚ), scaledRate]
    push_cast
    constructor <;> intro h <;> linarith
  rw [modulated_le_plain_iff, toNat_duty, held_as_close_iff line.clock_pos, hexact]

/-- A clock of 3686400 Hz is divided down to 115200 baud without a remainder. Modulation takes 255
of 256 parts of that and misses the rate by 450 baud. -/
theorem modulation_misses_rate :
    ¬ ∀ line : Line, |line.modulatedRate - line.baud.toNat| ≤ |line.plainRate - line.baud.toNat| := by
  intro h
  let line : Line := ⟨0x1004B800, 3686400, 115200, 0, true, by decide⟩
  have hclock : line.clock.toNat = 3686400 := rfl
  have hbaud : line.baud.toNat = 115200 := rfl
  have hdivisor : line.divisor.toNat = 0 := rfl
  have hduty : line.duty.toNat = 255 := by decide
  have hplain : line.plainRate - line.baud.toNat = 0 := by
    rw [plainRate, hclock, hbaud, hdivisor]
    norm_num
  have hmodulated : line.modulatedRate - line.baud.toNat = -450 := by
    rw [modulatedRate, hclock, hbaud, hdivisor, hduty]
    norm_num
  have := h line
  rw [hplain, hmodulated] at this
  norm_num at this

end Line

end BringUp.Serial
