import BringUp.Proofs.Serial.Modulation
import BringUp.Proofs.Serial.Unwrapped

/-!
# The nearest duty

How good the duty of a line is. It is a quotient rounded to nearest, which leaves at most half a
step (`rounded_error_le`), and then held to 255. Holding it does not matter to the choice: no duty
that the hardware takes comes closer to the rate (`held_error_le`). And it costs little, because the
divided clock gives at least the rate: the rate with modulation is within one part in 256 of the one
that was asked for (`held_error_le_scaled`).

Errors are those of the clock times the duty, from what that would have to be: the scaled rate.
-/

namespace BringUp.Serial

section Rounded

variable {clock scaled : ℕ}

/-! ### Rounding and holding -/

/-- Rounding leaves half a step at most. -/
theorem rounded_error_le (scaled : ℕ) (hpos : 0 < clock) :
    |(clock * ((scaled + clock / 2) / clock : ℕ) - scaled : ℤ)| ≤ (clock / 2 : ℕ) := by
  have hdiv := Nat.div_add_mod (scaled + clock / 2) clock
  have hmod := Nat.mod_lt (scaled + clock / 2) hpos
  generalize (scaled + clock / 2) / clock = q at *
  rw [← Int.natCast_mul, abs_le]
  omega

/-- A whole step farther there is half a step at least. -/
theorem half_le_error {q d : ℕ} (hq : |(clock * q - scaled : ℤ)| ≤ (clock / 2 : ℕ)) (hne : d ≠ q) :
    ((clock / 2 : ℕ) : ℤ) ≤ |(clock * d - scaled : ℤ)| := by
  obtain ⟨hlow, hhigh⟩ := abs_le.1 hq
  rw [← Int.natCast_mul] at hlow hhigh ⊢
  rw [le_abs]
  rcases Nat.lt_or_gt_of_ne hne with hlt | hgt
  · have hstep : clock * d + clock ≤ clock * q := Nat.mul_le_mul_left clock hlt
    omega
  · have hstep : clock * q + clock ≤ clock * d := Nat.mul_le_mul_left clock hgt
    omega

/-- **The rounded quotient, held to 255, is nearest among the numbers up to 255.** -/
theorem held_error_le (hpos : 0 < clock) {d : ℕ} (hd : d ≤ 255) :
    |(clock * (min 255 ((scaled + clock / 2) / clock) : ℕ) - scaled : ℤ)| ≤
      |(clock * d - scaled : ℤ)| := by
  have herror := rounded_error_le scaled hpos
  have hdiv := Nat.div_add_mod (scaled + clock / 2) clock
  generalize (scaled + clock / 2) / clock = q at *
  rcases Nat.lt_or_ge 255 q with hhigh | hbyte
  · -- the scaled rate is beyond all of these numbers
    have hq : clock * 256 ≤ clock * q := Nat.mul_le_mul_left clock hhigh
    have hmul : clock * d ≤ clock * 255 := Nat.mul_le_mul_left clock hd
    rw [Nat.min_eq_left (Nat.le_of_lt hhigh), ← Int.natCast_mul, ← Int.natCast_mul, abs_sub_comm,
      abs_sub_comm _ (scaled : ℤ), abs_of_nonneg (by omega), abs_of_nonneg (by omega)]
    omega
  · rw [Nat.min_eq_right hbyte]
    by_cases heq : d = q
    · rw [heq]
    · exact herror.trans (half_le_error herror heq)

/-- **It is off by one part in 256 at most**, if the divided clock gives at least the rate, and less
than twice of it. -/
theorem held_error_le_scaled (hpos : 0 < clock) (hlow : 128 * clock < scaled)
    (hhigh : scaled ≤ 256 * clock) :
    256 * |(clock * (min 255 ((scaled + clock / 2) / clock) : ℕ) - scaled : ℤ)| ≤ scaled := by
  have herror := rounded_error_le scaled hpos
  have hdiv := Nat.div_add_mod (scaled + clock / 2) clock
  have hmod := Nat.mod_lt (scaled + clock / 2) hpos
  generalize (scaled + clock / 2) / clock = q at *
  rcases Nat.lt_or_ge 255 q with hheld | hbyte
  · have hq : clock * 256 ≤ clock * q := Nat.mul_le_mul_left clock hheld
    rw [Nat.min_eq_left (Nat.le_of_lt hheld), ← Int.natCast_mul, abs_sub_comm,
      abs_of_nonneg (by omega)]
    omega
  · rw [Nat.min_eq_right hbyte]
    omega

end Rounded

/-! ### The duty of a line -/

namespace Line

variable (line : Line)

/-- **The duty of a line is the nearest one, and near.** Divisor and duty are computed without
wrapping; the rounded duty is never below what the hardware takes; no duty that it takes comes
closer to the rate; and the rate is missed by one part in 256 at most. -/
theorem duty_nearest :
    divisorUnwrapped line.clock line.baud = some (some line.divisor) ∧
      dutyUnwrapped line.clock line.baud line.divisor = some line.duty ∧
      128 ≤ line.roundedDuty.toNat ∧ line.duty.toNat = min 255 line.roundedDuty.toNat ∧
      (∀ d : ℕ, 128 ≤ d → d ≤ 255 →
        |(line.clock.toNat * line.duty.toNat - line.scaledRate : ℤ)| ≤
          |(line.clock.toNat * d - line.scaledRate : ℤ)|) ∧
      256 * |(line.clock.toNat * line.duty.toNat - line.scaledRate : ℤ)| ≤ line.scaledRate := by
  have hdivisor : divisorUnwrapped line.clock line.baud = some (some line.divisor) := by
    rw [divisorUnwrapped_eq, line.divisor_eq]
  refine ⟨hdivisor, dutyUnwrapped_eq _ _ _, line.le_toNat_roundedDuty, line.toNat_duty_eq_min,
    ?_, ?_⟩
  · intro d _ hd
    rw [toNat_duty]
    exact held_error_le line.clock_pos hd
  · rw [toNat_duty]
    exact held_error_le_scaled line.clock_pos line.lt_scaledRate line.scaledRate_le

end Line

end BringUp.Serial
