import Mathlib.Order.Bounds.Defs
import BringUp.Proofs.Serial.Modulation
import BringUp.Proofs.Serial.Settle
import BringUp.Proofs.Serial.Unwrapped

/-!
# Rates within reach of a clock

A clock is divided by 32 times a number from 1 to 256, so the rates that it reaches lie between two
bounds (`InReach`). A line exists for these and for no others, and it divides by the largest number
that still gives the rate: the rate that results is the closest one that is not below what was asked
for (`Line.Serves`). The settle wait of the line is the first whole number of microseconds past a
bit period.
-/

namespace BringUp.Serial

/-- The clock, divided by 32, is at least the rate, and less than 257 times of it. -/
def InReach (clock : UInt64) (baud : UInt32) : Prop :=
  baud ≠ 0 ∧ 32 * baud.toNat ≤ clock.toNat ∧ clock.toNat < 32 * 257 * baud.toNat

/-- What a line does that was made for a clock and a rate. -/
structure Line.Serves (line : Line) (base clock : UInt64) (baud : UInt32) : Prop where
  /-- It has the place. -/
  base_eq : line.base = base
  /-- It has the clock. -/
  clock_eq : line.clock = clock
  /-- It has the rate. -/
  baud_eq : line.baud = baud
  /-- The divisor is the largest one that gives at least the rate. -/
  greatest : IsGreatest {n : ℕ | n ≤ 255 ∧ 32 * (n + 1) * baud.toNat ≤ clock.toNat}
    line.divisor.toNat
  /-- The one after it, in range or not, gives less. -/
  lt_next : clock.toNat < 32 * (line.divisor.toNat + 2) * baud.toNat
  /-- The settle wait is longer than a bit period. -/
  lt_settle : 1000000 < line.settleMicros.toNat * baud.toNat
  /-- It is longer by a microsecond at most. -/
  settle_le : line.settleMicros.toNat * baud.toNat ≤ 1000000 + baud.toNat
  /-- The duty is computed without wrapping. -/
  duty_unwrapped : dutyUnwrapped clock baud line.divisor = some line.duty
  /-- So is the settle wait. -/
  settle_unwrapped : settleUnwrapped baud = some line.settleMicros

variable {base clock : UInt64} {baud : UInt32} {divisor : UInt8}

/-! ### Divisors -/

theorem inReach_of_divisor (h : divisor? clock baud = some divisor) : InReach clock baud := by
  let line : Line := ⟨0, clock, baud, divisor, true, h⟩
  have hdivisor : divisor.toNat + 2 ≤ 257 := Nat.succ_le_succ divisor.toNat_lt
  refine ⟨fun h0 ↦ Nat.ne_of_gt line.baud_pos (congrArg UInt32.toNat h0), ?_, ?_⟩
  · calc 32 * baud.toNat
      _ ≤ 32 * baud.toNat * (divisor.toNat + 1) := Nat.le_mul_of_pos_right _ (Nat.succ_pos _)
      _ ≤ clock.toNat := line.mul_divisor_le
  · calc clock.toNat
      _ < 32 * baud.toNat * (divisor.toNat + 2) := line.lt_mul_divisor
      _ ≤ 32 * baud.toNat * 257 := Nat.mul_le_mul_left _ hdivisor
      _ = 32 * 257 * baud.toNat := Nat.mul_right_comm _ _ _

theorem InReach.exists_divisor (h : InReach clock baud) :
    ∃ divisor, divisor? clock baud = some divisor := by
  obtain ⟨hne, hlow, hhigh⟩ := h
  have hpos : 0 < 32 * baud.toNat :=
    Nat.mul_pos (by decide) (Nat.pos_of_ne_zero fun h0 ↦ hne (UInt32.toNat.inj h0))
  have hquot := toNat_rateQuotient clock baud
  have hone : 1 ≤ clock.toNat / (32 * baud.toNat) :=
    (Nat.le_div_iff_mul_le hpos).2 (by rwa [Nat.one_mul])
  have hlast : clock.toNat / (32 * baud.toNat) < 257 :=
    (Nat.div_lt_iff_lt_mul hpos).2 (by omega)
  -- in words, the quotient is from 1 to 256
  have hzero : rateQuotient clock baud ≠ 0 := by
    intro h0
    rw [h0, show (0 : UInt64).toNat = 0 from rfl] at hquot
    omega
  have hbyte : ¬ 255 < rateQuotient clock baud - 1 := by
    rw [UInt64.lt_iff_toNat_lt, UInt64.toNat_sub_of_le _ _
      (UInt64.le_iff_toNat_le.2 (by rw [hquot]; exact hone)), hquot,
      show (255 : UInt64).toNat = 255 from rfl, show (1 : UInt64).toNat = 1 from rfl]
    omega
  exact ⟨_, by rw [divisor?, if_neg hne]; exact if_neg (not_or.2 ⟨hzero, hbyte⟩)⟩

namespace Line

section Made

variable (line : Line)

/-- **The divisor is the largest one that gives at least the rate.** -/
theorem isGreatest_divisor :
    IsGreatest {n : ℕ | n ≤ 255 ∧ 32 * (n + 1) * line.baud.toNat ≤ line.clock.toNat}
      line.divisor.toNat := by
  refine ⟨⟨Nat.le_of_lt_succ line.divisor.toNat_lt, ?_⟩, fun n hn ↦ ?_⟩
  · rw [Nat.mul_right_comm]
    exact line.mul_divisor_le
  · -- a larger one would need the clock of the next divisor
    have hlt : 32 * line.baud.toNat * (n + 1) < 32 * line.baud.toNat * (line.divisor.toNat + 2) :=
      calc 32 * line.baud.toNat * (n + 1)
        _ = 32 * (n + 1) * line.baud.toNat := Nat.mul_right_comm _ _ _
        _ ≤ line.clock.toNat := hn.2
        _ < 32 * line.baud.toNat * (line.divisor.toNat + 2) := line.lt_mul_divisor
    have hsucc := Nat.lt_of_mul_lt_mul_left hlt
    omega

theorem lt_settleMicros_mul : 1000000 < line.settleMicros.toNat * line.baud.toNat := by
  have hlt := Nat.lt_mul_div_succ microsPerSecond line.baud_pos
  rw [toNat_settleMicros, Nat.mul_comm]
  exact hlt

theorem settleMicros_mul_le :
    line.settleMicros.toNat * line.baud.toNat ≤ 1000000 + line.baud.toNat := by
  rw [toNat_settleMicros, Nat.succ_mul]
  exact Nat.add_le_add_right (Nat.div_mul_le_self _ _) _

/-- A line serves what it was made for. -/
theorem serves : line.Serves line.base line.clock line.baud where
  base_eq := rfl
  clock_eq := rfl
  baud_eq := rfl
  greatest := line.isGreatest_divisor
  lt_next := by
    rw [Nat.mul_right_comm]
    exact line.lt_mul_divisor
  lt_settle := line.lt_settleMicros_mul
  settle_le := line.settleMicros_mul_le
  duty_unwrapped := dutyUnwrapped_eq _ _ _
  settle_unwrapped := line.settleUnwrapped_eq

end Made

/-! ### Lines -/

theorem exists_of?_iff : (∃ line, of? base clock baud = .ok line) ↔ InReach clock baud := by
  unfold of?
  split
  · next divisor h => exact ⟨fun _ ↦ inReach_of_divisor h, fun _ ↦ ⟨_, rfl⟩⟩
  · next hnone =>
    refine ⟨by rintro ⟨_, ⟨⟩⟩, fun h ↦ ?_⟩
    obtain ⟨_, hsome⟩ := h.exists_divisor
    rw [hnone] at hsome
    cases hsome

/-- **A line is made for the rates within reach, and serves them.** Any other rate is refused, with
the clock and the rate that were asked for. Choosing the divisor does not wrap, whether there is one
or not. -/
theorem made_in_reach (base clock : UInt64) (baud : UInt32) :
    ((∃ line, of? base clock baud = .ok line) ↔ InReach clock baud) ∧
      (of? base clock baud = .error (.badRate clock baud) ↔ ¬ InReach clock baud) ∧
      (∀ line, of? base clock baud = .ok line → line.Serves base clock baud) ∧
      divisorUnwrapped clock baud = some (divisor? clock baud) := by
  refine ⟨exists_of?_iff, ?_, fun line hline ↦ ?_, divisorUnwrapped_eq clock baud⟩
  · have hiff : (∃ line, of? base clock baud = .ok line) ↔ InReach clock baud := exists_of?_iff
    rw [← hiff]
    rcases hmade : of? base clock baud with cause | line
    · rw [of?_eq_error hmade]
      exact ⟨fun _ ↦ by rintro ⟨_, ⟨⟩⟩, fun _ ↦ rfl⟩
    · exact ⟨nofun, fun hno ↦ absurd ⟨line, rfl⟩ hno⟩
  · obtain ⟨rfl, rfl, rfl⟩ := of?_eq_ok hline
    exact line.serves

end Line

/-- The last clock that reaches the rate of the console, and the first one that is too fast. -/
example : divisor? 947404799 defaultBaud = some 255 ∧ divisor? 947404800 defaultBaud = none := by
  decide

end BringUp.Serial
