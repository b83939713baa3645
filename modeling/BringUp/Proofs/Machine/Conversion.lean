import Mathlib.Algebra.Order.Floor.Div
import Mathlib.GroupTheory.GroupAction.Ring
import BringUp.Clock

/-!
# Ticks and microseconds

The two conversions of a clock are floors of quotients in opposite directions. Each of them drops a
remainder, and only the first of two in a row matters: what it drops is less than its divisor, so
converting there and back loses at most what that comes to in the unit of the start
(`le_there_and_back`). Which of the two units is the larger one plays no part in this, so one
statement serves both directions, and frequencies above and below one megahertz.

The words that the conversions give are cut from the quotients. A quotient that fits is not changed
by that (`toNat_ticksToMicros`, `toNat_microsToTicks`), and on the way back nothing can be cut,
because the result is not above the start.
-/

namespace BringUp

/-! ### Floors in opposite directions -/

section Floors

variable {p q n : Nat}

/-- There and back never gains. -/
theorem there_and_back_le (n p q : Nat) : n * p / q * q / p ≤ n := by
  refine Nat.div_le_of_le_mul ?_
  rw [Nat.mul_comm p n]
  exact Nat.div_mul_le_self _ _

/-- **There and back loses at most the largest remainder**, rounded up to the unit of the start. -/
theorem le_there_and_back (hp : 0 < p) (hq : 0 < q) (n : Nat) :
    n ≤ n * p / q * q / p + (q - 1) ⌈/⌉ p := by
  have hdropped : n * p ≤ n * p / q * q + (q - 1) := by
    have := Nat.lt_div_mul_add (a := n * p) hq
    omega
  have hceil : q - 1 ≤ p * ((q - 1) ⌈/⌉ p) := (ceilDiv_le_iff_le_mul hp).1 (Nat.le_refl _)
  calc n = n * p / p := (Nat.mul_div_cancel n hp).symm
    _ ≤ (n * p / q * q + p * ((q - 1) ⌈/⌉ p)) / p :=
      Nat.div_le_div_right (hdropped.trans (Nat.add_le_add_left hceil _))
    _ = n * p / q * q / p + (q - 1) ⌈/⌉ p := Nat.add_mul_div_left _ _ hp

/-- Where nothing is dropped nothing is lost. -/
theorem there_and_back_of_dvd (hp : 0 < p) (h : q ∣ p) (n : Nat) : n * p / q * q / p = n := by
  rw [Nat.div_mul_cancel (h.mul_left n), Nat.mul_div_cancel n hp]

end Floors

/-! ### Words -/

variable {freq ticks ticks' micros micros' : UInt64}

/-- So many ticks come to a number of microseconds that fits in the word. -/
def MicrosFit (ticks freq : UInt64) : Prop :=
  ticks.toNat * microsPerSecond / freq.toNat < UInt64.size

/-- So many microseconds come to a number of ticks that fits in the word. -/
def TicksFit (micros freq : UInt64) : Prop :=
  micros.toNat * freq.toNat / microsPerSecond < UInt64.size

instance (ticks freq : UInt64) : Decidable (MicrosFit ticks freq) :=
  inferInstanceAs (Decidable (_ < _))

instance (micros freq : UInt64) : Decidable (TicksFit micros freq) :=
  inferInstanceAs (Decidable (_ < _))

theorem toNat_ticksToMicros (h : MicrosFit ticks freq) :
    (ticksToMicros ticks freq).toNat = ticks.toNat * microsPerSecond / freq.toNat :=
  UInt64.toNat_ofNat_of_lt' h

theorem toNat_microsToTicks (h : TicksFit micros freq) :
    (microsToTicks micros freq).toNat = micros.toNat * freq.toNat / microsPerSecond :=
  UInt64.toNat_ofNat_of_lt' h

/-- More ticks come to more microseconds, so fewer fit as well. -/
theorem MicrosFit.of_le (h : MicrosFit ticks' freq) (hle : ticks ≤ ticks') :
    MicrosFit ticks freq :=
  Nat.lt_of_le_of_lt
    (Nat.div_le_div_right (Nat.mul_le_mul_right _ (UInt64.le_iff_toNat_le.1 hle))) h

theorem TicksFit.of_le (h : TicksFit micros' freq) (hle : micros ≤ micros') :
    TicksFit micros freq :=
  Nat.lt_of_le_of_lt
    (Nat.div_le_div_right (Nat.mul_le_mul_right _ (UInt64.le_iff_toNat_le.1 hle))) h

theorem ticksToMicros_le_ticksToMicros (hle : ticks ≤ ticks') (h : MicrosFit ticks' freq) :
    ticksToMicros ticks freq ≤ ticksToMicros ticks' freq := by
  rw [UInt64.le_iff_toNat_le, toNat_ticksToMicros (h.of_le hle), toNat_ticksToMicros h]
  exact Nat.div_le_div_right (Nat.mul_le_mul_right _ (UInt64.le_iff_toNat_le.1 hle))

theorem microsToTicks_le_microsToTicks (hle : micros ≤ micros') (h : TicksFit micros' freq) :
    microsToTicks micros freq ≤ microsToTicks micros' freq := by
  rw [UInt64.le_iff_toNat_le, toNat_microsToTicks (h.of_le hle), toNat_microsToTicks h]
  exact Nat.div_le_div_right (Nat.mul_le_mul_right _ (UInt64.le_iff_toNat_le.1 hle))

/-- Microseconds that fit as ticks come back as a word that nothing was cut from. -/
theorem toNat_ticksToMicros_microsToTicks (h : TicksFit micros freq) :
    (ticksToMicros (microsToTicks micros freq) freq).toNat =
      micros.toNat * freq.toNat / microsPerSecond * microsPerSecond / freq.toNat := by
  rw [toNat_ticksToMicros, toNat_microsToTicks h]
  rw [MicrosFit, toNat_microsToTicks h]
  exact Nat.lt_of_le_of_lt (there_and_back_le _ _ _) micros.toNat_lt

/-- So do ticks that fit as microseconds. -/
theorem toNat_microsToTicks_ticksToMicros (h : MicrosFit ticks freq) :
    (microsToTicks (ticksToMicros ticks freq) freq).toNat =
      ticks.toNat * microsPerSecond / freq.toNat * freq.toNat / microsPerSecond := by
  rw [toNat_microsToTicks, toNat_ticksToMicros h]
  rw [TicksFit, toNat_ticksToMicros h]
  exact Nat.lt_of_le_of_lt (there_and_back_le _ _ _) ticks.toNat_lt

/-- **The conversions are monotone, and each almost undoes the other**, at every frequency and
wherever the quotients fit. Microseconds that were converted to ticks come back without a gain and
with a loss of at most 999999 / `freq`, rounded up; where a microsecond is a whole number of ticks
they come back as they were. Ticks that were converted to microseconds come back without a gain and
with a loss of at most (`freq` - 1) / 1000000, rounded up. -/
theorem conversions_nearly_inverse (hfreq : 1 ≤ freq) :
    (∀ ticks ticks', ticks ≤ ticks' → MicrosFit ticks' freq →
      ticksToMicros ticks freq ≤ ticksToMicros ticks' freq) ∧
    (∀ micros micros', micros ≤ micros' → TicksFit micros' freq →
      microsToTicks micros freq ≤ microsToTicks micros' freq) ∧
    (∀ micros, TicksFit micros freq →
      (micros.toNat - (999999 ⌈/⌉ freq.toNat : ℕ) : ℤ) ≤
          (ticksToMicros (microsToTicks micros freq) freq).toNat ∧
        ticksToMicros (microsToTicks micros freq) freq ≤ micros ∧
        (1000000 ∣ freq.toNat → ticksToMicros (microsToTicks micros freq) freq = micros)) ∧
    ∀ ticks, MicrosFit ticks freq →
      (ticks.toNat - ((freq.toNat - 1) ⌈/⌉ 1000000 : ℕ) : ℤ) ≤
          (microsToTicks (ticksToMicros ticks freq) freq).toNat ∧
        microsToTicks (ticksToMicros ticks freq) freq ≤ ticks := by
  have hpos : 0 < freq.toNat := UInt64.le_iff_toNat_le.1 hfreq
  have hsecond : 0 < microsPerSecond := by decide
  refine ⟨fun _ _ ↦ ticksToMicros_le_ticksToMicros, fun _ _ ↦ microsToTicks_le_microsToTicks,
    fun micros h ↦ ?_, fun ticks h ↦ ?_⟩
  · have hback := toNat_ticksToMicros_microsToTicks h
    have hloss : micros.toNat ≤ _ + 999999 ⌈/⌉ freq.toNat :=
      le_there_and_back hpos hsecond micros.toNat
    refine ⟨?_, ?_, fun hdvd ↦ UInt64.toNat_inj.1 ?_⟩
    · rw [hback]
      omega
    · rw [UInt64.le_iff_toNat_le, hback]
      exact there_and_back_le _ _ _
    · rw [hback]
      exact there_and_back_of_dvd hpos hdvd micros.toNat
  · have hback := toNat_microsToTicks_ticksToMicros h
    have hloss : ticks.toNat ≤ _ + (freq.toNat - 1) ⌈/⌉ 1000000 :=
      le_there_and_back hsecond hpos ticks.toNat
    refine ⟨?_, ?_⟩
    · rw [hback]
      omega
    · rw [UInt64.le_iff_toNat_le, hback]
      exact there_and_back_le _ _ _

/-- At 32768 Hz a hundred microseconds come to three ticks, and these to 91 microseconds. At 12 MHz
they come back as they were, and a hundred ticks come back as 96. -/
theorem conversions_nearly_inverse_at_crystal :
    ((1 : UInt64) ≤ 32768 ∧ TicksFit 100 32768 ∧
      microsToTicks 10 32768 ≤ microsToTicks 100 32768 ∧
      ticksToMicros (microsToTicks 100 32768) 32768 = 91 ∧
      ((100 : UInt64).toNat - (999999 ⌈/⌉ (32768 : UInt64).toNat : ℕ) : ℤ) ≤ (91 : UInt64).toNat) ∧
    ((1 : UInt64) ≤ 12000000 ∧ 1000000 ∣ (12000000 : UInt64).toNat ∧
      ticksToMicros (microsToTicks 100 12000000) 12000000 = 100 ∧
      microsToTicks (ticksToMicros 100 12000000) 12000000 = 96 ∧
      ((100 : UInt64).toNat - (((12000000 : UInt64).toNat - 1) ⌈/⌉ 1000000 : ℕ) : ℤ) ≤
        (96 : UInt64).toNat) := by
  have hback : ticksToMicros (microsToTicks 100 32768) 32768 = 91 := by decide
  have hback' : microsToTicks (ticksToMicros 100 12000000) 12000000 = 96 := by decide
  obtain ⟨-, hmono, hslow, -⟩ := conversions_nearly_inverse (show (1 : UInt64) ≤ 32768 by decide)
  obtain ⟨-, -, hfast, hticks⟩ :=
    conversions_nearly_inverse (show (1 : UInt64) ≤ 12000000 by decide)
  have hloss := (hslow 100 (by decide)).1
  have hloss' := (hticks 100 (by decide)).1
  rw [hback] at hloss
  rw [hback'] at hloss'
  exact ⟨⟨by decide, by decide, hmono 10 100 (by decide) (by decide), hback, hloss⟩,
    by decide, by decide, (hfast 100 (by decide)).2.2 (by decide), hback', hloss'⟩

end BringUp
