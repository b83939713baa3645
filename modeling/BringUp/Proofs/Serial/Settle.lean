import BringUp.Proofs.Machine.Delay
import BringUp.Proofs.Serial.Controller

/-!
# The settle wait

Bringing a controller up waits after the rate was programmed, for a number of microseconds that is
more than a bit period. How long the wait lasts in ticks of the counter behind the clock is another
matter: each reading of the clock is rounded down to a microsecond, so a wait that begins late in a
microsecond is shorter than asked for by up to one.

`settle_lasts_iff` says exactly when the wait lasts a bit period all the same, in terms of the
counter at its first reading, the ticks between readings and the frequency. It may not:
`settle_cut_short`.
-/

namespace BringUp.Serial

open Firmware

/-! ### Rounded times -/

/-- Microseconds that a reading shows more than one that is `d` ticks earlier. -/
theorem micros_add (c d : Nat) {f : Nat} (hf : 0 < f) :
    (c + d) * microsPerSecond / f =
      c * microsPerSecond / f + (c * microsPerSecond % f + d * microsPerSecond) / f := by
  have h : (c + d) * microsPerSecond = f * (c * microsPerSecond / f) +
      (c * microsPerSecond % f + d * microsPerSecond) := by
    rw [← Nat.add_assoc, Nat.div_add_mod, Nat.add_mul]
  rw [h, Nat.mul_add_div hf]

theorem toNat_sub_ofNat {x y : Nat} (h : y ≤ x) :
    (UInt64.ofNat x - UInt64.ofNat y).toNat = (x - y) % UInt64.size := by
  rw [UInt64.toNat_sub, UInt64.toNat_ofNat', UInt64.toNat_ofNat', UInt64.size]
  omega

theorem toNat_counter {c step : UInt64} {i : Nat}
    (h : c.toNat + i * step.toNat < UInt64.size) :
    (c + UInt64.ofNat i * step).toNat = c.toNat + i * step.toNat := by
  have hmul : (UInt64.ofNat i * step).toNat = i * step.toNat := by
    rw [toNat_steps]
    exact Nat.mod_eq_of_lt (Nat.lt_of_le_of_lt (Nat.le_add_left _ _) h)
  rw [UInt64.toNat_add, hmul]
  exact Nat.mod_eq_of_lt h

/-- Microseconds that the reading after `i` steps shows to have passed since the first one, at a
counter. -/
def elapsed (counter step freq i : Nat) : Nat :=
  (counter * microsPerSecond % freq + i * step * microsPerSecond) / freq

theorem elapsed_zero {freq : Nat} (hfreq : 0 < freq) (counter step : Nat) :
    elapsed counter step freq 0 = 0 := by
  refine Nat.div_eq_of_lt ?_
  rw [Nat.zero_mul, Nat.zero_mul, Nat.add_zero]
  exact Nat.mod_lt _ hfreq

/-- A later reading does not show less. -/
theorem elapsed_le_elapsed (counter step freq : Nat) {i j : Nat} (h : i ≤ j) :
    elapsed counter step freq i ≤ elapsed counter step freq j := by
  have hticks : i * step * microsPerSecond ≤ j * step * microsPerSecond :=
    Nat.mul_le_mul_right _ (Nat.mul_le_mul_right _ h)
  exact Nat.div_le_div_right (Nat.add_le_add_left hticks _)

/-- Within a second no reading shows more than a second. -/
theorem elapsed_le {counter step freq i : Nat} (hfreq : 0 < freq) (h : i * step < freq) :
    elapsed counter step freq i ≤ microsPerSecond := by
  have hrest : counter * microsPerSecond % freq < freq := Nat.mod_lt _ hfreq
  have hticks : i * step * microsPerSecond ≤ freq * microsPerSecond :=
    Nat.mul_le_mul_right _ (Nat.le_of_lt h)
  refine Nat.le_of_lt_succ ((Nat.div_lt_iff_lt_mul hfreq).2 ?_)
  rw [Nat.succ_mul, Nat.mul_comm microsPerSecond freq]
  omega

/-- What two readings on a ticking clock show to have passed between them. -/
theorem toNat_elapsed {c step freq : UInt64} (hfreq : 0 < freq.toNat) {i : Nat}
    (h : c.toNat + i * step.toNat < UInt64.size) :
    (ticksToMicros (c + UInt64.ofNat i * step) freq - ticksToMicros c freq).toNat =
      elapsed c.toNat step.toNat freq.toNat i % UInt64.size := by
  rw [ticksToMicros, ticksToMicros, toNat_counter h, micros_add _ _ hfreq,
    toNat_sub_ofNat (Nat.le_add_right _ _), Nat.add_sub_cancel_left, elapsed]

/-! ### A bit period -/

namespace Line

theorem toNat_settleMicros (line : Line) :
    line.settleMicros.toNat = microsPerSecond / line.baud.toNat + 1 := by
  have hle : microsPerSecond / line.baud.toNat ≤ microsPerSecond := Nat.div_le_self _ _
  have hquot : (1000000 / line.baud.toUInt64).toNat = microsPerSecond / line.baud.toNat := by
    rw [UInt64.toNat_div, UInt32.toNat_toUInt64]
    rfl
  rw [settleMicros, UInt64.toNat_add, hquot]
  refine Nat.mod_eq_of_lt ?_
  rw [microsPerSecond] at hle ⊢
  simp only [UInt64.reduceToNat]
  omega

/-- Whether a settle wait that first reads the clock at a counter outlasts a bit period. The last
reading within the bit period is the one after `(freq - 1) / (step * baud)` steps; what has passed
by then, counted from the start of the microsecond of the first reading, must be less than the time
to wait. -/
def Outlasts (line : Line) (counter step freq : Nat) : Prop :=
  counter * microsPerSecond % freq +
    (freq - 1) / (step * line.baud.toNat) * step * microsPerSecond <
      freq * line.settleMicros.toNat

instance (line : Line) (counter step freq : Nat) : Decidable (line.Outlasts counter step freq) :=
  inferInstanceAs (Decidable (_ < _))

variable (line : Line) {counter step freq : Nat}

/-- The number of steps to the last reading within a bit period of the first one. -/
def lastReading (step freq : Nat) : Nat :=
  (freq - 1) / (step * line.baud.toNat)

theorem le_lastReading_iff (hstep : 0 < step) (hfreq : 0 < freq) {i : Nat} :
    i ≤ line.lastReading step freq ↔ i * step * line.baud.toNat < freq := by
  rw [lastReading, Nat.le_div_iff_mul_le (Nat.mul_pos hstep line.baud_pos), ← Nat.mul_assoc]
  omega

/-- The readings within a bit period show so little that nothing wraps. -/
theorem elapsed_mod_size (hstep : 0 < step) (hfreq : 0 < freq) (counter : Nat) {i : Nat}
    (h : i ≤ line.lastReading step freq) :
    elapsed counter step freq i % UInt64.size = elapsed counter step freq i := by
  have hticks : i * step < freq :=
    Nat.lt_of_le_of_lt (Nat.le_mul_of_pos_right _ line.baud_pos)
      ((line.le_lastReading_iff hstep hfreq).1 h)
  exact Nat.mod_eq_of_lt (Nat.lt_of_le_of_lt (elapsed_le hfreq hticks) (by decide))

theorem outlasts_iff (hfreq : 0 < freq) : line.Outlasts counter step freq ↔
    elapsed counter step freq (line.lastReading step freq) < line.settleMicros.toNat := by
  rw [elapsed, Nat.div_lt_iff_lt_mul hfreq, Nat.mul_comm line.settleMicros.toNat]
  rfl

/-- **A wait of `n` steps lasts a bit period exactly if it outlasts one.** The readings at `1` to
`n - 1` steps show less than the time to wait, the one at `n` steps shows that it has passed. -/
theorem bit_period_le_iff {n : Nat} (hstep : 0 < step) (hfreq : 0 < freq)
    (hbefore : ∀ i, 1 ≤ i → i < n →
      elapsed counter step freq i % UInt64.size < line.settleMicros.toNat)
    (hpassed : line.settleMicros.toNat ≤ elapsed counter step freq n % UInt64.size) :
    freq ≤ n * step * line.baud.toNat ↔ line.Outlasts counter step freq := by
  have hlast : line.lastReading step freq < n ↔ freq ≤ n * step * line.baud.toNat := by
    rw [← Nat.not_le, line.le_lastReading_iff hstep hfreq, Nat.not_lt]
  rw [line.outlasts_iff hfreq, ← hlast]
  constructor
  · intro hlt
    -- the reading at no steps is not among those that the wait has passed over
    by_cases hzero : line.lastReading step freq = 0
    · rw [hzero, elapsed_zero hfreq, line.toNat_settleMicros]
      exact Nat.succ_pos _
    · rw [← line.elapsed_mod_size hstep hfreq counter (Nat.le_refl _)]
      exact hbefore _ (Nat.pos_of_ne_zero hzero) hlt
  · intro hshort
    refine Nat.lt_of_not_le fun hle ↦ ?_
    rw [line.elapsed_mod_size hstep hfreq counter hle] at hpassed
    exact Nat.lt_irrefl _ (calc
      line.settleMicros.toNat ≤ elapsed counter step freq n := hpassed
      _ ≤ elapsed counter step freq (line.lastReading step freq) :=
        elapsed_le_elapsed counter step freq hle
      _ < line.settleMicros.toNat := hshort)

end Line

/-! ### The wait on the way up -/

namespace Controller

variable {ctrl : Controller} {power : Power} {routePins : Firmware Unit} {m m₁ m₂ : Machine}

/-- What bringing up does before the settle wait. -/
def approach (ctrl : Controller) (power : Power) : Firmware Unit := do
  ctrl.quiesce power
  ctrl.frame
  ctrl.setRate

/-- FIFOs running, pins routed, transmitter and receiver on. -/
def switchOn (ctrl : Controller) (routePins : Firmware Unit) : Firmware Unit := do
  ctrl.block.write Offset.fcr 0
  routePins
  ctrl.block.write Offset.scr Scr.bothOn

/-- What bringing up does after the settle wait. -/
def complete (ctrl : Controller) (routePins : Firmware Unit) :
    Firmware (Except Stop Unit × Controller) := do
  let (outcome, phase) ←
    runStages .configuring [⟨.enabled, ctrl.switchOn routePins⟩, ⟨.enabled, ctrl.announce⟩]
  return (outcome, { ctrl with phase })

theorem runStages_cons_of_ok {stage : Stage} {rest : List Stage} {phase : Phase}
    (h : stage.action m = .ok () m₁) :
    runStages phase (stage :: rest) m = runStages stage.reached rest m₁ := by
  have hobserve : observe stage.action m = .ok (.ok ()) m₁ := by rw [observe, h]
  rw [runStages, bind_of_ok hobserve]

/-- Only what is left of a stage matters. -/
theorem runStages_cons_congr {reached phase : Phase} {action action' : Firmware Unit}
    {rest : List Stage} (h : action m = action' m₁) :
    runStages phase (⟨reached, action⟩ :: rest) m =
      runStages phase (⟨reached, action'⟩ :: rest) m₁ := by
  have hobserve : observe action m = observe action' m₁ := by rw [observe, observe, h]
  show EStateM.bind (observe action) _ m = EStateM.bind (observe action') _ m₁
  rw [EStateM.bind, EStateM.bind, hobserve]

/-- **Bringing up performs the settle wait between the two.** -/
theorem bringUp_of_settled (hphase : ctrl.phase ≠ .enabled)
    (hbefore : ctrl.approach power m = .ok () m₁)
    (hwait : delay ctrl.line.settleMicros m₁ = .ok () m₂) :
    ctrl.bringUp power routePins m = ctrl.complete routePins m₂ := by
  obtain ⟨_, m₃, hquiesce, hrest⟩ := bind_eq_ok_iff.1 hbefore
  obtain ⟨_, m₄, hframe, hrate⟩ := bind_eq_ok_iff.1 hrest
  -- the third stage has its rate and its wait behind it at `m₂`
  have henable : ctrl.enable routePins m₄ = ctrl.switchOn routePins m₂ := by
    rw [enable, bind_of_ok hrate, bind_of_ok hwait, switchOn]
  have hstages : runStages ctrl.phase (ctrl.stages power routePins) m = runStages .configuring
      [⟨.enabled, ctrl.switchOn routePins⟩, ⟨.enabled, ctrl.announce⟩] m₂ := by
    rw [stages, runStages_cons_of_ok hquiesce, runStages_cons_of_ok hframe]
    exact runStages_cons_congr henable
  rw [bringUp, if_neg hphase, complete]
  show EStateM.bind _ _ m = EStateM.bind _ _ m₂
  rw [EStateM.bind, EStateM.bind, hstages]

/-- **When the settle wait lasts a bit period.** On a clock that rounds the ticks of a counter down
to microseconds and moves it by a fixed step at each reading, the wait is a number of steps from the
first reading to the last. If the counter does not wrap until then, these steps make up a bit period
exactly if the wait outlasts one from the counter at which it began. -/
theorem settle_lasts_iff (routePins : Firmware Unit) {step freq : UInt64}
    (hphase : ctrl.phase ≠ .enabled)
    (hclock : m₁.clock.Steps step fun counter ↦ ticksToMicros counter freq)
    (hwatched : m₁.clock.passing = .watched) (hstep : 0 < step.toNat) (hfreq : 0 < freq.toNat)
    (hbefore : ctrl.approach power m = .ok () m₁)
    (hwait : delay ctrl.line.settleMicros m₁ = .ok () m₂) :
    ctrl.bringUp power routePins m = ctrl.complete routePins m₂ ∧
      ∃ n, m₂.trace.toList = m₁.trace.toList ++ .delay ctrl.line.settleMicros ::
          clockReads step (fun counter ↦ ticksToMicros counter freq) m₁.clock.counter (n + 1) ∧
        (m₁.clock.counter.toNat + n * step.toNat < UInt64.size →
          (freq.toNat ≤ n * step.toNat * ctrl.line.baud.toNat ↔
            ctrl.line.Outlasts m₁.clock.counter.toNat step.toNat freq.toNat)) := by
  refine ⟨bringUp_of_settled hphase hbefore hwait, ?_⟩
  obtain ⟨n, -, hleads, hearly, hpassed⟩ := delay_eq_ok hclock hwatched hwait
  refine ⟨n, hleads.trace_eq, fun hwrap ↦ ?_⟩
  -- the counter does not wrap at an earlier reading either
  have hbound : ∀ i, i ≤ n → m₁.clock.counter.toNat + i * step.toNat < UInt64.size := fun i hi ↦
    Nat.lt_of_le_of_lt (Nat.add_le_add_left (Nat.mul_le_mul_right _ hi) _) hwrap
  refine ctrl.line.bit_period_le_iff hstep hfreq (fun i hi hlt ↦ ?_) ?_
  · rw [← toNat_elapsed hfreq (hbound i (Nat.le_of_lt hlt))]
    exact UInt64.lt_iff_toNat_lt.1 (hearly i hi hlt)
  · rw [← toNat_elapsed hfreq (hbound n (Nat.le_refl n))]
    exact UInt64.le_iff_toNat_le.1 hpassed

/-! ### Runs by their length -/

/-- Whether the settle wait begins with the counter where it was, and ends after `n` steps. -/
def settlesAfter (ctrl : Controller) (power : Power) (m : Machine) (n : Nat) : Bool :=
  match ctrl.approach power m with
  | .ok _ m₁ =>
    match delay ctrl.line.settleMicros m₁ with
    | .ok _ m₂ => m₁.clock.counter == m.clock.counter && m₂.trace.size == m₁.trace.size + (n + 2)
    | .error _ _ => false
  | .error _ _ => false

theorem emits_approach (hclock : Emits (fun _ ↦ True) power.startClock)
    (hreset : Emits (fun _ ↦ True) power.releaseReset) :
    Emits (fun _ ↦ True) (ctrl.approach power) := by
  refine .bind (emits_quiesce (fun _ _ ↦ trivial) trivial hclock hreset) fun _ ↦ ?_
  exact .bind (emits_frame (fun _ _ ↦ trivial) trivial) fun _ ↦ emits_setRate fun _ _ ↦ trivial

/-- A controller that has clock and reset reaches its settle wait with the clock as it was. -/
theorem exists_settled {step : UInt64} {time : UInt64 → UInt64} {n : Nat}
    (hstart : Emits (fun _ ↦ True) power.startClock)
    (hreset : Emits (fun _ ↦ True) power.releaseReset)
    (hclock : m.clock.Steps step time) (hwatched : m.clock.passing = .watched)
    (h : settlesAfter ctrl power m n = true) :
    ∃ m₁ m₂, ctrl.approach power m = .ok () m₁ ∧ m₁.clock.counter = m.clock.counter ∧
      m₁.clock.Steps step time ∧ m₁.clock.passing = .watched ∧
      delay ctrl.line.settleMicros m₁ = .ok () m₂ ∧
      m₂.trace.toList.length = m₁.trace.toList.length + (n + 2) := by
  unfold settlesAfter at h
  split at h
  · next m₁ hbefore =>
    split at h
    · next m₂ hwait =>
      obtain ⟨hcounter, hsize⟩ := Bool.and_eq_true_iff.1 h
      obtain ⟨es, hleads, -⟩ := (emits_approach hstart hreset).of_ok hbefore
      have hclock₁ : m₁.clock.Steps step time := by
        rw [Clock.Steps, hleads.sample_eq]
        exact hclock
      exact ⟨m₁, m₂, hbefore, beq_iff_eq.1 hcounter, hclock₁, hleads.passing_eq.trans hwatched,
        hwait, beq_iff_eq.1 hsize⟩
    · cases h
  · cases h

/-- The number of steps is the one that the length of the trace tells. -/
theorem steps_eq {settle : UInt64} {m₁ m₂ : Machine} {n k : Nat} {step : UInt64}
    {time : UInt64 → UInt64}
    (htrace : m₂.trace.toList = m₁.trace.toList ++ .delay settle ::
      clockReads step time m₁.clock.counter (k + 1))
    (hlength : m₂.trace.toList.length = m₁.trace.toList.length + (n + 2)) : k = n := by
  rw [htrace, List.length_append, List.length_cons, clockReads, List.length_map,
    List.length_range] at hlength
  omega

/-! ### Two runs

The console of the evaluation board, with clock and reset in place, on a counter of 12 MHz that
moves by one tick at each reading. A bit period is a little more than 104 ticks.
-/

/-- The console, before it is brought up. -/
def freshConsole : Controller :=
  ⟨⟨0x1004B800, 100000000, 115200, 26, true, by decide⟩, .uninitialized⟩

/-- Clock and reset of a controller that has both. -/
def powerInPlace : Power :=
  ⟨pure (), pure ()⟩

/-- A machine whose counter stands at a number of ticks. -/
def tickingFrom (start : UInt64) : Machine :=
  { clock := .ticking start 1 12000000, watchdog := ⟨200, 0, 0, 0⟩ }

theorem exists_settled_console {start : UInt64} {n : Nat}
    (h : settlesAfter freshConsole powerInPlace (tickingFrom start) n = true) :
    ∃ m₁ m₂, freshConsole.approach powerInPlace (tickingFrom start) = .ok () m₁ ∧
      m₁.clock.counter = start ∧
      (m₁.clock.Steps 1 fun counter ↦ ticksToMicros counter 12000000) ∧
      m₁.clock.passing = .watched ∧
      delay freshConsole.line.settleMicros m₁ = .ok () m₂ ∧
      m₂.trace.toList.length = m₁.trace.toList.length + (n + 2) :=
  exists_settled (.pure _) (.pure _) (Clock.ticking_steps start 1 12000000) rfl h

/-- A wait that begins with a microsecond lasts a bit period. -/
theorem settle_lasts_iff_on_time :
    ∃ m₁ m₂, freshConsole.approach powerInPlace (tickingFrom 0) = .ok () m₁ ∧
      delay freshConsole.line.settleMicros m₁ = .ok () m₂ ∧
      freshConsole.bringUp powerInPlace (pure ()) (tickingFrom 0) =
        freshConsole.complete (pure ()) m₂ ∧
      m₂.trace.toList = m₁.trace.toList ++ .delay 9 ::
        clockReads 1 (fun counter ↦ ticksToMicros counter 12000000) 0 109 ∧
      12000000 ≤ 108 * 1 * freshConsole.line.baud.toNat := by
  have hsettles : settlesAfter freshConsole powerInPlace (tickingFrom 0) 108 = true := by
    decide +kernel
  obtain ⟨m₁, m₂, hbefore, hcounter, hclock, hwatched, hwait, hlength⟩ :=
    exists_settled_console hsettles
  obtain ⟨hcomplete, n, htrace, hiff⟩ := settle_lasts_iff (pure ())
    (show freshConsole.phase ≠ .enabled by decide) hclock hwatched (by decide) (by decide)
    hbefore hwait
  obtain rfl := steps_eq htrace hlength
  rw [hcounter] at htrace hiff
  exact ⟨m₁, m₂, hbefore, hwait, hcomplete, htrace, (hiff (by decide)).2 (by decide)⟩

/-- A wait that begins late in a microsecond is over after 97 ticks. -/
theorem settle_cut_short :
    ∃ m₁ m₂, freshConsole.approach powerInPlace (tickingFrom 11) = .ok () m₁ ∧
      delay freshConsole.line.settleMicros m₁ = .ok () m₂ ∧
      freshConsole.bringUp powerInPlace (pure ()) (tickingFrom 11) =
        freshConsole.complete (pure ()) m₂ ∧
      m₂.trace.toList = m₁.trace.toList ++ .delay 9 ::
        clockReads 1 (fun counter ↦ ticksToMicros counter 12000000) 11 98 ∧
      ¬ 12000000 ≤ 97 * 1 * freshConsole.line.baud.toNat := by
  have hsettles : settlesAfter freshConsole powerInPlace (tickingFrom 11) 97 = true := by
    decide +kernel
  obtain ⟨m₁, m₂, hbefore, hcounter, hclock, hwatched, hwait, hlength⟩ :=
    exists_settled_console hsettles
  have hcomplete : freshConsole.bringUp powerInPlace (pure ()) (tickingFrom 11) =
      freshConsole.complete (pure ()) m₂ := bringUp_of_settled (by decide) hbefore hwait
  obtain ⟨n, -, hleads, -, -⟩ := delay_eq_ok hclock hwatched hwait
  have htrace := hleads.trace_eq
  obtain rfl := steps_eq htrace hlength
  rw [hcounter] at htrace
  exact ⟨m₁, m₂, hbefore, hwait, hcomplete, htrace, by decide⟩

end Controller

end BringUp.Serial
