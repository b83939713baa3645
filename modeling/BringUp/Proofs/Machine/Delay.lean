import BringUp.Proofs.Machine.Access

/-!
# Watched delays

A delay on a clock that moves by a fixed step at each reading. The clock is read once to begin with
and then until enough time has passed, so what a delay leaves in the trace is its request and the
readings of consecutive counters (`delay_eq_ok`). Only the first reading from which on enough time
has passed ends it.
-/

namespace BringUp

/-! ### Stepping clocks -/

/-- A reading gives what `time` makes of the counter, and then moves the counter by a step. -/
def Clock.Steps (clock : Clock) (step : UInt64) (time : UInt64 → UInt64) : Prop :=
  ∀ trace counter, clock.sample trace counter = (some (time counter), counter + step)

theorem Clock.ticking_steps (start step freq : UInt64) :
    (Clock.ticking start step freq).Steps step fun counter ↦ ticksToMicros counter freq :=
  fun _ _ ↦ rfl

/-- What so many steps come to in the word. -/
theorem toNat_steps (step : UInt64) (n : Nat) :
    (UInt64.ofNat n * step).toNat = n * step.toNat % UInt64.size := by
  rw [UInt64.toNat_mul, UInt64.toNat_ofNat', Nat.mod_mul_mod]

/-- The readings of a clock from a counter on. -/
def clockReads (step : UInt64) (time : UInt64 → UInt64) (counter : UInt64) (n : Nat) : List Event :=
  (List.range n).map fun i ↦ .clockRead (time (counter + UInt64.ofNat i * step))

/-- The counter after one step more. -/
theorem counter_succ (counter step : UInt64) (i : Nat) :
    counter + UInt64.ofNat (i + 1) * step = counter + step + UInt64.ofNat i * step := by
  rw [UInt64.ofNat_add]
  grind

theorem clockReads_succ (step : UInt64) (time : UInt64 → UInt64) (counter : UInt64) (n : Nat) :
    clockReads step time counter (n + 1) =
      .clockRead (time counter) :: clockReads step time (counter + step) n := by
  rw [clockReads, List.range_succ_eq_map, List.map_cons, List.map_map, clockReads]
  refine List.cons_eq_cons.2 ⟨by simp, List.map_congr_left fun i _ ↦ ?_⟩
  rw [Function.comp_apply, Nat.succ_eq_add_one, counter_succ]

namespace Firmware

variable {m m' : Machine} {micros start step : UInt64} {time : UInt64 → UInt64}

theorem now_eq_ok_of_steps (hclock : m.clock.Steps step time) {t : UInt64}
    (h : now m = .ok t m') :
    t = time m.clock.counter ∧ m.Leads [.clockRead t] m' ∧
      m'.clock.counter = m.clock.counter + step ∧ m'.clock.Steps step time := by
  obtain ⟨hleads, hsample⟩ := now_eq_ok h
  rw [hclock] at hsample
  obtain ⟨ht, hcounter⟩ := Prod.mk.inj hsample
  refine ⟨(Option.some.inj ht).symm, hleads, hcounter.symm, ?_⟩
  rw [Clock.Steps, hleads.sample_eq]
  exact hclock

/-- Watching reads the clock until the time has passed, and not once more. -/
theorem watchFor_eq_ok (hclock : m.clock.Steps step time) {rounds : Nat}
    (h : watchFor micros start rounds m = .ok () m') :
    ∃ n, m.Leads (clockReads step time m.clock.counter (n + 1)) m' ∧
      (∀ i < n, time (m.clock.counter + UInt64.ofNat i * step) - start < micros) ∧
      micros ≤ time (m.clock.counter + UInt64.ofNat n * step) - start := by
  induction rounds generalizing m with
  | zero => cases h
  | succ rounds ih =>
    obtain ⟨t, m₁, hnow, hrest⟩ := bind_eq_ok_iff.1 h
    obtain ⟨ht, hleads, hcounter, hclock₁⟩ := now_eq_ok_of_steps hclock hnow
    have hfirst : m.clock.counter + UInt64.ofNat 0 * step = m.clock.counter := by simp
    -- the first reading is at no steps, and the rest are counted from the next one
    split at hrest
    · next hlt =>
      obtain ⟨n, hreads, hbefore, hpassed⟩ := ih hclock₁ hrest
      rw [hcounter] at hreads hbefore hpassed
      refine ⟨n + 1, ?_, fun i hi ↦ ?_, ?_⟩
      · rw [clockReads_succ, ← ht]
        exact hleads.trans hreads
      · cases i with
        | zero =>
          rw [hfirst, ← ht]
          exact hlt
        | succ i =>
          rw [counter_succ]
          exact hbefore i (by omega)
      · rw [counter_succ]
        exact hpassed
    · next hle =>
      cases hrest
      refine ⟨0, ?_, fun i hi ↦ absurd hi (Nat.not_lt_zero i), ?_⟩
      · rw [clockReads_succ, ← ht]
        exact hleads
      · rw [hfirst, ← ht]
        exact UInt64.not_lt.1 hle

/-- A watched delay records its request, reads the clock and then watches it. -/
theorem delay_of_watched (h : m.clock.passing = .watched) :
    delay micros m = (do watchFor micros (← now) (← rounds) : Firmware Unit)
      (m.record (.delay micros)) := by
  have hpassing : (m.record (.delay micros)).clock.passing = .watched := h
  have hrecord : (modify fun m ↦ m.record (.delay micros) : Firmware PUnit) m =
      .ok () (m.record (.delay micros)) := rfl
  have hget : (get : Firmware Machine) (m.record (.delay micros)) =
      .ok (m.record (.delay micros)) (m.record (.delay micros)) := rfl
  rw [delay, bind_of_ok hrecord, bind_of_ok hget, hpassing]

/-- A delay on a clock that winds records its request and winds the clock. -/
theorem delay_of_winds (h : m.clock.passing = .winds) :
    delay micros m = .ok () { m.record (.delay micros) with clock := m.clock.wind micros } := by
  have hpassing : (m.record (.delay micros)).clock.passing = .winds := h
  have hrecord : (modify fun m ↦ m.record (.delay micros) : Firmware PUnit) m =
      .ok () (m.record (.delay micros)) := rfl
  have hget : (get : Firmware Machine) (m.record (.delay micros)) =
      .ok (m.record (.delay micros)) (m.record (.delay micros)) := rfl
  rw [delay, bind_of_ok hrecord, bind_of_ok hget, hpassing]
  rfl

/-- So it ends at once. -/
theorem delay_ends_of_winds (h : m.clock.passing = .winds) : ∃ m', delay micros m = .ok () m' :=
  ⟨_, delay_of_winds h⟩

/-- Both in one equation, by which a closed run with a delay in it can be evaluated. -/
theorem delay_eq (micros : UInt64) : delay micros = fun m ↦
    if m.clock.passing = .winds then
      .ok () { m.record (.delay micros) with clock := m.clock.wind micros }
    else (do watchFor micros (← now) (← rounds) : Firmware Unit) (m.record (.delay micros)) := by
  funext m
  cases h : m.clock.passing with
  | winds => exact (delay_of_winds h).trans (if_pos rfl).symm
  | watched => exact (delay_of_watched h).trans (if_neg nofun).symm

/-- **A watched delay reads the clock until the time has passed since its first reading.** -/
theorem delay_eq_ok (hclock : m.clock.Steps step time) (hwatched : m.clock.passing = .watched)
    (h : delay micros m = .ok () m') :
    ∃ n, 1 ≤ n ∧
      m.Leads (.delay micros :: clockReads step time m.clock.counter (n + 1)) m' ∧
      (∀ i, 1 ≤ i → i < n → time (m.clock.counter + UInt64.ofNat i * step) -
        time m.clock.counter < micros) ∧
      micros ≤ time (m.clock.counter + UInt64.ofNat n * step) - time m.clock.counter := by
  have hdelay : m.Leads [.delay micros] (m.record (.delay micros)) := .record m rfl
  rw [delay_of_watched hwatched] at h
  obtain ⟨start, m₁, hnow, hrest⟩ := bind_eq_ok_iff.1 h
  have hwatch : watchFor micros start (m₁.watchdog.limit + 1) m₁ = .ok () m' := hrest
  -- recording the request leaves the clock as it was
  obtain ⟨hstart, hleads, hcounter, hclock₁⟩ :=
    now_eq_ok_of_steps (m := m.record (.delay micros)) hclock hnow
  obtain ⟨n, hreads, hbefore, hpassed⟩ := watchFor_eq_ok hclock₁ hwatch
  rw [hcounter] at hreads hbefore hpassed
  rw [hstart] at hleads hbefore hpassed
  refine ⟨n + 1, by omega, ?_, fun i hi hlt ↦ ?_, ?_⟩
  · rw [clockReads_succ]
    exact hdelay.trans (hleads.trans hreads)
  · obtain ⟨i, rfl⟩ : ∃ j, i = j + 1 := ⟨i - 1, by omega⟩
    rw [counter_succ]
    exact hbefore i (by omega)
  · rw [counter_succ]
    exact hpassed

end Firmware

end BringUp
